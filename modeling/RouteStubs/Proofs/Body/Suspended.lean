import Mathlib.Logic.Relation
import RouteStubs.Proofs.Body.Source

/-!
# Which bodies suspend

Whether a body suspends its handler is found out by a walk that does not go into definitions. But
only the body of a definition is a scope of its own: its decorators and default values, and the
bases and keywords of a class, are evaluated where the definition stands. What suspends there is not
met by the walk, so a handler with an accepted body can be a generator.

## Main definitions

* `Node`: the nodes of a tree of statements, with their parts.
* `Node.walked`, `Node.evaluated`: the parts that the walk goes on to, and those that are evaluated
  in the same scope.
* `Stmt.Walks`, `Stmt.Evaluates`, `Stmt.Passes`: a node is met by the walk, is evaluated in the
  scope of a body, or belongs to this scope as a part of a definition.

## Main statements

* `Node.iff_meets`: what each step decides is decided by what can be reached.
* `Node.meets_evaluated_iff`: the scope is what the walk meets and what it goes past.
* `suspends_answer`: which suspensions the walk meets, and which accepted handlers are generators.
* `not_suspends_answer`: some are.
-/

namespace RouteStubs.Body

/-! ### Trees as nodes -/

/-- A node of a tree of statements. -/
inductive Node where
  /-- An expression. -/
  | expr (e : Expr)
  /-- A clause of a comprehension. -/
  | clause (c : Clause)
  /-- A statement. -/
  | stmt (s : Stmt)
  /-- A handler of exceptions. -/
  | handler (h : Handler)

namespace Node

/-- Whether the node is a definition: a function, with a name or without, or a class. -/
def isDefinition : Node → Bool
  | .expr (.lambda _ _ _) => true
  | .stmt (.function _ _ _ _ _ _) => true
  | .stmt (.class_ _ _ _ _ _) => true
  | _ => false

/-- The body of a definition. -/
def inside : Node → List Node
  | .expr (.lambda _ _ body) => [.expr body]
  | .stmt (.function _ _ _ _ _ body) => body.map .stmt
  | .stmt (.class_ _ _ _ _ body) => body.map .stmt
  | _ => []

/-- The parts of a definition that are not its body: decorators, default values and types, bases and
keywords. -/
def outside : Node → List Node
  | .expr (.lambda _ defaults _) => defaults.map .expr
  | .stmt (.function _ _ _ outside types _) => outside.map .expr ++ types.map .expr
  | .stmt (.class_ _ outside bases keywords _) =>
    outside.map .expr ++ bases.map .expr ++ keywords.map fun k => .expr k.2
  | _ => []

/-- The parts of a node that is no definition. -/
def parts : Node → List Node
  | .expr (.compound parts) => parts.map .expr
  | .expr (.display _ items) => items.map .expr
  | .expr (.attribute of _) => [.expr of]
  | .expr (.item of index) => [.expr of, .expr index]
  | .expr (.starred inner) => [.expr inner]
  | .expr (.call function arguments keywords) =>
    .expr function :: arguments.map .expr ++ keywords.map fun k => .expr k.2
  | .expr (.wait inner) => [.expr inner]
  | .expr (.yields _ value) => value.map .expr
  | .expr (.comprehension _ elements clauses) => elements.map .expr ++ clauses.map .clause
  | .expr (.named _ value) => [.expr value]
  | .clause (.mk _ target source conditions) =>
    .expr target :: .expr source :: conditions.map .expr
  | .stmt (.simple parts) => parts.map .expr
  | .stmt (.assign targets value) => targets.map .expr ++ [.expr value]
  | .stmt (.update target value) => [.expr target, .expr value]
  | .stmt (.typed _ target type value) => .expr target :: .expr type :: value.map .expr
  | .stmt (.delete targets) => targets.map .expr
  | .stmt (.result value) => value.map .expr
  | .stmt (.choice test body otherwise) => .expr test :: body.map .stmt ++ otherwise.map .stmt
  | .stmt (.loop test body otherwise) => .expr test :: body.map .stmt ++ otherwise.map .stmt
  | .stmt (.each _ target source body otherwise) =>
    .expr target :: .expr source :: body.map .stmt ++ otherwise.map .stmt
  | .stmt (.using _ contexts body) =>
    (contexts.flatMap fun c => .expr c.1 :: c.2.map .expr) ++ body.map .stmt
  | .stmt (.attempt _ body handlers otherwise last) =>
    body.map .stmt ++ handlers.map .handler ++ otherwise.map .stmt ++ last.map .stmt
  | .handler (.mk type _ body) => type.map .expr ++ body.map .stmt
  | _ => []

/-- All parts of a node. -/
def children (n : Node) : List Node := n.parts ++ n.outside ++ n.inside

/-- What the walk looks at after a node: it does not go into definitions. -/
def walked (n : Node) : List Node := if n.isDefinition then [] else n.children

/-- The parts of a node that are evaluated in the same scope: all but the bodies of definitions. -/
def evaluated (n : Node) : List Node := if n.isDefinition then n.outside else n.children

/-- How a node suspends the function in whose scope it is evaluated. -/
def suspension? : Node → Option Suspension
  | .expr (.wait _) => some .waits
  | .expr (.yields _ _) => some .yields
  | _ => none

/-- Whether the walk from a node meets a suspension. -/
def suspends : Node → Bool
  | .expr e => e.suspends
  | .clause c => c.suspends
  | .stmt s => s.suspends
  | .handler h => h.suspends

/-- The suspensions in the scope of a node. -/
def suspensions : Node → List Suspension
  | .expr e => e.suspensions
  | .clause c => c.suspensions
  | .stmt s => s.suspensions
  | .handler h => h.suspensions

end Node

/-! ### Lists of nodes -/

theorem Expr.anySuspends_eq (es : List Expr) : Expr.anySuspends es = es.any Expr.suspends := by
  induction es with
  | nil => rfl
  | cons e rest ih => rw [Expr.anySuspends, List.any_cons, ih]

theorem Expr.anyKeywordSuspends_eq (keywords : List (Option String × Expr)) :
    Expr.anyKeywordSuspends keywords = keywords.any fun k => k.2.suspends := by
  induction keywords with
  | nil => rfl
  | cons k rest ih => rw [Expr.anyKeywordSuspends, List.any_cons, ih]

theorem Clause.anySuspends_eq (cs : List Clause) :
    Clause.anySuspends cs = cs.any Clause.suspends := by
  induction cs with
  | nil => rfl
  | cons c rest ih => rw [Clause.anySuspends, List.any_cons, ih]

theorem Stmt.anySuspends_eq (body : List Stmt) : Stmt.anySuspends body = body.any Stmt.suspends := by
  induction body with
  | nil => rfl
  | cons s rest ih => rw [Stmt.anySuspends, List.any_cons, ih]

theorem Handler.anySuspends_eq (hs : List Handler) :
    Handler.anySuspends hs = hs.any Handler.suspends := by
  induction hs with
  | nil => rfl
  | cons h rest ih => rw [Handler.anySuspends, List.any_cons, ih]

theorem Expr.allSuspensions_eq (es : List Expr) :
    Expr.allSuspensions es = es.flatMap Expr.suspensions := by
  induction es with
  | nil => rfl
  | cons e rest ih => rw [Expr.allSuspensions, List.flatMap_cons, ih]

theorem Expr.keywordSuspensions_eq (keywords : List (Option String × Expr)) :
    Expr.keywordSuspensions keywords = keywords.flatMap fun k => k.2.suspensions := by
  induction keywords with
  | nil => rfl
  | cons k rest ih => rw [Expr.keywordSuspensions, List.flatMap_cons, ih]

theorem Clause.allSuspensions_eq (cs : List Clause) :
    Clause.allSuspensions cs = cs.flatMap Clause.suspensions := by
  induction cs with
  | nil => rfl
  | cons c rest ih => rw [Clause.allSuspensions, List.flatMap_cons, ih]

theorem Stmt.allSuspensions_eq (body : List Stmt) :
    Stmt.allSuspensions body = body.flatMap Stmt.suspensions := by
  induction body with
  | nil => rfl
  | cons s rest ih => rw [Stmt.allSuspensions, List.flatMap_cons, ih]

theorem Handler.allSuspensions_eq (hs : List Handler) :
    Handler.allSuspensions hs = hs.flatMap Handler.suspensions := by
  induction hs with
  | nil => rfl
  | cons h rest ih => rw [Handler.allSuspensions, List.flatMap_cons, ih]

namespace Node

/-! ### One step -/

variable {n m : Node}

attribute [local simp] isDefinition inside outside parts children

theorem walked_eq (n : Node) : n.walked = n.parts := by
  cases n with
  | expr e => cases e <;> simp [walked]
  | clause c => cases c; simp [walked]
  | stmt s => cases s <;> simp [walked]
  | handler h => cases h; simp [walked]

theorem evaluated_eq (n : Node) : n.evaluated = n.parts ++ n.outside := by
  cases n with
  | expr e => cases e <;> simp [evaluated]
  | clause c => cases c; simp [evaluated]
  | stmt s => cases s <;> simp [evaluated]
  | handler h => cases h; simp [evaluated]

@[simp] theorem suspends_expr (e : Expr) : (expr e).suspends = e.suspends := rfl

@[simp] theorem suspends_clause (c : Clause) : (clause c).suspends = c.suspends := rfl

@[simp] theorem suspends_stmt (s : Stmt) : (stmt s).suspends = s.suspends := rfl

@[simp] theorem suspends_handler (h : Handler) : (handler h).suspends = h.suspends := rfl

@[simp] theorem suspensions_expr (e : Expr) : (expr e).suspensions = e.suspensions := rfl

@[simp] theorem suspensions_clause (c : Clause) : (clause c).suspensions = c.suspensions := rfl

@[simp] theorem suspensions_stmt (s : Stmt) : (stmt s).suspensions = s.suspensions := rfl

@[simp] theorem suspensions_handler (h : Handler) : (handler h).suspensions = h.suspensions := rfl

/-- The walk meets a suspension if the node is one or the walk from one of its parts does. -/
theorem suspends_eq (n : Node) :
    n.suspends = (n.suspension?.isSome || n.parts.any suspends) := by
  cases n with
  | expr e =>
    cases e <;> simp [suspension?, Expr.suspends, Expr.anySuspends_eq,
      Expr.anyKeywordSuspends_eq, Clause.anySuspends_eq, Function.comp_def, Bool.or_assoc]
  | clause c =>
    cases c
    simp [suspension?, Clause.suspends, Expr.anySuspends_eq, Function.comp_def,
      Bool.or_assoc]
  | stmt s =>
    cases s <;> simp [suspension?, Stmt.suspends, Expr.anySuspends_eq, Stmt.anySuspends_eq,
      Handler.anySuspends_eq, contextsSuspend, List.any_flatMap, Function.comp_def, Bool.or_assoc]
  | handler h =>
    cases h
    simp [suspension?, Handler.suspends, Expr.anySuspends_eq, Stmt.anySuspends_eq,
      Function.comp_def]

/-- The suspensions in the scope of a node are the node itself, if it is one, and those of its parts
but for the bodies of definitions. -/
theorem suspensions_eq (n : Node) :
    n.suspensions = n.suspension?.toList ++ (n.parts ++ n.outside).flatMap suspensions := by
  cases n with
  | expr e =>
    cases e <;> simp [suspension?, Expr.suspensions, Expr.allSuspensions_eq,
      Expr.keywordSuspensions_eq, Clause.allSuspensions_eq, List.flatMap_map]
  | clause c =>
    cases c
    simp [suspension?, Clause.suspensions, Expr.allSuspensions_eq,
      List.flatMap_map]
  | stmt s =>
    cases s <;> simp [suspension?, Stmt.suspensions, Expr.allSuspensions_eq,
      Expr.keywordSuspensions_eq, Stmt.allSuspensions_eq, Handler.allSuspensions_eq,
      contextSuspensions, List.flatMap_map, List.flatMap_assoc]
  | handler h =>
    cases h
    simp [suspension?, Handler.suspensions, Expr.allSuspensions_eq,
      Stmt.allSuspensions_eq, List.flatMap_map]

/-- The parts of a node are smaller. -/
theorem sizeOf_lt (h : m ∈ n.parts ++ n.outside) : sizeOf m < sizeOf n := by
  cases n with
  | expr e =>
    cases e <;> simp at h ⊢ <;> grind [→ List.sizeOf_lt_of_mem, Prod.mk.sizeOf_spec]
  | clause c =>
    cases c
    simp at h ⊢
    grind [→ List.sizeOf_lt_of_mem, Prod.mk.sizeOf_spec]
  | stmt s =>
    cases s <;> simp at h ⊢ <;> grind [→ List.sizeOf_lt_of_mem, Prod.mk.sizeOf_spec]
  | handler handler =>
    cases handler
    simp at h ⊢
    grind [→ List.sizeOf_lt_of_mem, Prod.mk.sizeOf_spec]

/-! ### Paths -/

section Meets

variable {next : Node → List Node} {P : Node → Prop} {f : Node → Prop}

/-- From the node a node with the property can be reached. -/
def Meets (next : Node → List Node) (P : Node → Prop) (n : Node) : Prop :=
  ∃ m, Relation.ReflTransGen (fun a b => b ∈ next a) n m ∧ P m

theorem Meets.head (hm : m ∈ next n) (h : Meets next P m) : Meets next P n := by
  obtain ⟨last, hpath, hlast⟩ := h
  exact ⟨last, hpath.head hm, hlast⟩

/-- What one step decides is decided by what can be reached. -/
theorem iff_meets (hsize : ∀ n, ∀ m ∈ next n, sizeOf m < sizeOf n)
    (hstep : ∀ n, f n ↔ P n ∨ ∃ m ∈ next n, f m) (n : Node) : f n ↔ Meets next P n := by
  constructor
  · induction h : sizeOf n using Nat.strongRecOn generalizing n with
    | _ size ih =>
      intro hf
      rcases (hstep n).mp hf with hp | ⟨m, hm, hf⟩
      · exact ⟨n, .refl, hp⟩
      · exact (ih _ (h ▸ hsize n m hm) m rfl hf).head hm
  · rintro ⟨last, hpath, hlast⟩
    induction hpath using Relation.ReflTransGen.head_induction_on with
    | refl => exact (hstep last).mpr (.inl hlast)
    | head hm _ ih => exact (hstep _).mpr (.inr ⟨_, hm, ih⟩)

/-- What the walk comes to is evaluated in the scope of the node that it starts from. -/
theorem evaluated_of_walked (h : Relation.ReflTransGen (fun a b => b ∈ walked a) n m) :
    Relation.ReflTransGen (fun a b => b ∈ evaluated a) n m := by
  induction h with
  | refl => exact .refl
  | tail _ hb ih =>
    rw [walked_eq] at hb
    refine ih.tail ?_
    rw [evaluated_eq]
    exact List.mem_append_left _ hb

theorem isDefinition_of_mem_outside (h : m ∈ n.outside) : n.isDefinition = true := by
  unfold outside at h
  split at h
  · rfl
  · rfl
  · rfl
  · cases h

/-- What is reached in the scope of a node is reached by the walk or from a part of a definition
that the walk comes to and goes past. -/
theorem meets_evaluated_iff (n : Node) : Meets evaluated P n ↔
    Meets walked P n ∨
      Meets walked (fun δ => δ.isDefinition = true ∧ ∃ m ∈ δ.outside, Meets evaluated P m) n := by
  constructor
  · rintro ⟨last, hpath, hlast⟩
    induction hpath using Relation.ReflTransGen.head_induction_on with
    | refl => exact .inl ⟨last, .refl, hlast⟩
    | @head a b hb hpath ih =>
      rw [evaluated_eq, List.mem_append] at hb
      rcases hb with hb | hb
      · rw [← walked_eq] at hb
        exact ih.imp (Meets.head hb) (Meets.head hb)
      · exact .inr ⟨a, .refl, isDefinition_of_mem_outside hb, b, hb, last, hpath, hlast⟩
  · rintro (⟨last, hpath, hlast⟩ | ⟨δ, hpath, -, m, hm, last, hrest, hlast⟩)
    · exact ⟨last, evaluated_of_walked hpath, hlast⟩
    · refine ⟨last, ((evaluated_of_walked hpath).tail ?_).trans hrest, hlast⟩
      rw [evaluated_eq]
      exact List.mem_append_right _ hm

end Meets

theorem suspends_iff_meets (n : Node) :
    n.suspends = true ↔ Meets walked (·.suspension?.isSome = true) n := by
  refine iff_meets (f := fun n => n.suspends = true) (fun n m hm => ?_) (fun n => ?_) n
  · rw [walked_eq] at hm
    exact sizeOf_lt (List.mem_append_left _ hm)
  · rw [suspends_eq, Bool.or_eq_true, List.any_eq_true, walked_eq]

theorem mem_suspensions_iff_meets (k : Suspension) (n : Node) :
    k ∈ n.suspensions ↔ Meets evaluated (·.suspension? = some k) n := by
  refine iff_meets (f := fun n => k ∈ n.suspensions) (fun n m hm => ?_) (fun n => ?_) n
  · rw [evaluated_eq] at hm
    exact sizeOf_lt hm
  · rw [suspensions_eq, List.mem_append, Option.mem_toList, List.mem_flatMap, evaluated_eq]

end Node

/-! ### Bodies -/

namespace Stmt

open Node

variable {P Q : Node → Prop} {body : List Stmt}

/-- The walk through a body meets a node with the property. -/
def Walks (body : List Stmt) (P : Node → Prop) : Prop := ∃ s ∈ body, Meets walked P (.stmt s)

/-- A node with the property is evaluated in the scope of the body. -/
def Evaluates (body : List Stmt) (P : Node → Prop) : Prop :=
  ∃ s ∈ body, Meets evaluated P (.stmt s)

/-- The walk through a body comes to a definition, and a node with the property is evaluated there,
outside the body of the definition. -/
def Passes (body : List Stmt) (P : Node → Prop) : Prop :=
  Walks body fun δ => δ.isDefinition = true ∧ ∃ m ∈ δ.outside, Meets evaluated P m

theorem Walks.imp (h : Walks body P) (hq : ∀ n, P n → Q n) : Walks body Q := by
  obtain ⟨s, hs, n, hpath, hn⟩ := h
  exact ⟨s, hs, n, hpath, hq n hn⟩

theorem Evaluates.imp (h : Evaluates body P) (hq : ∀ n, P n → Q n) : Evaluates body Q := by
  obtain ⟨s, hs, n, hpath, hn⟩ := h
  exact ⟨s, hs, n, hpath, hq n hn⟩

theorem anySuspends_iff_walks (body : List Stmt) :
    Stmt.anySuspends body = true ↔ Walks body (·.suspension?.isSome = true) := by
  rw [Stmt.anySuspends_eq, List.any_eq_true]
  exact exists_congr fun s => and_congr_right fun _ => suspends_iff_meets (.stmt s)

theorem mem_allSuspensions_iff_evaluates (k : Suspension) (body : List Stmt) :
    k ∈ Stmt.allSuspensions body ↔ Evaluates body (·.suspension? = some k) := by
  rw [Stmt.allSuspensions_eq, List.mem_flatMap]
  exact exists_congr fun s => and_congr_right fun _ => mem_suspensions_iff_meets k (.stmt s)

theorem evaluates_iff (body : List Stmt) (P : Node → Prop) :
    Evaluates body P ↔ Walks body P ∨ Passes body P := by
  simp only [Evaluates, Walks, Passes, meets_evaluated_iff (.stmt _), and_or_left, exists_or]

end Stmt

/-! ### Answers -/

variable {answer text : String}

/-- The handler is the first statement of its source, and the walk through its block has met no
suspension. -/
theorem exists_block (h : ofAnswer? answer = some text) : ∃ block others,
    statements? (source text.toList) = some (handlerOf block :: others) ∧
      Stmt.anySuspends block = false := by
  unfold ofAnswer? at h
  rw [Option.ite_none_left_eq_some, Option.some.injEq] at h
  obtain ⟨hgood, rfl⟩ := h
  rw [String.toList_ofList]
  simp only [Bool.or_eq_true, Bool.not_eq_true', not_or, Bool.not_eq_false] at hgood
  have husable := hgood.2
  unfold isUsable at husable
  split at husable
  · next statements hread =>
    obtain ⟨block, others, rfl⟩ := statements_source hread
    rw [Bool.and_eq_true, Bool.not_eq_true'] at husable
    exact ⟨block, others, hread, husable.2⟩
  · cases husable

/-- An answer with a default value that yields. -/
def yieldingAnswer : String := "f = lambda x=(yield): x\nreturn None"

/-- The block of the function that statements start with. -/
def firstBlock : List Stmt → List Stmt
  | .function _ _ _ _ _ block :: _ => block
  | _ => []

/-- The answer is accepted, and its handler yields. -/
theorem yieldingAnswer_yields : ofAnswer? yieldingAnswer = some yieldingAnswer ∧
    ∀ block others, statements? (source yieldingAnswer.toList) = some (handlerOf block :: others) →
      Stmt.Evaluates block (·.suspension? = some .yields) := by
  refine ⟨by decide +kernel, fun block others hread => ?_⟩
  have htest : (statements? (source yieldingAnswer.toList)).any (fun statements =>
      (Stmt.allSuspensions (firstBlock statements)).contains .yields) = true := by
    decide +kernel
  rw [hread, Option.any_some, List.contains_iff_mem] at htest
  exact (Stmt.mem_allSuspensions_iff_evaluates .yields block).mp htest

end RouteStubs.Body
