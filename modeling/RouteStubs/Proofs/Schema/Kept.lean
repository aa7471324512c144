import RouteStubs.Proofs.Resolver
import RouteStubs.Proofs.Schema.Steady
import RouteStubs.Proofs.Shape.Alike

/-!
# What stays when walks fail

A walk that fails leaves the definitions that it has finished. In these there may be handles to
references that were in progress, and what such a handle stands for is not defined then. So the
definitions that later walks go on from have handles of three kinds: to names that are defined, to
references that are being expanded, and to names that an earlier failure has left behind.

## Main definitions

* `Canon.namedBy f`: references are named by a function.
* `Shape.Handles P`: the names that handles in a shape stand for have a property.
* `Canon.Dangling`: a name that a definition has a handle to, and that is not defined.
* `Canon.Grown`: definitions are added, each for a reference of which the walk has ended.
* `Canon.Sustained`: what holds of the state at any time, if these names have been left behind.
* `Canon.Keeps`: a step leads on from such states.
* `Canon.Refers`: the outcomes of the rule of references.

## Main statements

* `Canon.Refers.of_run`: what the rule of references can do.
* `Canon.reference_keeps`: references lead on if the walk through their targets does.
-/

namespace RouteStubs

/-! ### Handles -/

namespace Shape

variable {P P' : String → Prop} {node : Shape} {name : String}

/-- The property holds of the names that handles in the shape stand for. -/
def Handles (P : String → Prop) (node : Shape) : Prop :=
  node.Throughout fun inner => ∀ name, inner = .handle name → P name

theorem Handles.imp (h : node.Handles P) (hP : ∀ name, P name → P' name) : node.Handles P' :=
  Throughout.imp h fun _ hi name heq => hP name (hi name heq)

theorem handles_handle (h : P name) : (handle name).Handles P := by
  refine throughout_of_isLeaf trivial ?_
  rintro _ ⟨⟩
  exact h

theorem handles_of_isLeaf (hl : node.IsLeaf) (hne : ∀ name, node ≠ .handle name) :
    node.Handles P :=
  throughout_of_isLeaf hl fun name heq => absurd heq (hne name)

theorem handles_orNull (h : node.Handles P) : node.orNull.Handles P :=
  throughout_orNull h nofun nofun fun _ _ _ _ => nofun

end Shape

namespace Canon

open Naming Shape

variable {f : String → String} {document : Value} {lost : String → Prop}
  {p p' p'' : Progress Unit} {definitions : Definitions} {name ref : String} {node : Shape}

/-- References are named by a function. -/
def namedBy (f : String → String) : Namer Unit := fun ref => pure (f ref)

/-- A definition has a handle to the name, and the name is not defined. -/
def Dangling (definitions : Definitions) (name : String) : Prop :=
  definitions.find? name = none ∧
    ∃ key node, definitions.find? key = some node ∧
      Relation.ReflTransGen Child (.handle name) node

/-- Definitions are added, each for a reference that leads somewhere: with the reference in progress
as the innermost one, the walk through what it leads to has ended with the shape, and with the
definitions that come before it. -/
inductive Grown (f : String → String) (document : Value) (before : Definitions) : Definitions → Prop
  | refl : Grown f document before before
  | add {definitions : Definitions} {ref : String} {found : Value} {node : Shape} {steps : Nat}
      {q q' : Progress Unit} (h : Grown f document before definitions)
      (new : definitions.find? (f ref) = none)
      (leads : Resolver.target document ref = .ok found)
      (recalls : q.resolver.Recalls document)
      (underway : q.resolver.chain.getLast? = some (.text ref))
      (later : before <+: q.definitions)
      (ends : (shape (namedBy f) steps (f ref) found).runFrom q = (.ok node, q'))
      (definitions_eq : q'.definitions = definitions) :
      Grown f document before (definitions ++ [(f ref, node)])

theorem Grown.isPrefix {before : Definitions} (h : Grown f document before definitions) :
    before <+: definitions := by
  induction h with
  | refl => exact List.prefix_refl _
  | add _ _ _ _ _ _ _ _ ih => exact ih.trans (List.prefix_append _ _)

theorem Grown.trans {before before' : Definitions} (h : Grown f document before before')
    (h' : Grown f document before' definitions) : Grown f document before definitions := by
  induction h' with
  | refl => exact h
  | add _ new leads recalls underway later ends heq ih =>
    exact .add ih new leads recalls underway (h.isPrefix.trans later) ends heq

/-! ### States -/

/-- The name is defined, or it is that of a reference on the chain. -/
def Held (f : String → String) (p : Progress Unit) (name : String) : Prop :=
  (p.definitions.find? name).isSome ∨ ∃ r, Value.text r ∈ p.resolver.chain ∧ f r = name

/-- The name is defined, it is that of a reference on the chain, or it has been left behind. -/
def Knows (f : String → String) (lost : String → Prop) (p : Progress Unit) (name : String) : Prop :=
  Held f p name ∨ lost name

/-- What is on the chain are references, and their names are not defined. -/
def Pending (f : String → String) (p : Progress Unit) : Prop :=
  ∀ v ∈ p.resolver.chain, ∃ r, v = .text r ∧ p.definitions.find? (f r) = none

/-- What holds of the state at any time, if these names have been left behind by earlier failures.
-/
structure Sustained (f : String → String) (document : Value) (lost : String → Prop)
    (p : Progress Unit) : Prop where
  recalls : p.resolver.Recalls document
  pending : Pending f p
  handles : ∀ name node, p.definitions.find? name = some node → node.Handles (Knows f lost p)

/-- The chain is as it was, and definitions are added. -/
structure Leads (f : String → String) (document : Value) (p p' : Progress Unit) : Prop where
  chain_eq : p'.resolver.chain = p.resolver.chain
  grown : Grown f document p.definitions p'.definitions

theorem Leads.refl (p : Progress Unit) : Leads f document p p := ⟨rfl, .refl⟩

theorem Leads.trans (h : Leads f document p p') (h' : Leads f document p' p'') :
    Leads f document p p'' :=
  ⟨h'.chain_eq.trans h.chain_eq, h.grown.trans h'.grown⟩

theorem Leads.isPrefix (h : Leads f document p p') : p.definitions <+: p'.definitions :=
  h.grown.isPrefix

theorem Held.leads (hl : Leads f document p p') (h : Held f p name) : Held f p' name := by
  rcases h with h | ⟨r, hr, hname⟩
  · exact .inl (isSome_find?_mono hl.isPrefix h)
  · exact .inr ⟨r, hl.chain_eq ▸ hr, hname⟩

theorem Knows.leads (hl : Leads f document p p') (h : Knows f lost p name) : Knows f lost p' name :=
  h.imp_left (Held.leads hl)

/-- What is no definition and not on the chain does not matter. -/
theorem Sustained.of_eq (h : Sustained f document lost p) (hd : p'.definitions = p.definitions)
    (hc : p'.resolver.chain = p.resolver.chain) (hr : p'.resolver.Recalls document) :
    Leads f document p p' ∧ Sustained f document lost p' := by
  have hl : Leads f document p p' := ⟨hc, hd ▸ .refl⟩
  refine ⟨hl, hr, fun v hv => ?_, fun name node hn => ?_⟩
  · rw [hd]
    exact h.pending v (hc ▸ hv)
  · rw [hd] at hn
    exact (h.handles name node hn).imp fun _ => Knows.leads hl

/-! ### Steps -/

variable (f document lost) in
/-- A step leads on from a state of this kind. If it has a result, this is so, and the state is of
this kind again. -/
def Keeps {α : Type} (p : Progress Unit) (step : Step (Progress Unit) α)
    (Q : α → Progress Unit → Prop) : Prop :=
  Sustained f document lost p →
    step.Ends p (fun a p' => Leads f document p p' ∧ Sustained f document lost p' ∧ Q a p')
      fun _ p' => Leads f document p p' ∧ Pending f p'

variable (f lost) in
/-- The handles in the shape that is found are known, and if it is itself a handle, its name is
defined or that of a reference on the chain. -/
def Found (node : Shape) (p : Progress Unit) : Prop :=
  node.Handles (Knows f lost p) ∧ ∀ name, node = .handle name → Held f p name

theorem found_of_isLeaf (hl : node.IsLeaf) (hne : ∀ name, node ≠ .handle name) :
    Found f lost node p :=
  ⟨handles_of_isLeaf hl hne, fun name heq => absurd heq (hne name)⟩

theorem found_handle (h : Held f p name) : Found f lost (.handle name) p := by
  refine ⟨handles_handle (.inl h), ?_⟩
  rintro _ ⟨⟩
  exact h

theorem Found.orNull (h : Found f lost node p) : Found f lost node.orNull p :=
  ⟨handles_orNull h.1, fun _ heq => absurd heq orNull_ne_handle⟩

/-! ### References -/

/-- The rule of references, with what is done where a reference is expanded. -/
def referenceBy (f : String → String)
    (expand : (ref : Value) → (target : String) → (found : Value) → Step (Progress Unit) Shape)
    (ref : Value) : Step (Progress Unit) Shape := do
  let resolved ← Progress.onResolver (Resolver.resolve ref)
  if ((← get).definitions.find? (f ref.display)).isSome || resolved.cyclic then
    return .handle (f ref.display)
  expand ref (f ref.display) resolved.node

/-- What is done where a reference is expanded. -/
def expand (deeper : Deeper Unit) (ref : Value) (target : String) (found : Value) :
    Step (Progress Unit) Shape := do
  let node ← Progress.visiting ref (deeper target found)
  modify (Progress.define target node)
  return .handle target

theorem reference_eq (deeper : Deeper Unit) (ref : Value) :
    reference (namedBy f) deeper ref = referenceBy f (expand deeper) ref := rfl

/-- The state after a reference has been looked up. -/
def looked (p : Progress Unit) (ref : Value) : Progress Unit :=
  ((Progress.onResolver (Resolver.resolve ref)).runFrom p).2

/-- A reference is on the chain. -/
theorem any_same_text (chain : List Value) (s : String) :
    (chain.any fun v => v.same (.text s)) = true ↔ Value.text s ∈ chain := by
  rw [List.any_eq_true]
  constructor
  · rintro ⟨v, hv, hsame⟩
    cases v with
    | scalar a =>
      rw [Value.same] at hsame
      rw [Scalar.eq_text_of_same hsame] at hv
      exact hv
    | _ => simp [Value.same] at hsame
  · exact fun h => ⟨_, h, by simp [Value.same, Scalar.same]⟩

/-- The reference is defined or in progress. -/
def Met (f : String → String) (p : Progress Unit) (ref : String) : Prop :=
  (p.definitions.find? (f ref)).isSome ∨ Value.text ref ∈ p.resolver.chain

/-- A reference is refused by the resolver, or it is a text that leads somewhere. -/
theorem answer_cases (document ref : Value) :
    (∃ fault, Resolver.answer document ref = .error fault) ∨
      ∃ s found, ref = .text s ∧ Resolver.target document s = .ok found := by
  cases hanswer : Resolver.answer document ref with
  | error fault => exact .inl ⟨fault, rfl⟩
  | ok found =>
    have htext : ∃ s, ref = .text s := by
      by_contra hno
      exact Resolver.answer_ne_ok (fun s heq => hno ⟨s, heq⟩) hanswer
    obtain ⟨s, rfl⟩ := htext
    exact .inr ⟨s, found, rfl, Resolver.answer_text document s ▸ hanswer⟩

/-- A reference that is refused leaves everything as it is. -/
theorem referenceBy_refused {expand : Value → String → Value → Step (Progress Unit) Shape}
    {ref : Value} {fault : Fault} (hr : p.resolver.Recalls document)
    (h : Resolver.answer document ref = .error fault) :
    (referenceBy f expand ref).runFrom p = (.error fault, p) := by
  have hends := Resolver.resolve_ends hr ref
  rw [h] at hends
  unfold Step.Ends at hends
  rw [referenceBy, Step.runFrom_bind, Progress.onResolver, Step.runFrom_within]
  split at hends
  · cases hends.1
  · next fault' r' hrun =>
    obtain ⟨heq, rfl⟩ := hends
    cases heq
    rw [hrun]

section Looked

variable {s : String} {found : Value}

/-- Only what the resolver has found changes when a reference is looked up. -/
theorem looked_eq (hr : p.resolver.Recalls document)
    (htarget : Resolver.target document s = .ok found) :
    (looked p (.text s)).resolver.chain = p.resolver.chain ∧
      (looked p (.text s)).resolver.Recalls document := by
  have hends := Resolver.resolve_ends hr (.text s)
  rw [Resolver.answer_text, htarget] at hends
  unfold Step.Ends at hends
  rw [looked, Progress.onResolver, Step.runFrom_within]
  split at hends
  · next resolved r' hrun =>
    rw [hrun]
    exact ⟨hends.2.2.1, hends.2.1⟩
  · cases hends.1

theorem met_looked (hr : p.resolver.Recalls document)
    (htarget : Resolver.target document s = .ok found) :
    Met f (looked p (.text s)) s ↔ Met f p s := by
  rw [Met, (looked_eq hr htarget).1]
  rfl

/-- A reference that is defined or in progress gives a handle, and any other one is expanded. -/
theorem referenceBy_run {expand : Value → String → Value → Step (Progress Unit) Shape}
    (hr : p.resolver.Recalls document) (htarget : Resolver.target document s = .ok found) :
    (Met f p s → (referenceBy f expand (.text s)).runFrom p =
        (.ok (.handle (f s)), looked p (.text s))) ∧
      (¬ Met f p s → (referenceBy f expand (.text s)).runFrom p =
        (expand (.text s) (f s) found).runFrom (looked p (.text s))) := by
  have hends := Resolver.resolve_ends hr (.text s)
  rw [Resolver.answer_text, htarget] at hends
  unfold Step.Ends at hends
  rw [referenceBy, Step.runFrom_bind, looked, Progress.onResolver, Step.runFrom_within]
  split at hends
  · next resolved r' hrun =>
    obtain ⟨hnode, -, -, hcyclic⟩ := hends
    cases hnode
    have hmet : ((p.definitions.find? (f s)).isSome || resolved.cyclic) = true ↔ Met f p s := by
      rw [hcyclic, Bool.or_eq_true, any_same_text, Met]
    rw [hrun]
    simp only [Step.runFrom_bind, Step.runFrom_get]
    exact ⟨fun h => congrArg (Step.runFrom · _) (if_pos (hmet.mpr h)),
      fun h => congrArg (Step.runFrom · _) (if_neg fun hm => h (hmet.mp hm))⟩
  · cases hends.1

theorem Sustained.looked (hk : Sustained f document lost p)
    (htarget : Resolver.target document s = .ok found) :
    Leads f document p (looked p (.text s)) ∧ Sustained f document lost (looked p (.text s)) :=
  hk.of_eq rfl (looked_eq hk.recalls htarget).1 (looked_eq hk.recalls htarget).2

end Looked

/-! ### References that are expanded -/

/-- The state in which the target of a reference is walked. -/
abbrev underway (p : Progress Unit) (s : String) : Progress Unit :=
  entered (looked p (.text s)) (looked p (.text s)).names s

/-- The state in which the innermost reference is given up. -/
abbrev givenUp (p : Progress Unit) : Progress Unit := { p with resolver := p.resolver.leave }

theorem expand_runFrom (deeper : Deeper Unit) (s target : String) (found : Value)
    (p : Progress Unit) :
    (expand deeper (.text s) target found).runFrom p =
      match (deeper target found).runFrom (entered p p.names s) with
      | (.ok node, q) => (.ok (.handle target), finished q target node)
      | (.error fault, q) => (.error fault, givenUp q) := by
  rw [expand, Progress.visiting, Step.runFrom_bind, Step.runFrom_between]
  obtain ⟨outcome, q⟩ := (deeper target found).runFrom (entered p p.names s)
  cases outcome <;> rfl

theorem Met.held {s : String} (h : Met f p s) : Held f p (f s) :=
  h.imp_right fun hm => ⟨s, hm, rfl⟩

theorem Sustained.enter {s : String} (h : Sustained f document lost p) (hm : ¬ Met f p s) :
    Sustained f document lost (entered p p.names s) where
  recalls := ⟨h.recalls.document_eq, h.recalls.found⟩
  pending := by
    intro v hv
    rcases List.mem_append.mp hv with hv | hv
    · exact h.pending v hv
    · exact ⟨s, List.mem_singleton.mp hv, Option.not_isSome_iff_eq_none.mp fun hs => hm (.inl hs)⟩
  handles := fun name node hn => (h.handles name node hn).imp fun _ hknown =>
    hknown.imp_left fun hheld => hheld.imp_right fun ⟨r, hr, heq⟩ =>
      ⟨r, List.mem_append_left _ hr, heq⟩

/-- A reference that is neither defined nor in progress is expanded. -/
theorem Sustained.underway {s : String} {found : Value} (hk : Sustained f document lost p)
    (htarget : Resolver.target document s = .ok found) (hm : ¬ Met f p s) :
    Sustained f document lost (underway p s) :=
  (hk.looked htarget).2.enter ((met_looked hk.recalls htarget).not.mpr hm)

section Leave

variable {chain : List Value} {s : String}

theorem Pending.leave (h : Pending f p) : Pending f { p with resolver := p.resolver.leave } :=
  fun v hv => h v (List.dropLast_subset _ hv)

theorem Pending.find?_eq_none (h : Pending f p) (hm : Value.text s ∈ p.resolver.chain) :
    p.definitions.find? (f s) = none := by
  obtain ⟨r, hr, hnone⟩ := h _ hm
  cases hr
  exact hnone

/-- A reference that is being expanded is not defined, whatever else is. -/
theorem Pending.find?_innermost (h : Pending f p')
    (hl : Leads f document (entered p p.names s) p') : p'.definitions.find? (f s) = none := by
  refine h.find?_eq_none ?_
  rw [hl.chain_eq]
  exact List.mem_concat_self

theorem find?_finished (hnone : p.definitions.find? name = none) (node : Shape) :
    (finished p name node).definitions.find? name = some node := by
  rw [definitions_finished hnone, Definitions.find?_concat_self hnone]

/-- The innermost reference is given up. -/
theorem chain_leave (hc : p.resolver.chain = chain ++ [.text s]) :
    p.resolver.leave.chain = chain := by
  rw [Resolver.leave, hc, List.dropLast_concat]

/-- The innermost reference is finished. -/
theorem Sustained.finish (hf : Function.Injective f) (h : Sustained f document lost p)
    (hc : p.resolver.chain = chain ++ [.text s]) (hnew : Value.text s ∉ chain)
    (hnode : node.Handles (Knows f lost p)) : Sustained f document lost (finished p (f s) node) := by
  have hnone : p.definitions.find? (f s) = none := h.pending.find?_eq_none (by simp [hc])
  have hd := definitions_finished hnone node
  have hleft : (finished p (f s) node).resolver.chain = chain := chain_leave hc
  -- what is taken off the chain is defined instead
  have hknows : ∀ name, Knows f lost p name → Knows f lost (finished p (f s) node) name := by
    rintro name ((hs | ⟨r, hr, hname⟩) | hlost)
    · exact .inl (.inl (isSome_find?_mono (hd ▸ List.prefix_append _ _) hs))
    · rw [hc] at hr
      rcases List.mem_append.mp hr with hr | hr
      · exact .inl (.inr ⟨r, hleft ▸ hr, hname⟩)
      · obtain rfl : r = s := by simpa using hr
        rw [← hname]
        exact .inl (.inl (Option.isSome_of_eq_some (find?_finished hnone node)))
    · exact .inr hlost
  refine ⟨⟨h.recalls.document_eq, h.recalls.found⟩, fun v hv => ?_, fun name other hn => ?_⟩
  · rw [hleft] at hv
    obtain ⟨r, rfl, hr⟩ := h.pending v (by simp [hc, hv])
    have hne : f r ≠ f s := fun heq => hnew (hf heq ▸ hv)
    exact ⟨r, rfl, by rw [hd, Definitions.find?_concat_of_ne hne, hr]⟩
  · by_cases hname : name = f s
    · rw [hname, find?_finished hnone] at hn
      exact (Option.some.inj hn ▸ hnode).imp hknows
    · rw [hd, Definitions.find?_concat_of_ne hname] at hn
      exact (h.handles name other hn).imp hknows

/-- A reference that is finished adds its definition. -/
theorem Sustained.prefix_finished (h : Sustained f document lost p')
    (hl : Leads f document (entered p p.names s) p') :
    p'.definitions <+: (finished p' (f s) node).definitions := by
  rw [definitions_finished (h.pending.find?_innermost hl)]
  exact List.prefix_append _ _

end Leave

variable (f document lost) in
/-- Walks through the schemas inside lead on, and what they find is known. -/
def KeepsAll (deeper : Deeper Unit) : Prop :=
  ∀ context v p, Keeps f document lost p (deeper context v) (Found f lost)

variable (f document) in
/-- What the rule of references can do, with the outcome and the state after it. -/
inductive Refers (deeper : Deeper Unit) (p : Progress Unit) :
    Value → Except Fault Shape → Progress Unit → Prop
  /-- The reference leads nowhere. -/
  | refused {ref : Value} {fault : Fault} (h : Resolver.answer document ref = .error fault) :
      Refers deeper p ref (.error fault) p
  /-- The reference is defined or in progress. -/
  | met {s : String} {found : Value} (leads : Resolver.target document s = .ok found)
      (met : Met f p s) : Refers deeper p (.text s) (.ok (.handle (f s))) (looked p (.text s))
  /-- The target has a shape, and the reference is defined. -/
  | done {s : String} {found : Value} {node : Shape} {q : Progress Unit}
      (leads : Resolver.target document s = .ok found) (new : ¬ Met f p s)
      (run : (deeper (f s) found).runFrom (underway p s) = (.ok node, q)) :
      Refers deeper p (.text s) (.ok (.handle (f s))) (finished q (f s) node)
  /-- The target is refused, and the reference is given up. -/
  | failed {s : String} {found : Value} {fault : Fault} {q : Progress Unit}
      (leads : Resolver.target document s = .ok found) (new : ¬ Met f p s)
      (run : (deeper (f s) found).runFrom (underway p s) = (.error fault, q)) :
      Refers deeper p (.text s) (.error fault) (givenUp q)

theorem Refers.of_run {deeper : Deeper Unit} {ref : Value} {outcome : Except Fault Shape}
    (hr : p.resolver.Recalls document)
    (h : (reference (namedBy f) deeper ref).runFrom p = (outcome, p')) :
    Refers f document deeper p ref outcome p' := by
  rw [reference_eq] at h
  rcases answer_cases document ref with ⟨fault, hrefused⟩ | ⟨s, found, rfl, htarget⟩
  · rw [referenceBy_refused hr hrefused] at h
    cases h
    exact .refused hrefused
  by_cases hm : Met f p s
  · rw [(referenceBy_run hr htarget).1 hm] at h
    cases h
    exact .met htarget hm
  · rw [(referenceBy_run hr htarget).2 hm, expand_runFrom] at h
    split at h
    · next hrun =>
      cases h
      exact .done htarget hm hrun
    · next hrun =>
      cases h
      exact .failed htarget hm hrun

/-- The target of a reference is walked while the reference is on the chain. If that fails, then the
reference is taken off the chain and is not defined. -/
theorem reference_keeps (hf : Function.Injective f) {steps : Nat}
    (hd : KeepsAll f document lost (shape (namedBy f) steps)) (ref : Value) :
    Keeps f document lost p (reference (namedBy f) (shape (namedBy f) steps) ref)
      (Found f lost) := by
  intro hk
  refine (Step.ends_self _ _).imp ?_ ?_
  · intro handle p' hrun
    cases Refers.of_run hk.recalls hrun with
    | met htarget hm =>
      obtain ⟨hl, hk'⟩ := hk.looked htarget
      exact ⟨hl, hk', found_handle (hm.held.leads hl)⟩
    | @done s found node q htarget hm hinner =>
      have hunder := hk.underway htarget hm
      obtain ⟨hl, hq, hnode, -⟩ := (hd _ _ _ hunder).of_ok hinner
      have hnone := hq.pending.find?_innermost hl
      have hlast : (underway p s).resolver.chain.getLast? = some (.text s) := List.getLast?_concat
      have hgrown : Grown f document p.definitions (q.definitions ++ [(f s, node)]) :=
        .add hl.grown hnone htarget hunder.recalls hlast (List.prefix_refl _) hinner rfl
      have hleft : Leads f document (looked p (.text s)) (finished q (f s) node) :=
        ⟨chain_leave hl.chain_eq, definitions_finished hnone node ▸ hgrown⟩
      refine ⟨(hk.looked htarget).1.trans hleft, hq.finish hf hl.chain_eq ?_ hnode,
        found_handle (.inl (Option.isSome_of_eq_some (find?_finished hnone node)))⟩
      rw [(looked_eq hk.recalls htarget).1]
      exact fun h => hm (.inr h)
  · intro fault p' hrun
    cases Refers.of_run hk.recalls hrun with
    | refused => exact ⟨.refl p, hk.pending⟩
    | failed htarget hm hinner =>
      obtain ⟨hl, hq⟩ := (hd _ _ _ (hk.underway htarget hm)).of_error hinner
      exact ⟨(hk.looked htarget).1.trans ⟨chain_leave hl.chain_eq, hl.grown⟩, hq.leave⟩

end Canon

end RouteStubs
