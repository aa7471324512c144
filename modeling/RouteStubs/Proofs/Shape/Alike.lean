import RouteStubs.Proofs.Schema.Definitions
import RouteStubs.Proofs.Shape

/-!
# Shapes that are alike

A schema that is met again is read again, and by then more may have been found. The one thing that
this changes are discriminators, which a union cannot have before its variants are finished. It does
not stop there, because the discriminators of two alternatives may be all that they differ in: then
they are two variants in one reading, and one that is dropped as a repetition in the other.

## Main definitions

* `Shape.Alike`: the shapes differ in nothing else.
* `Shape.Joins`: the shape is what a list of alternatives comes to.

## Main statements

* `Shape.alike_of_joins`: alternatives that are alike come to shapes that are alike.
* `Shape.Alike.dereference`: handles to the same keys lead to records that are alike.
* `Shape.alike_mergeFields`, `Shape.alike_requireFields`: fields that are alike are merged alike.
-/

namespace RouteStubs

namespace Shape

variable (key : String → Option String)

mutual

/-- The shapes differ in the discriminators of unions only, and in how often alternatives are listed
that differ in these only. A handle counts as the key of its target. -/
inductive Alike : Shape → Shape → Prop
  | primitive {kind : Kind} {format : Value} : Alike (.primitive kind format) (.primitive kind format)
  | record {fields more : List (Field Shape)} {trailer tail : Option Shape} {description : String}
      {source : Option Source} (hf : AlikeFields fields more) (ht : AlikeTrailer trailer tail) :
      Alike (.record fields trailer description source) (.record more tail description source)
  | array {element other : Shape} (h : Alike element other) : Alike (.array element) (.array other)
  | enum {values : List Scalar} : Alike (.enum values) (.enum values)
  | handle {target other k : String} (h : key target = some k) (h' : key other = some k) :
      Alike (.handle target) (.handle other)
  | unknown : Alike .unknown .unknown
  | union {nodes others : List Shape} {d e : Option String} (h : AlikeNodes nodes others) :
      Alike (.union (distinct nodes) d) (.union (distinct others) e)
  | more {nodes others : List Shape} {only : Shape} {d : Option String} (h : AlikeNodes nodes others)
      (ho : distinct others = [only]) : Alike (.union (distinct nodes) d) only
  | fewer {nodes others : List Shape} {only : Shape} {d : Option String}
      (h : AlikeNodes nodes others) (hn : distinct nodes = [only]) :
      Alike only (.union (distinct others) d)
  | orNull {plain plain' node other : Shape} (h : Alike plain plain') (hn : node = plain.orNull)
      (ho : other = plain'.orNull) : Alike node other

/-- The fields differ in their shapes only, and these are alike. -/
inductive AlikeFields : List (Field Shape) → List (Field Shape) → Prop
  | nil : AlikeFields [] []
  | cons {name description : String} {node other : Shape} {required : Bool}
      {fields more : List (Field Shape)} (h : Alike node other) (rest : AlikeFields fields more) :
      AlikeFields (⟨name, node, required, description⟩ :: fields)
        (⟨name, other, required, description⟩ :: more)

/-- The trailers are alike. -/
inductive AlikeTrailer : Option Shape → Option Shape → Prop
  | none : AlikeTrailer none none
  | some {node other : Shape} (h : Alike node other) : AlikeTrailer (some node) (some other)

/-- The shapes of the two lists are alike, item by item. -/
inductive AlikeNodes : List Shape → List Shape → Prop
  | nil : AlikeNodes [] []
  | cons {node other : Shape} {nodes others : List Shape} (h : Alike node other)
      (rest : AlikeNodes nodes others) : AlikeNodes (node :: nodes) (other :: others)

end

variable {key} {node other found found' : Shape} {nodes others : List Shape}
  {fields more fields' more' merged merged' : List (Field Shape)} {trailer tail : Option Shape}

/-! ### Alternatives -/

/-- The shape is the only one of a list, repetitions aside, or else a union of them. -/
def Joins (nodes : List Shape) (node : Shape) : Prop :=
  distinct nodes = [node] ∨ ∃ discriminator, node = .union (distinct nodes) discriminator

/-- The first shape of a list is kept. -/
theorem distinct_cons (first : Shape) (rest : List Shape) :
    ∃ kept, distinct (first :: rest) = first :: kept := by
  have hkeep : ∀ rest kept, ∃ more, keepNew same (first :: kept) rest = first :: more := by
    intro rest
    induction rest with
    | nil => exact fun kept => ⟨kept, rfl⟩
    | cons next rest ih =>
      intro kept
      rw [keepNew_cons]
      split
      · exact ih kept
      · exact ih (kept ++ [next])
  exact hkeep rest []

/-- What alternatives come to that are alike is alike. -/
theorem alike_of_joins (h : AlikeNodes key nodes others) (hn : Joins nodes node)
    (ho : Joins others other) (hne : nodes ≠ []) : Alike key node other := by
  rcases hn with hn | ⟨d, rfl⟩ <;> rcases ho with ho | ⟨e, rfl⟩
  · -- the only shape is the first one
    cases h with
    | nil => exact absurd rfl hne
    | @cons first first' rest rest' head _ =>
      obtain ⟨kept, hk⟩ := distinct_cons first rest
      obtain ⟨kept', hk'⟩ := distinct_cons first' rest'
      rw [hn] at hk
      rw [ho] at hk'
      cases hk
      cases hk'
      exact head
  · exact .fewer h hn
  · exact .more h ho
  · exact .union h

/-! ### Handles and records -/

theorem orNull_ne_record {description : String} {source : Option Source} :
    node.orNull ≠ .record fields trailer description source := by
  rcases orNull_cases node with h | ⟨_, _, h⟩ | ⟨_, h⟩ <;> simp [h]

theorem orNull_ne_array {element : Shape} : node.orNull ≠ .array element := by
  rcases orNull_cases node with h | ⟨_, _, h⟩ | ⟨_, h⟩ <;> simp [h]

theorem orNull_ne_handle {target : String} : node.orNull ≠ .handle target := fun h =>
  not_isDirect_orNull node (h ▸ trivial)

/-- Records that are alike are so part by part. -/
theorem Alike.of_record {description description' : String} {source source' : Option Source}
    (h : Alike key (.record fields trailer description source)
      (.record more tail description' source')) :
    AlikeFields key fields more ∧ AlikeTrailer key trailer tail := by
  cases h with
  | record hf ht => exact ⟨hf, ht⟩
  | orNull _ hn _ => exact absurd hn.symm orNull_ne_record

/-- What is alike to a record, and leads to one, is that record. -/
theorem Alike.to_record {description description' : String} {source source' : Option Source}
    {find : String → Option Shape} {steps : Nat}
    (h : Alike key (.record fields trailer description source) other)
    (ho : Definitions.followIn find steps other = some (.record more tail description' source')) :
    Alike key (.record fields trailer description source)
      (.record more tail description' source') := by
  rcases Definitions.eq_or_of_followIn ho with rfl | ⟨_, _, _, rfl, -⟩
  · exact h
  · cases h with
    | orNull _ hn _ => exact absurd hn.symm orNull_ne_record

/-- What is alike to a handle is a handle to the same key, or else several alternatives. -/
theorem Alike.of_handle {target : String} (h : Alike key (.handle target) other) :
    (∃ target' k, other = .handle target' ∧ key target = some k ∧ key target' = some k) ∨
      ∃ variants discriminator, other = .union variants discriminator := by
  cases h with
  | handle hk hk' => exact .inl ⟨_, _, rfl, hk, hk'⟩
  | fewer _ _ => exact .inr ⟨_, _, rfl⟩
  | orNull _ hn _ => exact absurd hn.symm orNull_ne_handle

/-- Handles that are alike lead to records that are alike, if what the same key is defined as is. -/
theorem Alike.dereference {definitions definitions' : Definitions} {description description' : String}
    {source source' : Option Source}
    (hd : ∀ name name' k node node', key name = some k → key name' = some k →
      definitions.find? name = some node → definitions'.find? name' = some node' →
        Alike key node node')
    (h : Alike key node other)
    (hn : definitions.dereference node = some (.record fields trailer description source))
    (ho : definitions'.dereference other = some (.record more tail description' source')) :
    AlikeFields key fields more ∧ AlikeTrailer key trailer tail := by
  -- the handles are followed on both sides at once
  have hfollow : ∀ (steps steps' : Nat) (node other : Shape), Alike key node other →
      Definitions.followIn definitions.find? steps node =
        some (.record fields trailer description source) →
      Definitions.followIn definitions'.find? steps' other =
        some (.record more tail description' source') →
      Alike key (.record fields trailer description source)
        (.record more tail description' source') := by
    intro steps
    induction steps with
    | zero =>
      intro steps' node other h hn ho
      rcases Definitions.eq_or_of_followIn hn with rfl | ⟨_, _, _, _, hzero, _⟩
      · exact h.to_record ho
      · cases hzero
    | succ steps ih =>
      intro steps' node other h hn ho
      rcases Definitions.eq_or_of_followIn hn with rfl | ⟨target, next, _, rfl, hsteps, hnext, hf⟩
      · exact h.to_record ho
      · cases hsteps
        rcases h.of_handle with ⟨target', k, rfl, hk, hk'⟩ | ⟨_, _, rfl⟩
        · rcases Definitions.eq_or_of_followIn ho with heq | ⟨_, next', steps'', heq, -, hnext', hf'⟩
          · cases heq
          · cases heq
            exact ih steps'' next next' (hd _ _ k _ _ hk hk' hnext hnext') hf hf'
        · rcases Definitions.eq_or_of_followIn ho with heq | ⟨_, _, _, heq, -⟩ <;> cases heq
  exact (hfollow _ _ _ _ h hn ho).of_record

/-! ### Fields -/

/-- The fields differ in their shapes only, and these are alike. -/
def AlikeField (key : String → Option String) (f g : Field Shape) : Prop :=
  f.name = g.name ∧ f.required = g.required ∧ f.description = g.description ∧
    Alike key f.node g.node

theorem alikeFields_iff :
    AlikeFields key fields more ↔ List.Forall₂ (AlikeField key) fields more := by
  constructor
  · intro h
    induction fields generalizing more with
    | nil =>
      cases h
      exact .nil
    | cons f fields ih =>
      cases h with
      | cons h rest => exact .cons ⟨rfl, rfl, rfl, h⟩ (ih rest)
  · intro h
    induction h with
    | nil => exact .nil
    | @cons f g _ _ head _ ih =>
      obtain ⟨_, _, _, _⟩ := f
      obtain ⟨_, _, _, _⟩ := g
      obtain ⟨rfl, rfl, rfl, h⟩ := head
      exact .cons h ih

/-- Among fields that are alike the same names are found. -/
theorem field?_isSome_of_forall₂ (h : List.Forall₂ (AlikeField key) fields more) (name : String) :
    (field? fields name).isSome = (field? more name).isSome := by
  induction h with
  | nil => rfl
  | @cons f g _ _ head _ ih =>
    unfold field? at ih ⊢
    rw [List.find?_cons, List.find?_cons, head.1]
    split
    · rfl
    · exact ih

/-- Fields that are alike stay so when some are made required, on both sides by their names. -/
theorem forall₂_map_required {change change' : Field Shape → Field Shape}
    (h : List.Forall₂ (AlikeField key) fields more)
    (hc : ∀ f g, AlikeField key f g → AlikeField key (change f) (change' g)) :
    List.Forall₂ (AlikeField key) (fields.map change) (more.map change') := by
  rw [List.forall₂_map_left_iff, List.forall₂_map_right_iff]
  exact h.imp hc

theorem alike_mergeFields {context context' : String} (h : AlikeFields key fields more)
    (h' : AlikeFields key fields' more')
    (hm : Canon.mergeFields context fields fields' = .ok merged)
    (hm' : Canon.mergeFields context' more more' = .ok merged') : AlikeFields key merged merged' := by
  rw [alikeFields_iff] at *
  induction h' generalizing fields more with
  | nil =>
    cases hm
    cases hm'
    exact h
  | @cons f g fields' more' head _ ih =>
    rw [Canon.mergeFields] at hm hm'
    have hsome := field?_isSome_of_forall₂ h f.name
    rw [← head.1] at hm'
    cases hf : field? fields f.name with
    | none =>
      cases hg : field? more f.name with
      | none =>
        simp only [hf, hg] at hm hm'
        exact ih (List.rel_append h (.cons head .nil)) hm hm'
      | some _ => simp [hf, hg] at hsome
    | some _ =>
      cases hg : field? more f.name with
      | none => simp [hf, hg] at hsome
      | some _ =>
        simp only [hf, hg] at hm hm'
        split at hm
        · split at hm'
          · refine ih (forall₂_map_required h fun a b hab => ?_) hm hm'
            rw [hab.1, head.2.1]
            split
            · exact ⟨rfl, by rw [hab.2.1], hab.2.2⟩
            · exact hab
          · cases hm'
        · cases hm

theorem alike_requireFields {names : List Value} (h : AlikeFields key fields more)
    (hm : Canon.requireFields fields names = .ok merged)
    (hm' : Canon.requireFields more names = .ok merged') : AlikeFields key merged merged' := by
  rw [alikeFields_iff] at *
  unfold Canon.requireFields at hm hm'
  split at hm
  · next hkeys =>
    rw [if_pos hkeys] at hm'
    cases hm
    cases hm'
    refine forall₂_map_required h fun f g hfg => ?_
    rw [hfg.1]
    split
    · exact ⟨rfl, rfl, hfg.2.2⟩
    · exact hfg
  · cases hm

end Shape

end RouteStubs
