import RouteStubs.Proofs.Schema.Admitted
import RouteStubs.Proofs.Schema.Course

/-!
# The shape of a schema never narrows it

A walk through a document is a series of walks through schemas, and in between names may be given for
other reasons. Whatever has been walked before, the shape of a schema admits every value that
satisfies the schema, with two exceptions. An enumeration with a scalar keeps only scalars, and a
composition without a member that has a shape is the record without fields.

Variants of a union that are the same are one variant, and a truth value is the same as the number
one or zero. So shapes tell truth values from numbers only if no two enumerations list a truth value
and its number.

## Main definitions

* `Naming.Reached`: the states of walks through a document.
* `Scalar.Separate`: no truth value is among scalars together with its number.

## Main statements

* `Naming.Reached.admits_of_satisfies`: the shape of a schema admits what satisfies the schema.
-/

namespace RouteStubs

/-- No scalar that is the same as a truth value is a number. -/
def Scalar.Separate (scalars : List Scalar) : Prop :=
  ∀ a ∈ scalars, ∀ b ∈ scalars, a.same b = true → a.isBool = b.isBool

instance (scalars : List Scalar) : Decidable (Scalar.Separate scalars) :=
  inferInstanceAs (Decidable (∀ a ∈ scalars, ∀ b ∈ scalars, a.same b = true → a.isBool = b.isBool))

namespace Naming

open Canon

variable {ν : Type} {namer : Namer ν} {N : Naming namer} {document schema v : Value}
  {p p' : Progress ν} {context name ref : String} {node : Shape}

variable (N document) in
/-- The state is reached from the start by walks through schemas; names may be given in between. -/
inductive Reached : Progress ν → Prop
  | start {names : ν} (valid : N.Valid names) : Reached (Progress.start names document)
  | named {p : Progress ν} {names : ν} (h : Reached p) (later : N.Later p.names names) :
      Reached { p with names := names }
  | walked {p p' : Progress ν} {context : String} {schema : Value} {node : Shape} (h : Reached p)
      (hs : (shapeOf namer context schema).runFrom p = (.ok node, p')) : Reached p'

/-! ### Between walks -/

theorem Reached.between (h : N.Reached document p) :
    N.Walked document p ∧ p.resolver.chain = [] := by
  induction h with
  | start valid => exact ⟨walked_start valid, rfl⟩
  | named _ later ih =>
    obtain ⟨hw, hc⟩ := ih
    exact ⟨hw.of_extends ⟨later, rfl, rfl, List.prefix_refl _⟩ rfl hw.recalls, hc⟩
  | walked _ hs ih =>
    obtain ⟨he, hw, -⟩ := (shapeOf_ends ih.1 ih.2 _ _).of_ok hs
    exact ⟨hw, he.chain_eq.trans ih.2⟩

/-- Whatever has been walked before, the shape of a schema admits each value that satisfies the
schema, except for what is not kept of enumerations and of compositions. Truth values are told from
numbers if no enumerations list a truth value and its number. -/
theorem Reached.admits_of_satisfies (h : N.Reached document p)
    (hs : (shapeOf namer context schema).runFrom p = (.ok node, p'))
    (hv : Satisfies Kept document schema v) :
    Definitions.Admits Scalar.counted p'.definitions node v ∧
      (Scalar.Separate (document.enumerated ++ schema.enumerated) →
        Definitions.Admits Scalar.datum p'.definitions node v) := by
  obtain ⟨reach, hv⟩ := hv
  obtain ⟨hw, hc⟩ := h.between
  obtain ⟨he, hw', depth, hr⟩ := (shapeOf_ends hw hc _ _).of_ok hs
  have hc' := he.chain_eq.trans hc
  have hadmits : ∀ key : Scalar → Datum, (∀ a b, a.datum = b.datum → key a = key b) →
      (∀ a ∈ document.enumerated ++ schema.enumerated,
        ∀ b ∈ document.enumerated ++ schema.enumerated, a.same b = true → key a = key b) →
      Definitions.Admits key p'.definitions node v := fun key hk hsame =>
    hr.admits hk hsame (fun _ _ => hw'.exists_read hc')
      (fun name node hn s hm => List.mem_append_left _ (hw'.within name node hn s hm))
      (List.subset_append_left _ _) (List.subset_append_right _ _) hv
  refine ⟨hadmits _ (fun _ _ => Scalar.counted_eq_of_datum) fun _ _ _ _ =>
    Scalar.counted_eq_of_same, fun hsep => ?_⟩
  exact hadmits _ (fun _ _ => id) fun a ha b hb hab =>
    Scalar.datum_eq_of_same hab (hsep a ha b hb hab)

/-! ### A record with a name -/

/-- Records with a name. -/
def petSchema : Value :=
  .mapping 4 [(.text "type", .text "object"),
    (.text "properties", .mapping 5 [(.text "name", .mapping 6 [(.text "type", .text "string")])]),
    (.text "required", .list [.text "name"])]

/-- A document with a component. -/
def petDocument : Value :=
  .mapping 1 [(.text "components", .mapping 2 [(.text "schemas",
    .mapping 3 [(.text "Pet", petSchema)])])]

/-- What the component describes, or one text. -/
def petOrNone : Value :=
  .mapping 7 [(.text "oneOf", .list [.mapping 8 [(.text "$ref", .text "#/components/schemas/Pet")],
    .mapping 9 [(.text "const", .text "none")]])]

/-- A record with a name. -/
def tom : Value := .mapping 0 [(.text "name", .text "Tom")]

theorem hasType_string {v : Value} (h : Kind.string.admits v = true) : HasType "string" v := by
  refine ⟨fun _ => h, ?_, ?_, ?_, ?_, ?_, ?_⟩ <;> simp

theorem hasType_object {v : Value} (h : v.isMapping = true) : HasType "object" v := by
  refine ⟨?_, ?_, ?_, ?_, ?_, ?_, fun _ => h⟩ <;> simp

theorem tom_satisfies_petSchema : SatisfiesWithin Kept petDocument 2 petSchema tom := by
  refine .inr ⟨⟨⟨?_, ?_, ?_⟩, ?_, ?_, ?_, ?_, ?_, ?_, ?type, ?_⟩, ⟨?_, ?_⟩⟩
  case type => exact hasType_object rfl
  all_goals simp [Entries.text?, Entries.find?, Scalar.same, HasRequired, tom, Scalar.display,
    Value.HasEntry, Value.isMapping]
  refine .inr ⟨⟨⟨?_, ?_, ?_⟩, ?_, ?_, ?_, ?_, ?_, ?_, ?type, ?_⟩, ⟨?_, ?_⟩⟩
  case type => exact hasType_string rfl
  all_goals simp [Entries.text?, Entries.find?, Scalar.same, HasRequired]

theorem tom_satisfies : Satisfies Kept petDocument petOrNone tom := by
  refine ⟨4, .inr ⟨⟨⟨?_, ?_, ?_⟩, ?_, ?_, ?one, ?_, ?_, ?_, ?_, ?_⟩, ⟨?_, ?_⟩⟩⟩
  case one =>
    rintro _ ⟨⟩
    refine ⟨_, List.mem_cons_self,
      .inr ⟨⟨⟨?_, ?_, ?_⟩, ?reference, ?_, ?_, ?_, ?_, ?_, ?_, ?_⟩, ⟨?_, ?_⟩⟩⟩
    case reference =>
      rintro _ ⟨⟩
      exact ⟨_, petSchema, rfl, rfl, tom_satisfies_petSchema⟩
    all_goals simp [Entries.text?, Entries.find?, Scalar.same, HasRequired, TypesHold,
      HasImpliedType, Entries.hasText]
  all_goals simp [Entries.text?, Entries.find?, Scalar.same, HasRequired, TypesHold,
    HasImpliedType, Entries.hasText]

/-- The shape of a union with a reference admits a record that the reference describes. -/
theorem admits_tom : ∃ node p, (shapeOf Registry.nameFor "<inline>" petOrNone).runFrom
      (Progress.start ⟨[], [], []⟩ petDocument) = (.ok node, p) ∧
    Satisfies Kept petDocument petOrNone tom ∧
      Definitions.Admits Scalar.datum p.definitions node tom := by
  obtain ⟨node, p, hs⟩ := Step.exists_of_isOk
    (show ((shapeOf Registry.nameFor "<inline>" petOrNone).runFrom
      (Progress.start ⟨[], [], []⟩ petDocument)).1.isOk = true by decide +kernel)
  have hstart : Registry.naming.Reached petDocument (Progress.start ⟨[], [], []⟩ petDocument) :=
    .start (Registry.sound_start [])
  exact ⟨node, p, hs, tom_satisfies, (hstart.admits_of_satisfies hs tom_satisfies).2 (by decide)⟩

/-! ### What is not kept -/

/-- An enumeration of a text and a mapping. -/
def mixedEnumeration : Value :=
  .mapping 1 [(.text "enum", .list [.text "x", .mapping 2 [(.text "a", .scalar (.int 1))]])]

/-- Texts, with a composition that only describes them. -/
def describedText : Value :=
  .mapping 1 [(.text "type", .text "string"),
    (.text "allOf", .list [.mapping 2 [(.text "description", .text "d")]])]

theorem satisfies_mixedEnumeration {document : Value} :
    Satisfies (fun _ _ => True) document mixedEnumeration
      (.mapping 0 [(.text "a", .scalar (.int 1))]) := by
  refine ⟨1, .inr ⟨⟨⟨?_, ?_, ?_⟩, ?_, ?_, ?_, ?_, ?enum, ?_, ?_, ?_⟩, trivial⟩⟩
  case enum =>
    rintro _ ⟨⟩
    exact ⟨_, List.mem_cons_of_mem _ List.mem_cons_self, rfl,
      ⟨_, List.mem_cons_self, rfl⟩, trivial⟩
  all_goals simp [Entries.text?, Entries.find?, Scalar.same, HasRequired, TypesHold,
    HasImpliedType, Entries.hasText]

theorem satisfies_describedText {document : Value} :
    Satisfies (fun _ _ => True) document describedText (.text "s") := by
  refine ⟨2, .inr ⟨⟨⟨?_, ?_, ?_⟩, ?_, ?all, ?_, ?_, ?_, ?_, ?type, ?_⟩, trivial⟩⟩
  case all =>
    rintro _ ⟨⟩ member hm
    obtain rfl := List.mem_singleton.mp hm
    refine .inr ⟨⟨⟨?_, ?_, ?_⟩, ?_, ?_, ?_, ?_, ?_, ?_, ?_, ?_⟩, trivial⟩
    all_goals simp [Entries.text?, Entries.find?, Scalar.same, HasRequired, TypesHold,
      HasImpliedType, Entries.hasText]
  case type => exact hasType_string rfl
  all_goals simp [Entries.text?, Entries.find?, Scalar.same, HasRequired]

/-- A mapping that an enumeration lists beside a scalar satisfies it and is not admitted, and neither
is a text that satisfies its type and a composition without a member that has a shape. -/
theorem not_admits_of_satisfies :
    (∃ node p, (shapeOf Registry.nameFor "<inline>" mixedEnumeration).runFrom
        (Progress.start ⟨[], [], []⟩ (.mapping 0 [])) = (.ok node, p) ∧
      Satisfies (fun _ _ => True) (.mapping 0 []) mixedEnumeration
        (.mapping 0 [(.text "a", .scalar (.int 1))]) ∧
      ¬ Definitions.Admits Scalar.datum p.definitions node
        (.mapping 0 [(.text "a", .scalar (.int 1))])) ∧
    ∃ node p, (shapeOf Registry.nameFor "<inline>" describedText).runFrom
        (Progress.start ⟨[], [], []⟩ (.mapping 0 [])) = (.ok node, p) ∧
      Satisfies (fun _ _ => True) (.mapping 0 []) describedText (.text "s") ∧
      ¬ Definitions.Admits Scalar.datum p.definitions node (.text "s") := by
  have henum : ((shapeOf Registry.nameFor "<inline>" mixedEnumeration).runFrom
      (Progress.start ⟨[], [], []⟩ (.mapping 0 []))).1 = .ok (.enum [.text "x"]) := rfl
  have htext : ((shapeOf Registry.nameFor "<inline>" describedText).runFrom
      (Progress.start ⟨[], [], []⟩ (.mapping 0 []))).1 =
        .ok (.record [] none "" (some ⟨1, []⟩)) := rfl
  refine ⟨⟨_, _, Prod.ext henum rfl, satisfies_mixedEnumeration, fun h => ?_⟩,
    ⟨_, _, Prod.ext htext rfl, satisfies_describedText, fun h => ?_⟩⟩
  · cases h
  · have hmapping : Value.isMapping (.text "s") = true := (Definitions.admits_record_iff.mp h).1
    cases hmapping

end Naming

end RouteStubs
