import RouteStubs.Proofs.Admits
import RouteStubs.Proofs.Schema.Throughout

/-!
# Scalars in enumerations

The scalars in the enumerations of a shape are listed by enumerations of the schema that it was read
from, or of the document if the schema refers to it.

## Main definitions

* `Value.enumerated`: the scalars that enumerations inside a value list.
* `Shape.Within`: the enumerations inside a shape have no other scalars.

## Main statements

* `Canon.enumerated_parts`: the schemas inside a schema list nothing else.
* `Canon.Reads.within`, `Naming.Walked.within`: what is in the shape that a schema reads as, and in
  definitions.
-/

namespace RouteStubs

/-! ### Scalars in values -/

namespace Value

/-- The scalars that the enumeration of a mapping lists. -/
def listedIn (entries : Entries) : List Scalar :=
  (match entries.text? "enum" with
    | some (.list values) => Canon.scalarsOf values
    | _ => []) ++
  (match entries.text? "const" with
    | some (.scalar s) => [s]
    | _ => [])

mutual

/-- The scalars that the enumerations inside a value list. -/
def enumerated : Value → List Scalar
  | .scalar _ => []
  | .list items => enumeratedItems items
  | .mapping _ entries => listedIn entries ++ enumeratedEntries entries

/-- The scalars that the enumerations inside the items of a list list. -/
def enumeratedItems : List Value → List Scalar
  | [] => []
  | v :: rest => enumerated v ++ enumeratedItems rest

/-- The scalars that the enumerations inside the entries of a mapping list. -/
def enumeratedEntries : List (Scalar × Value) → List Scalar
  | [] => []
  | (_, v) :: rest => enumerated v ++ enumeratedEntries rest

end

variable {v : Value} {items : List Value} {entries : Entries} {key : Scalar} {origin : Nat}

theorem enumerated_of_item (h : v ∈ items) : v.enumerated ⊆ enumeratedItems items := by
  induction items with
  | nil => cases h
  | cons first rest ih =>
    rw [enumeratedItems]
    rcases List.mem_cons.mp h with rfl | h
    · exact List.subset_append_left _ _
    · exact List.subset_append_of_subset_right _ (ih h)

theorem enumerated_of_entry (h : (key, v) ∈ entries) :
    v.enumerated ⊆ enumeratedEntries entries := by
  induction entries with
  | nil => cases h
  | cons first rest ih =>
    rw [enumeratedEntries]
    rcases List.mem_cons.mp h with rfl | h
    · exact List.subset_append_left _ _
    · exact List.subset_append_of_subset_right _ (ih h)

/-- What the enumerations of a part list, those of the whole list. -/
theorem Part.enumerated {w : Value} (h : Part v w) : v.enumerated ⊆ w.enumerated := by
  induction h with
  | refl => exact List.Subset.refl _
  | item _ hm ih =>
    rw [Value.enumerated]
    exact List.Subset.trans ih (enumerated_of_item hm)
  | entry _ hm ih =>
    rw [Value.enumerated]
    exact List.Subset.trans ih
      (List.subset_append_of_subset_right _ (enumerated_of_entry hm))

end Value

/-- What the schemas inside a schema list, the schema lists. -/
theorem Canon.enumerated_parts {v schema : Value} (h : v ∈ Canon.parts schema) :
    v.enumerated ⊆ schema.enumerated := by
  rcases Canon.part_of_mem_parts h with rfl | hp
  · exact List.nil_subset _
  · exact hp.enumerated

/-! ### Scalars in shapes -/

/-- The enumerations inside the shape have no other scalars. -/
def Shape.Within (scalars : List Scalar) (node : Shape) : Prop := ∀ s, node.Mentions s → s ∈ scalars

namespace Canon

open Shape

variable {points : String → String → Prop} {definitions : Definitions}
  {sub : Value → Shape → Prop} {node : Shape} {scalars : List Scalar} {entries : Entries}

/-- If the shape is an enumeration, then it has no other scalars. -/
def Lists (scalars : List Scalar) (node : Shape) : Prop :=
  ∀ values, node = .enum values → values ⊆ scalars

theorem exists_of_mentions {s : Scalar} (h : node.Mentions s) :
    ∃ values, Relation.ReflTransGen Child (.enum values) node ∧ s ∈ values := by
  induction h with
  | enum hm => exact ⟨_, .refl, hm⟩
  | array _ ih =>
    obtain ⟨values, hp, hm⟩ := ih
    exact ⟨values, hp.tail .element, hm⟩
  | union hv _ ih =>
    obtain ⟨values, hp, hm⟩ := ih
    exact ⟨values, hp.tail (.variant hv), hm⟩
  | field hf _ ih =>
    obtain ⟨values, hp, hm⟩ := ih
    exact ⟨values, hp.tail (.field hf), hm⟩
  | trailer _ ih =>
    obtain ⟨values, hp, hm⟩ := ih
    exact ⟨values, hp.tail .further, hm⟩

theorem mentions_of_part {s : Scalar} {inner : Shape} (hp : Relation.ReflTransGen Child inner node)
    (h : inner.Mentions s) : node.Mentions s := by
  induction hp with
  | refl => exact h
  | tail _ hc ih =>
    cases hc with
    | field hf => exact .field hf ih
    | further => exact .trailer ih
    | element => exact .array ih
    | variant hv => exact .union hv ih

/-- The scalars inside a shape are those of the enumerations inside it. -/
theorem within_iff : node.Within scalars ↔ node.Throughout (Lists scalars) := by
  constructor
  · rintro h _ hp values rfl s hs
    exact h s (mentions_of_part hp (.enum hs))
  · intro h s hm
    obtain ⟨values, hp, hs⟩ := exists_of_mentions hm
    exact h _ hp values rfl hs

theorem lists_of_isBasic (scalars : List Scalar) (node : Shape) (h : node.IsBasic) :
    Lists scalars node := by
  rintro values rfl
  cases h

theorem lists_union (scalars : List Scalar) (variants : List Shape)
    (discriminator : Option String) : Lists scalars (.union variants discriminator) := nofun

theorem ReadsEachType.within {source : Source} {index : Nat} {types : List Value}
    {nodes : List Shape}
    (hs : ∀ v ∈ typesParts entries types, ∀ node, sub v node → node.Within scalars)
    (h : ReadsEachType sub entries source index types nodes) : ∀ node ∈ nodes, node.Within scalars := by
  intro node hn
  rw [within_iff]
  refine ReadsEachType.throughout (lists_of_isBasic scalars) ?_ (fun _ _ => lists_union scalars _ _) rfl
    (fun v hv node hr => within_iff.mp (hs v hv node hr)) h node hn
  rintro _ _ ⟨⟩
  exact nofun

theorem lists_enumeration {origin : Nat} {listed : Value}
    (hr : ruleOf entries = .values listed) :
    Lists (Value.mapping origin entries).enumerated (enumeration listed) := by
  intro values he s hs
  have hkey := key_of_ruleOf entries
  rw [hr] at hkey
  unfold enumeration at he
  split at he
  · next items =>
    split at he
    · cases he
    · cases he
      -- what is kept is listed by the enumeration, or it is the constant
      have hs : s ∈ scalarsOf items := mem_of_mem_keepNew_nil hs
      refine List.mem_append_left _ (List.mem_append.mpr ?_)
      rcases hkey with he | ⟨w, hw, hl⟩
      · simp only [he]
        exact .inl hs
      · cases hl
        cases w with
        | scalar t =>
          obtain rfl : s = t := by simpa [scalarsOf] using hs
          simp only [hw]
          exact .inr (List.mem_singleton_self _)
        | _ => simp [scalarsOf] at hs
  · cases he

theorem ruleClosed_lists (tie : Tie) (points : String → String → Prop) (definitions : Definitions)
    (sub : Value → Shape → Prop) (scalars : List Scalar) :
    RuleClosed tie points definitions sub (fun v => v.enumerated ⊆ scalars) (Lists scalars) where
  basic := lists_of_isBasic scalars
  record _ _ := nofun
  union _ _ := lists_union scalars _ _
  untold _ := lists_union scalars _ _
  orNull _ := lists_union scalars _ _
  values hs hr values he := List.Subset.trans (lists_enumeration hr values he) hs
  handle _ := nofun
  parts hs _ hv := List.Subset.trans (enumerated_parts hv) hs

/-- The scalars in the shape that a schema reads as are listed by the schema, or else by the
definitions. -/
theorem Reads.within {depth : Nat} {schema : Value}
    (hd : ∀ name node, definitions.find? name = some node → node.Within scalars)
    (hs : schema.enumerated ⊆ scalars) (h : Reads points definitions depth schema node) :
    node.Within scalars :=
  within_iff.mpr (h.throughout (fun _ => ruleClosed_lists _ _ _ _ scalars)
    (fun name node hn => within_iff.mp (hd name node hn)) hs)

end Canon

/-- The scalars in the definitions are listed by the document. -/
theorem Naming.Walked.within {ν : Type} {namer : Namer ν} {N : Naming namer} {document : Value}
    {p : Progress ν} (hw : N.Walked document p) :
    ∀ name node, p.definitions.find? name = some node → node.Within document.enumerated := by
  intro name node hn
  exact Canon.within_iff.mpr (hw.throughout (fun _ => Canon.ruleClosed_lists _ _ _ _ _)
    (fun ht => (Resolver.part_of_target ht).1.enumerated) name node hn)

end RouteStubs
