import RouteStubs.Proofs.Schema.Definitions

/-!
# What tells variants apart

The discriminator of a union depends on the records that its variants lead to, and on the values that
the fields of these records always have. As long as one of the variants leads to no record there is
none, whatever the schema says.

## Main statements

* `Shape.discriminator?_eq_none`: a variant that leads to no record.
* `Shape.discriminator?_congr`: other definitions in which all records and values are the same.
* `Shape.discriminator?_eq_none_of_eq_none`: what is made explicit does not decide whether there is
  one.
-/

namespace RouteStubs

variable {α β : Type} {definitions definitions' : Definitions} {variants : List Shape} {node : Shape}
  {fields : List (Field Shape)}

/-! ### Lists of results -/

theorem mapM_eq_none {f : α → Option β} {as : List α} {a : α} (ha : a ∈ as) (h : f a = none) :
    as.mapM f = none := by
  induction as with
  | nil => cases ha
  | cons b rest ih =>
    rw [List.mapM_cons]
    rcases List.mem_cons.mp ha with rfl | ha
    · rw [h]
      rfl
    · rw [ih ha]
      cases f b <;> rfl

theorem mapM_congr {f g : α → Option β} {as : List α} (h : ∀ a ∈ as, f a = g a) :
    as.mapM f = as.mapM g := by
  induction as with
  | nil => rfl
  | cons b rest ih =>
    rw [List.mapM_cons, List.mapM_cons, h b List.mem_cons_self,
      ih fun a ha => h a (List.mem_cons_of_mem _ ha)]

/-- There are results for a list if there is one for the first item and there are some for the rest. -/
theorem mapM_cons_eq_some {f : α → Option β} {a : α} {rest : List α} {bs : List β}
    (h : (a :: rest).mapM f = some bs) :
    ∃ first others, f a = some first ∧ rest.mapM f = some others ∧ bs = first :: others := by
  rw [List.mapM_cons] at h
  cases hf : f a with
  | none => rw [hf] at h; cases h
  | some first =>
    cases hr : rest.mapM f with
    | none => rw [hf, hr] at h; cases h
    | some others =>
      rw [hf, hr] at h
      cases h
      exact ⟨first, others, rfl, rfl, rfl⟩

theorem exists_of_mem_mapM {f : α → Option β} {as : List α} {bs : List β} {b : β}
    (h : as.mapM f = some bs) (hb : b ∈ bs) : ∃ a ∈ as, f a = some b := by
  induction as generalizing bs with
  | nil =>
    cases h
    cases hb
  | cons a rest ih =>
    obtain ⟨first, others, hfirst, hothers, rfl⟩ := mapM_cons_eq_some h
    rcases List.mem_cons.mp hb with rfl | hb
    · exact ⟨a, List.mem_cons_self, hfirst⟩
    · obtain ⟨a', ha', hf'⟩ := ih hothers hb
      exact ⟨a', List.mem_cons_of_mem _ ha', hf'⟩

/-! ### Records and values -/

namespace Definitions

theorem fields?_eq_some (h : definitions.fields? node = some fields) :
    ∃ trailer description source,
      definitions.dereference node = some (.record fields trailer description source) := by
  unfold fields? at h
  split at h
  · next trailer description source hrecord =>
    cases h
    exact ⟨trailer, description, source, hrecord⟩
  · cases h

/-- What leads to a record leads to the same one by more definitions. -/
theorem fields?_eq_of_isSome (hd : definitions <+: definitions')
    (h : (definitions.dereference node).isSome) :
    definitions'.fields? node = definitions.fields? node := by
  obtain ⟨found, hfound⟩ := Option.isSome_iff_exists.mp h
  rw [fields?, fields?, hfound, dereference_mono hd hfound]

/-- A value that a shape always has stays by more definitions, and one that it gets is that of an
enumeration to which it leads only by them. -/
theorem singleValue?_eq (hd : definitions <+: definitions')
    (h : definitions.dereference node = none →
      ∀ values, definitions'.dereference node ≠ some (.enum values)) :
    definitions'.singleValue? node = definitions.singleValue? node := by
  cases hfound : definitions.dereference node with
  | some found => rw [singleValue?, singleValue?, hfound, dereference_mono hd hfound]
  | none =>
    rw [singleValue?, singleValue?, hfound]
    split
    · next v hv => exact absurd hv (h hfound [v])
    · rfl

/-- What tells records apart depends on the values of their fields only. -/
theorem tells_congr {name : String} {records : List (List (Field Shape))}
    (h : ∀ fields ∈ records, ∀ f ∈ fields,
      definitions'.singleValue? f.node = definitions.singleValue? f.node) :
    definitions'.tells name records = definitions.tells name records := by
  have htag : ∀ fields ∈ records, definitions'.tag? name fields = definitions.tag? name fields := by
    intro fields hfields
    unfold tag?
    cases hf : Shape.field? fields name with
    | none => rfl
    | some f => exact h fields hfields f (List.mem_of_find?_eq_some hf)
  rw [tells, tells, mapM_congr htag]

end Definitions

namespace Shape

open Definitions

theorem discriminator?_eq_none {v : Shape} (hv : v ∈ variants) (h : definitions.fields? v = none)
    (explicit : Value) : discriminator? definitions variants explicit = none := by
  unfold discriminator?
  rw [mapM_eq_none hv h]

theorem discriminator?_congr
    (hrecords : ∀ v ∈ variants, definitions'.fields? v = definitions.fields? v)
    (hvalues : ∀ v ∈ variants, ∀ fields, definitions.fields? v = some fields → ∀ f ∈ fields,
      definitions'.singleValue? f.node = definitions.singleValue? f.node) (explicit : Value) :
    discriminator? definitions' variants explicit = discriminator? definitions variants explicit := by
  unfold discriminator?
  rw [mapM_congr hrecords]
  split
  · rfl
  · rfl
  · next first others hfound =>
    have htells : ∀ name, definitions'.tells name (first :: others) =
        definitions.tells name (first :: others) := fun name =>
      tells_congr fun fields hfields => by
        obtain ⟨v, hv, hrecord⟩ := exists_of_mem_mapM hfound hfields
        exact hvalues v hv fields hrecord
    simp only [htells]

/-- If there is a discriminator, then all variants lead somewhere. -/
theorem isSome_dereference {explicit : Value}
    (h : (discriminator? definitions variants explicit).isSome) {v : Shape} (hv : v ∈ variants) :
    (definitions.dereference v).isSome := by
  by_contra hno
  rw [Option.not_isSome_iff_eq_none] at hno
  have hfields : definitions.fields? v = none := by rw [fields?, hno]
  rw [discriminator?_eq_none hv hfields] at h
  cases h

theorem mem_of_tag? {name : String} {fields : List (Field Shape)} {tag : Scalar}
    (h : definitions.tag? name fields = some tag) : name ∈ fields.map (·.name) := by
  obtain ⟨f, hf, -⟩ := Option.bind_eq_some_iff.mp h
  obtain rfl : f.name = name := by simpa using List.find?_some hf
  exact List.mem_map_of_mem (List.mem_of_find?_eq_some hf)

/-- A field that tells records apart is one of the first of them. -/
theorem mem_of_tells {name : String} {first : List (Field Shape)} {others : List (List (Field Shape))}
    (h : definitions.tells name (first :: others) = true) : name ∈ first.map (·.name) := by
  cases htag : definitions.tag? name first with
  | none =>
    rw [tells, mapM_eq_none List.mem_cons_self htag] at h
    cases h
  | some tag => exact mem_of_tag? htag

/-- If there is no discriminator, then none is one that is made explicit. -/
theorem discriminator?_eq_none_of_eq_none {explicit : Value}
    (h : discriminator? definitions variants explicit = none) (explicit' : Value) :
    discriminator? definitions variants explicit' = none := by
  unfold discriminator? at *
  split at h
  · rfl
  · rfl
  · next first others _ =>
    simp only [List.find?_eq_none, List.mem_append, Bool.not_eq_true] at h ⊢
    intro name _
    by_contra htells
    rw [Bool.not_eq_false] at htells
    exact absurd htells (by simpa using h name (.inr (mem_of_tells htells)))

/-- With null among the variants there is no discriminator. -/
theorem discriminator?_nullShape (definitions : Definitions) (variants : List Shape)
    (explicit : Value) : discriminator? definitions (variants ++ [nullShape]) explicit = none := by
  refine discriminator?_eq_none (List.mem_append_right _ (List.mem_singleton_self nullShape)) ?_
    explicit
  rw [fields?, dereference_eq_self fun _ he => by cases he]

end Shape

end RouteStubs
