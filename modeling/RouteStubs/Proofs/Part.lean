import RouteStubs.Reference.Resolver

/-!
# Parts of values

A part of a value is the value itself or a part of one of its items or entries. References lead to
parts of the document.

## Main definitions

* `Value.Part`: a value is a part of another.
* `Value.TakenFrom`: a value is a part of the document, or it has no parts.

## Main statements

* `Resolver.part_of_target`: the target of a reference is a part of the document.
* `Value.Part.references`: the references of a part are references of the whole.
-/

namespace RouteStubs

/-- Only a text is the same as a text. -/
theorem Scalar.eq_text_of_same {a : Scalar} {s : String} (h : a.same (.text s) = true) :
    a = .text s := by
  cases a with
  | text t => rw [eq_of_beq (show (t == s) = true from h)]
  | _ => simp [same, asInt?] at h

namespace Value

/-- The value is a part of the other one. -/
inductive Part (v : Value) : Value → Prop
  | refl : Part v v
  | item {w : Value} {items : List Value} (h : Part v w) (hm : w ∈ items) : Part v (.list items)
  | entry {w : Value} {key : Scalar} {origin : Nat} {entries : Entries} (h : Part v w)
      (hm : (key, w) ∈ entries) : Part v (.mapping origin entries)

variable {u v w : Value} {entries : Entries} {origin : Nat} {name : String}

theorem Part.trans (h : Part u v) (h' : Part v w) : Part u w := by
  induction h' with
  | refl => exact h
  | item _ hm ih => exact ih.item hm
  | entry _ hm ih => exact ih.entry hm

/-- What stands at a text key is in the entry with this key. -/
theorem mem_of_text? (h : entries.text? name = some v) : (.text name, v) ∈ entries := by
  simp only [Entries.text?, Entries.find?, Option.map_eq_some_iff] at h
  obtain ⟨⟨key, w⟩, hf, rfl⟩ := h
  obtain rfl : key = .text name := Scalar.eq_text_of_same (by simpa using List.find?_some hf)
  exact List.mem_of_find?_eq_some hf

theorem part_of_text? (h : entries.text? name = some v) : Part v (.mapping origin entries) :=
  Part.refl.entry (mem_of_text? h)

/-! ### Values from a document -/

/-- The value is a part of the document, or a scalar. Null stands for what is not given. -/
def TakenFrom (v document : Value) : Prop := (∃ s, v = .scalar s) ∨ Part v document

section TakenFrom

variable {document : Value}

theorem takenFrom_scalar (s : Scalar) : (scalar s).TakenFrom document := .inl ⟨s, rfl⟩

theorem Part.takenFrom (h : Part v document) : v.TakenFrom document := .inr h

theorem TakenFrom.part (h : (mapping origin entries).TakenFrom document) :
    Part (.mapping origin entries) document := h.resolve_left nofun

theorem TakenFrom.item {items : List Value} (h : (list items).TakenFrom document) (hv : v ∈ items) :
    v.TakenFrom document :=
  ((Part.refl.item hv).trans (h.resolve_left nofun)).takenFrom

theorem TakenFrom.entry {key : Scalar} (h : (mapping origin entries).TakenFrom document)
    (hv : (key, v) ∈ entries) : v.TakenFrom document :=
  ((Part.refl.entry hv).trans h.part).takenFrom

theorem TakenFrom.text? (h : (mapping origin entries).TakenFrom document)
    (hv : entries.text? name = some v) : v.TakenFrom document :=
  ((part_of_text? hv).trans h.part).takenFrom

/-- The value at a key, or null. -/
theorem TakenFrom.getD (h : (mapping origin entries).TakenFrom document) (name : String) :
    ((entries.text? name).getD .null).TakenFrom document := by
  cases hv : entries.text? name with
  | none => exact takenFrom_scalar .null
  | some v => exact h.text? hv

end TakenFrom

/-! ### References -/

theorem references_of_item {items : List Value} (h : v ∈ items) :
    v.references ⊆ referencesOfItems items := by
  induction items with
  | nil => cases h
  | cons first rest ih =>
    rw [referencesOfItems]
    rcases List.mem_cons.mp h with rfl | h
    · exact List.subset_append_left _ _
    · exact List.subset_append_of_subset_right _ (ih h)

theorem references_of_entry {key : Scalar} (h : (key, v) ∈ entries) :
    v.references ⊆ referencesOfEntries entries := by
  induction entries with
  | nil => cases h
  | cons first rest ih =>
    obtain ⟨k, w⟩ := first
    change v.references ⊆ _ ++ w.references ++ referencesOfEntries rest
    rcases List.mem_cons.mp h with heq | h
    · cases heq
      exact List.subset_append_of_subset_left _ (List.subset_append_right _ _)
    · exact List.subset_append_of_subset_right _ (ih h)

/-- The references of a part are references of the whole. -/
theorem Part.references (h : Part v w) : v.references ⊆ w.references := by
  induction h with
  | refl => exact List.Subset.refl _
  | item _ hm ih =>
    rw [Value.references]
    exact List.Subset.trans ih (references_of_item hm)
  | entry _ hm ih =>
    rw [Value.references]
    exact List.Subset.trans ih (references_of_entry hm)

/-- What a mapping refers to is one of its references. -/
theorem mem_references_of_member? {ref : String} (h : v.member? "$ref" = some (.text ref)) :
    ref ∈ v.references := by
  cases v with
  | mapping origin entries =>
    rw [Value.references]
    -- it only matters that the entry is there, and not that it is the first
    have hm := mem_of_text? h
    clear h
    induction entries with
    | nil => cases hm
    | cons first rest ih =>
      obtain ⟨k, w⟩ := first
      change ref ∈ _ ++ w.references ++ referencesOfEntries rest
      rcases List.mem_cons.mp hm with heq | hm
      · cases heq
        simp
      · exact List.mem_append_right _ (ih hm)
  | _ => cases h

end Value

namespace Resolver

open Value

variable {ref : String} {v found : Value}

theorem mem_of_item? {items : List Value} {index : Int} (h : item? items index = some v) :
    v ∈ items := by
  unfold item? at h
  split at h
  · exact List.mem_of_getElem? h
  · split at h
    · exact List.mem_of_getElem? h
    · cases h

theorem part_of_descend {segment : String} (h : descend ref segment v = .ok found) :
    Part found v := by
  unfold descend at h
  split at h
  · split at h
    · next hf =>
      cases h
      exact part_of_text? hf
    · cases h
  · -- an index may count from the end of the list
    split at h
    · next hi =>
      cases h
      obtain ⟨index, -, hi⟩ := Option.bind_eq_some_iff.mp hi
      exact Part.refl.item (mem_of_item? hi)
    · cases h
  · cases h

theorem part_of_walk {segments : List String} (h : walk ref segments v = .ok found) :
    Part found v := by
  induction segments generalizing v with
  | nil =>
    cases h
    exact .refl
  | cons segment rest ih =>
    rw [walk] at h
    cases hd : descend ref segment v with
    | error fault => rw [hd] at h; cases h
    | ok next =>
      rw [hd] at h
      exact (ih h).trans (part_of_descend hd)

/-- The target of a reference is the mapping that its segments lead to. -/
theorem target_eq_ok {document : Value} : target document ref = .ok found ↔
    ∃ segments, Pointer.segments ref = .ok segments ∧ walk ref segments document = .ok found ∧
      found.isMapping = true := by
  unfold target
  cases hs : Pointer.segments ref with
  | error fault => exact ⟨nofun, fun ⟨_, h, _⟩ => nomatch h⟩
  | ok segments =>
    simp only [bind, Except.bind, Except.ok.injEq, exists_eq_left']
    cases walk ref segments document with
    | error fault => exact ⟨nofun, fun h => nomatch h.1⟩
    | ok v =>
      constructor
      · intro h
        dsimp only at h
        split at h
        · next hv =>
          cases h
          exact ⟨rfl, hv⟩
        · cases h
      · rintro ⟨hv, hm⟩
        cases hv
        exact if_pos hm

/-- The target of a reference is a part of the document, and a mapping. -/
theorem part_of_target {document : Value} (h : target document ref = .ok found) :
    Part found document ∧ found.isMapping = true := by
  obtain ⟨segments, -, hwalk, hv⟩ := target_eq_ok.mp h
  exact ⟨part_of_walk hwalk, hv⟩

end Resolver

end RouteStubs
