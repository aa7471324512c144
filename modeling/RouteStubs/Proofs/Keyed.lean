import RouteStubs.Keyed

/-!
# Lists that grow at their end

A value that is set under a new name goes to the end. What stands in a list that has grown by one is
what was added, or it stood in the list before. Where each name is set no more than once, a value is
found under the name that it was set under.

## Main statements

* `Keyed.put_eq_append`: a new name goes to the end.
* `Keyed.lookup_filterMap`: what is found under names that are all different.
* `Keyed.split_concat`: where something stands in a list that has grown by one.
-/

namespace RouteStubs.Keyed

theorem put_eq_append {α : Type} {pairs : List (String × α)} {name : String}
    (h : pairs.lookup name = none) (v : α) : put pairs name v = pairs ++ [(name, v)] := by
  induction pairs with
  | nil => rfl
  | cons p rest ih =>
    obtain ⟨n, old⟩ := p
    rw [List.lookup_cons] at h
    by_cases hn : name = n
    · simp [hn] at h
    · have hn' : n ≠ name := Ne.symm hn
      simp only [beq_eq_false_iff_ne.mpr hn] at h
      simp [put, hn', ih h]

/-- What comes out of items with different names is found under the name of its item. -/
theorem lookup_filterMap {α β : Type} {items : List β} {name : β → String} (value : β → Option α)
    (h : (items.map name).Nodup) {item : β} (hm : item ∈ items) :
    (items.filterMap fun b => (value b).map (name b, ·)).lookup (name item) = value item := by
  induction items with
  | nil => cases hm
  | cons first rest ih =>
    rw [List.map_cons, List.nodup_cons] at h
    obtain ⟨hnew, hrest⟩ := h
    rcases List.mem_cons.mp hm with rfl | hm
    · cases hv : value item with
      | some v => simp [hv]
      | none =>
        -- the names of the others are different
        simp only [List.filterMap_cons, hv, Option.map_none, List.lookup_eq_none_iff,
          List.mem_filterMap, Option.map_eq_some_iff]
        rintro p ⟨other, hother, v, -, rfl⟩
        simpa using fun he : name item = name other => hnew (he ▸ List.mem_map_of_mem hother)
    · have hne : name item ≠ name first := fun he => hnew (he ▸ List.mem_map_of_mem hm)
      cases hv : value first with
      | none => simpa [hv] using ih hrest hm
      | some v => simpa [hv, List.lookup_cons, beq_eq_false_iff_ne.mpr hne] using ih hrest hm

/-- What comes out of items with different names has different names. -/
theorem nodup_keys_filterMap {α β : Type} {items : List β} {name : β → String} (value : β → Option α)
    (h : (items.map name).Nodup) :
    ((items.filterMap fun b => (value b).map (name b, ·)).map Prod.fst).Nodup := by
  have hsub : ((items.filterMap fun b => (value b).map (name b, ·)).map Prod.fst).Sublist
      (items.map name) := by
    clear h
    induction items with
    | nil => exact .slnil
    | cons first rest ih =>
      cases hv : value first with
      | none => simpa [hv] using ih.cons (name first)
      | some v => simpa [hv] using ih.cons_cons (name first)
  exact h.sublist hsub

theorem split_concat {α : Type} {l before after : List α} {a b : α}
    (h : l ++ [a] = before ++ b :: after) :
    (before = l ∧ b = a) ∨ ∃ after', l = before ++ b :: after' := by
  rcases List.eq_nil_or_concat after with rfl | ⟨after', last, rfl⟩
  · obtain ⟨rfl, he⟩ := List.append_inj' h rfl
    cases he
    exact .inl ⟨rfl, rfl⟩
  · rw [List.concat_eq_append, ← List.cons_append, ← List.append_assoc] at h
    exact .inr ⟨after', (List.append_inj' h rfl).1⟩

end RouteStubs.Keyed
