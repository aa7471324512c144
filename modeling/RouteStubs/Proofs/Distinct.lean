import Mathlib.Data.List.Forall2
import Mathlib.Data.List.Nodup

/-!
# Lists without repetitions

Shapes and scalars are dropped from lists when the same is there already, where what is the same is
not always equal.

## Main definitions

* `keepNew`: what is kept of a list.

## Main statements

* `mem_of_mem_keepNew`, `exists_mem_keepNew`: what is kept, and what stands for what is dropped.
* `nodup_keepNew`: what is kept is kept once.
* `exists_mem_of_forall₂`: items that are related to those of another list.
-/

namespace RouteStubs

/-- Each item of a list is related to one of the items that the list is related to. -/
theorem exists_mem_of_forall₂ {α β : Type} {related : α → β → Prop} {as : List α} {bs : List β}
    {a : α} (h : List.Forall₂ related as bs) (hm : a ∈ as) : ∃ b ∈ bs, related a b := by
  induction h with
  | nil => cases hm
  | cons head _ ih =>
    rcases List.mem_cons.mp hm with rfl | hm
    · exact ⟨_, List.mem_cons_self, head⟩
    · obtain ⟨node, hn, hr⟩ := ih hm
      exact ⟨node, List.mem_cons_of_mem _ hn, hr⟩

section KeepNew

variable {α : Type} {same : α → α → Bool} {a : α} {items kept : List α}

/-- The items kept so far, and those of a list that are not the same as one of them. -/
def keepNew (same : α → α → Bool) (kept items : List α) : List α :=
  items.foldl (fun kept a => if kept.any (same a) then kept else kept ++ [a]) kept

theorem keepNew_cons (kept : List α) (first : α) (rest : List α) :
    keepNew same kept (first :: rest) =
      keepNew same (if kept.any (same first) then kept else kept ++ [first]) rest := rfl

theorem mem_keepNew_of_mem (h : a ∈ kept) : a ∈ keepNew same kept items := by
  induction items generalizing kept with
  | nil => exact h
  | cons first rest ih =>
    rw [keepNew_cons]
    refine ih ?_
    split
    · exact h
    · exact List.mem_append_left _ h

theorem mem_of_mem_keepNew (h : a ∈ keepNew same kept items) : a ∈ kept ∨ a ∈ items := by
  induction items generalizing kept with
  | nil => exact .inl h
  | cons first rest ih =>
    rw [keepNew_cons] at h
    rcases ih h with hk | hr
    · split at hk
      · exact .inl hk
      · rw [List.mem_append, List.mem_singleton] at hk
        rcases hk with hk | rfl
        · exact .inl hk
        · exact .inr List.mem_cons_self
    · exact .inr (List.mem_cons_of_mem _ hr)

/-- What is kept of a list was in it. -/
theorem mem_of_mem_keepNew_nil (h : a ∈ keepNew same [] items) : a ∈ items :=
  (mem_of_mem_keepNew h).resolve_left List.not_mem_nil

/-- An item of a list is kept, or else one that is the same. -/
theorem exists_mem_keepNew (kept : List α) (h : a ∈ items) :
    a ∈ keepNew same kept items ∨ ∃ b ∈ keepNew same kept items, same a b = true := by
  induction items generalizing kept with
  | nil => cases h
  | cons first rest ih =>
    rw [keepNew_cons]
    rcases List.mem_cons.mp h with rfl | h
    · -- the item is dropped if one that is the same has been kept, and that one stays
      by_cases ha : kept.any (same a) = true
      · obtain ⟨b, hb, hs⟩ := List.any_eq_true.mp ha
        rw [if_pos ha]
        exact .inr ⟨b, mem_keepNew_of_mem hb, hs⟩
      · rw [if_neg ha]
        exact .inl (mem_keepNew_of_mem (List.mem_append_right _ (List.mem_singleton_self _)))
    · exact ih _ h

/-- What is kept is kept once, where only what is equal is the same. -/
theorem nodup_keepNew [BEq α] [LawfulBEq α] (h : kept.Nodup) :
    (keepNew (· == ·) kept items).Nodup := by
  induction items generalizing kept with
  | nil => exact h
  | cons first rest ih =>
    rw [keepNew_cons]
    apply ih
    split
    · exact h
    · next hnew =>
      simp only [List.any_eq_true, beq_iff_eq, not_exists, not_and] at hnew
      refine List.nodup_append.mpr ⟨h, List.nodup_singleton _, fun a ha b hb hab => ?_⟩
      exact hnew a ha ((List.mem_singleton.mp hb) ▸ hab.symm)

end KeepNew

end RouteStubs
