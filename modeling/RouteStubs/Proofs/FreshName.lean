import Mathlib.Data.Finset.Card
import Mathlib.Data.List.Perm.Subperm
import Mathlib.Data.List.Nodup
import Mathlib.Order.Bounds.Basic
import RouteStubs.Name.Fresh

/-!
# Fresh names are fresh

Different numbers make different names, so among one more number than there are taken names one
makes a name that is not taken, and the bounded search finds it. It finds what a search finds that
counts on for as long as it meets taken names: the lowest number that makes a free name.

## Main definitions

* `Name.Seeks`: the search that has no bound, and the number that it comes to.

## Main statements

* `Name.numbered_injective`: different numbers make different names.
* `Name.fresh_notMem`: a fresh name is not taken.
* `Name.fresh_least`: the search ends, and a fresh name has the lowest number that is possible.
-/

namespace RouteStubs.Name

theorem numbered_injective (base : String) : Function.Injective (numbered base) := by
  intro m n h
  have hl := congrArg String.toList h
  simp only [numbered, String.toList_append, String.toList_ofList, List.append_cancel_left_eq,
    decimalText] at hl
  rw [← Nat.ofDigitChars_ten_toDigits (n := m), hl, Nat.ofDigitChars_ten_toDigits]

/-- The search gives a taken name only if all the numbers it tried make taken names. -/
theorem numbered_mem_of_lowestFree_mem {base : String} {taken : List String} :
    ∀ {tries k : Nat}, numbered base (lowestFree base taken tries k) ∈ taken →
      ∀ j, k ≤ j → j < k + tries → numbered base j ∈ taken := by
  intro tries
  induction tries with
  | zero => intro k _ j hk hj; omega
  | succ tries ih =>
    intro k h j hk hj
    by_cases hc : numbered base k ∈ taken
    · rcases Nat.eq_or_lt_of_le hk with rfl | hlt
      · exact hc
      · rw [lowestFree, if_pos (by simpa using hc)] at h
        exact ih h j hlt (by omega)
    · rw [lowestFree, if_neg (by simpa using hc)] at h
      exact absurd h hc

theorem fresh_notMem (base : String) (taken : List String) : fresh base taken ∉ taken := by
  unfold fresh
  split
  · intro h
    have hall := numbered_mem_of_lowestFree_mem h
    -- one more name than there are taken ones would be taken
    let names := (List.range' 2 (taken.length + 1)).map (numbered base)
    have hnodup : names.Nodup :=
      (List.nodup_range' 1 Nat.one_pos).map (numbered_injective base)
    have hsub : names ⊆ taken := by
      intro name hname
      obtain ⟨j, hj, rfl⟩ := List.mem_map.mp hname
      rw [List.mem_range'_1] at hj
      exact hall j hj.1 hj.2
    have hlen := (hnodup.subperm hsub).length_le
    simp only [names, List.length_map, List.length_range'] at hlen
    omega
  · next h => simpa using h

/-! ### The search without a bound -/

/-- Counting on from `k` for as long as the number makes a taken name comes to an end at `n`. -/
inductive Seeks (base : String) (taken : List String) : Nat → Nat → Prop
  | found {k : Nat} (h : numbered base k ∉ taken) : Seeks base taken k k
  | next {k n : Nat} (h : numbered base k ∈ taken) (hrest : Seeks base taken (k + 1) n) :
      Seeks base taken k n

variable {base : String} {taken : List String} {k n : Nat}

/-- The search ends at the lowest number that makes a free name. -/
theorem Seeks.isLeast (h : Seeks base taken k n) :
    IsLeast {j | k ≤ j ∧ numbered base j ∉ taken} n := by
  induction h with
  | @found k h => exact ⟨⟨Nat.le_refl k, h⟩, fun j hj => hj.1⟩
  | @next k n h _ ih =>
    refine ⟨⟨Nat.le_of_succ_le ih.1.1, ih.1.2⟩, fun j hj => ih.2 ⟨?_, hj.2⟩⟩
    -- the first number makes a taken name, so it is not the one
    rcases Nat.eq_or_lt_of_le hj.1 with rfl | hlt
    · exact absurd h hj.2
    · exact hlt

/-- Where the bounded search finds a free name, the search without a bound ends too. -/
theorem seeks_lowestFree {tries : Nat} (h : numbered base (lowestFree base taken tries k) ∉ taken) :
    Seeks base taken k (lowestFree base taken tries k) := by
  induction tries generalizing k with
  | zero => exact .found h
  | succ tries ih =>
    by_cases hk : numbered base k ∈ taken
    · rw [lowestFree, if_pos (by simpa using hk)] at h ⊢
      exact .next hk (ih h)
    · rw [lowestFree, if_neg (by simpa using hk)]
      exact .found hk

theorem numbered_ne_self (base : String) (k : Nat) : numbered base k ≠ base := by
  intro h
  have hl := congrArg String.toList h
  rw [numbered, String.toList_append, String.toList_ofList, List.append_right_eq_self] at hl
  exact Nat.toDigits_ne_nil hl

/-- There are no more numbers to go past than names that are taken beside the name itself. -/
theorem Seeks.le_card (h : Seeks base taken 2 n) (hbase : base ∈ taken) :
    n ≤ taken.toFinset.card + 1 := by
  let names := base :: (List.range' 2 (n - 2)).map (numbered base)
  have hnodup : names.Nodup := by
    refine List.nodup_cons.mpr ⟨fun hmem => ?_, ?_⟩
    · obtain ⟨k, -, hk⟩ := List.mem_map.mp hmem
      exact numbered_ne_self base k hk
    · exact (List.nodup_range' 1 Nat.one_pos).map (numbered_injective base)
  have hsub : names.toFinset ⊆ taken.toFinset := by
    intro name hname
    rw [List.mem_toFinset] at hname ⊢
    rcases List.mem_cons.mp hname with rfl | hname
    · exact hbase
    · obtain ⟨j, hj, rfl⟩ := List.mem_map.mp hname
      rw [List.mem_range'_1] at hj
      by_contra hfree
      have hleast := h.isLeast.2 ⟨hj.1, hfree⟩
      omega
  have hcard := Finset.card_le_card hsub
  rw [List.toFinset_card_of_nodup hnodup, List.length_cons, List.length_map, List.length_range']
    at hcard
  omega

/-- A fresh name is not taken. It is the name itself if that is free. Otherwise counting up from two
comes to an end, no later than at the number of taken names and one more, and it is the name with
the number at the end of the search, which is the lowest one from two on that makes a free name. -/
theorem fresh_least (base : String) (taken : List String) :
    fresh base taken ∉ taken ∧ (base ∉ taken → fresh base taken = base) ∧
    (base ∈ taken → ∃ k, fresh base taken = numbered base k ∧ Seeks base taken 2 k ∧
      IsLeast {j | 2 ≤ j ∧ numbered base j ∉ taken} k ∧ k ≤ taken.toFinset.card + 1) := by
  refine ⟨fresh_notMem base taken, fun hfree => ?_, fun hbase => ?_⟩
  · rw [fresh, if_neg (by simpa using hfree)]
  · have hfresh :
        fresh base taken = numbered base (lowestFree base taken (taken.length + 1) 2) := by
      rw [fresh, if_pos (by simpa using hbase)]
    have hseeks := seeks_lowestFree (hfresh ▸ fresh_notMem base taken)
    exact ⟨_, hfresh, hseeks, hseeks.isLeast, hseeks.le_card hbase⟩

/-- A name that is taken, and so is the one with the first number. -/
theorem fresh_least_taken :
    "Pet" ∈ ["Pet", "Pet2"] ∧ fresh "Pet" ["Pet", "Pet2"] = "Pet3" ∧
      IsLeast {j | 2 ≤ j ∧ numbered "Pet" j ∉ ["Pet", "Pet2"]} 3 := by
  have hbase : "Pet" ∈ ["Pet", "Pet2"] := by decide
  have hthird : fresh "Pet" ["Pet", "Pet2"] = "Pet3" := by decide
  obtain ⟨k, hk, -, hleast, -⟩ := (fresh_least "Pet" ["Pet", "Pet2"]).2.2 hbase
  obtain rfl : k = 3 := numbered_injective "Pet" (hk.symm.trans hthird)
  exact ⟨hbase, hthird, hleast⟩

end RouteStubs.Name
