import Mathlib.Data.List.Chain
import RouteStubs.Proofs.LegalName
import RouteStubs.Proofs.Text

/-!
# Names of segments

What is left of a text as a name in small letters has single underscores in it and none at its ends.
A name of that form is left as it is, so these are the names that paths have for resources.

## Main definitions

* `Name.IsSegment`: small letters and digits with single underscores between them.

## Main statements

* `Name.isSegment_segmentChars`: what is left of a text.
* `Name.segmentChars_eq_self_iff`, `Name.segment_eq_self_iff`: what is left as it is.
-/

namespace RouteStubs

namespace Text

variable {c d : Char} {s : List Char}

/-! ### Runs of one character -/

theorem mem_of_mem_squeeze (h : c ∈ squeeze d s) : c ∈ s := by
  induction s using squeeze.induct d with
  | case1 => exact h
  | case2 e => exact h
  | case3 e f rest hsame ih =>
    rw [squeeze, if_pos hsame] at h
    exact List.mem_cons_of_mem _ (ih h)
  | case4 e f rest hdiffer ih =>
    rw [squeeze, if_neg hdiffer] at h
    rcases List.mem_cons.mp h with rfl | h
    · exact List.mem_cons_self
    · exact List.mem_cons_of_mem _ (ih h)

theorem head?_squeeze (c : Char) (s : List Char) : (squeeze c s).head? = s.head? := by
  induction s using squeeze.induct c with
  | case1 => rfl
  | case2 d => rfl
  | case3 d e rest hsame ih =>
    rw [squeeze, if_pos hsame, ih, List.head?_cons, List.head?_cons, hsame.1, hsame.2]
  | case4 d e rest hdiffer ih => rw [squeeze, if_neg hdiffer]; rfl

/-- No run is left. -/
theorem isChain_squeeze (c : Char) (s : List Char) :
    (squeeze c s).IsChain fun d e => ¬ (d = c ∧ e = c) := by
  induction s using squeeze.induct c with
  | case1 => exact .nil
  | case2 d => exact .singleton d
  | case3 d e rest hsame ih => rwa [squeeze, if_pos hsame]
  | case4 d e rest hdiffer ih =>
    rw [squeeze, if_neg hdiffer, List.isChain_cons]
    refine ⟨fun f hf => ?_, ih⟩
    rw [head?_squeeze, List.head?_cons, Option.mem_some_iff] at hf
    exact hf ▸ hdiffer

theorem squeeze_eq_self (h : s.IsChain fun d e => ¬ (d = c ∧ e = c)) : squeeze c s = s := by
  induction s using squeeze.induct c with
  | case1 => rfl
  | case2 d => rfl
  | case3 d e rest hsame ih => exact absurd hsame (List.isChain_cons_cons.mp h).1
  | case4 d e rest hdiffer ih =>
    rw [squeeze, if_neg hdiffer, ih (List.isChain_cons_cons.mp h).2]

/-! ### Small letters -/

theorem lowerFrom_eq_self (before : List Char)
    (h : ∀ c ∈ s, c.toNat < 128 ∧ isCapital c = false) : lowerFrom before s = s := by
  induction s generalizing before with
  | nil => rfl
  | cons c rest ih =>
    obtain ⟨⟨hlt, hc⟩, hrest⟩ := List.forall_mem_cons.mp h
    rw [lowerFrom, ih _ hrest, lowerChar]
    simp [hlt, hc]

end Text

namespace Name

open Text

variable {c : Char} {s v w : List Char}

theorem isNameChar_of_isSegmentChar (h : isSegmentChar c = true) : IsNameChar c := by
  simp only [isSegmentChar, Bool.or_eq_true, beq_iff_eq] at h
  rcases h with (h | h) | rfl
  · exact .inl (by simp [isWordChar, h])
  · exact .inl (by simp [isWordChar, h])
  · exact .inr rfl

theorem isSegmentChar_of_mem_segmentChars (h : c ∈ segmentChars s) : isSegmentChar c = true :=
  (List.mem_filter.mp (mem_of_mem_squeeze (mem_of_mem_trim h))).2

theorem boundaries_eq_self (h : ∀ c ∈ s, isCapital c = false) : boundaries s = s := by
  induction s using boundaries.induct with
  | case1 => rfl
  | case2 x => rfl
  | case3 x y rest hstart ih => simp [startsWord, h y (by simp)] at hstart
  | case4 x y rest hstart ih =>
    rw [boundaries, if_neg hstart, ih fun c hc => h c (List.mem_cons_of_mem _ hc)]

/-- The characters of names in small letters are few enough to look at one by one. -/
theorem forall_isSegmentChar (keep : Char → Bool)
    (hall : ∀ n < 128, isSegmentChar (Char.ofNat n) = true → keep (Char.ofNat n) = true)
    (h : isSegmentChar c = true) : keep c = true := by
  have hc : Char.ofNat c.toNat = c := Char.ofNat_toNat c
  exact hc ▸ hall c.toNat (isNameChar_of_isSegmentChar h).toNat_lt (hc.symm ▸ h)

theorem isCapital_of_isSegmentChar (h : isSegmentChar c = true) : isCapital c = false := by
  simpa using forall_isSegmentChar (!isCapital ·) (by decide) h

theorem isWordBreak_of_isSegmentChar (h : isSegmentChar c = true) : isWordBreak c = false := by
  simpa using forall_isSegmentChar (!isWordBreak ·) (by decide) h

/-- Small letters and digits with single underscores between them. -/
structure IsSegment (s : List Char) : Prop where
  chars : ∀ c ∈ s, isSegmentChar c = true
  single : s.IsChain fun c d => ¬ (c = '_' ∧ d = '_')
  first : s.head? ≠ some '_'
  last : s.getLast? ≠ some '_'

theorem isSegment_segmentChars (s : List Char) : IsSegment (segmentChars s) where
  chars := fun _ hc => isSegmentChar_of_mem_segmentChars hc
  single := List.IsChain.infix (isChain_squeeze '_' _) (trim_within _ _)
  first := fun h => absurd (first_of_trim h) (by decide)
  last := fun h => absurd (last_of_trim h) (by decide)

theorem IsSegment.notMem (h : IsSegment s) (hc : isSegmentChar c = false) : c ∉ s := by
  intro hm
  rw [h.chars c hm] at hc
  cases hc

theorem IsSegment.lower_eq (h : IsSegment s) : lower s = s :=
  lowerFrom_eq_self [] fun c hc => ⟨(isNameChar_of_isSegmentChar (h.chars c hc)).toNat_lt,
    isCapital_of_isSegmentChar (h.chars c hc)⟩

theorem IsSegment.segmentChars_eq (h : IsSegment s) : segmentChars s = s := by
  have hsnake : snakeChars s = s := by
    rw [snakeChars, boundaries_eq_self fun c hc => isCapital_of_isSegmentChar (h.chars c hc),
      h.lower_eq]
  have hbroken : (s.map fun c => if isWordBreak c then '_' else c) = s := by
    refine (List.map_congr_left fun c hc => ?_).trans s.map_id
    rw [isWordBreak_of_isSegmentChar (h.chars c hc)]
    rfl
  simp only [segmentChars, hsnake, hbroken]
  rw [List.filter_eq_self.mpr h.chars, squeeze_eq_self h.single, trim_eq_self]
  · intro c hc
    exact beq_eq_false_iff_ne.mpr fun heq => h.first (heq ▸ hc)
  · intro c hc
    exact beq_eq_false_iff_ne.mpr fun heq => h.last (heq ▸ hc)

/-- The names that are left as they are. -/
theorem segmentChars_eq_self_iff : segmentChars s = s ↔ IsSegment s :=
  ⟨fun h => h ▸ isSegment_segmentChars s, IsSegment.segmentChars_eq⟩

theorem segment_eq_self_iff {name : String} : segment name = name ↔ IsSegment name.toList := by
  rw [← segmentChars_eq_self_iff, segment, onChars, ← String.toList_inj, String.toList_ofList]

/-- Other letters may stand behind the front of a name. -/
theorem IsSegment.append (h : IsSegment w) (hv : v <+: w) (hs : ∀ c ∈ s, isSmall c = true)
    (hne : s ≠ []) : IsSegment (v ++ s) := by
  have hsmall : ∀ c ∈ s, c ≠ '_' := by
    rintro c hc rfl
    exact absurd (hs '_' hc) (by decide)
  have hfront : v.IsChain fun c d => ¬ (c = '_' ∧ d = '_') := List.IsChain.prefix h.single hv
  obtain ⟨first, rest, rfl⟩ := List.exists_cons_of_ne_nil hne
  refine ⟨fun c hc => ?_, ?_, ?_, ?_⟩
  · rcases List.mem_append.mp hc with hc | hc
    · exact h.chars c (hv.subset hc)
    · simp [isSegmentChar, hs c hc]
  · refine List.isChain_append.mpr ⟨hfront, ?_, ?_⟩
    · refine List.Pairwise.isChain (List.pairwise_of_forall_mem_list ?_)
      exact fun c hc d _ => fun heq => hsmall c hc heq.1
    · rintro c - d hd ⟨-, rfl⟩
      exact hsmall _ (List.mem_of_mem_head? hd) rfl
  · cases v with
    | nil => simpa using hsmall first List.mem_cons_self
    | cons c v =>
      obtain ⟨more, rfl⟩ := hv
      exact h.first
  · rw [List.getLast?_append_of_ne_nil _ hne]
    exact fun hlast => hsmall _ (List.mem_of_getLast? hlast) rfl

end Name

end RouteStubs
