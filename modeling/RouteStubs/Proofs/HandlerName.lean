import RouteStubs.Operation.HandlerName
import RouteStubs.Proofs.SegmentName

/-!
# Names of handlers

A name in the style of handlers is made of small letters, digits and underscores. One that is met
before gets a method and then a number, and both leave a trace: an underscore or a digit. So a name of
small letters only is given to a handler exactly when it is asked for, unless it is reserved.

## Main definitions

* `Name.IsWord`: a name of small letters only.

## Main statements

* `Name.spelled_handlerStyle`: names of handlers can stand in code.
* `Name.isSegmentChar_of_handlerStyle`: the characters of names of handlers.
* `HandlerName.nodup_distinct`: no two handlers have one name.
* `HandlerName.notMem_reserved`: no handler has a reserved name.
* `HandlerName.mem_distinct_iff`: which words are names of handlers.
-/

namespace RouteStubs

/-! ### Characters -/

namespace Name

open Text

variable {c : Char} {name base : String} {taken : List String}

/-- What a name in the style of handlers is made of, as long as the fallback is made of small letters,
digits and underscores. -/
theorem exists_of_handlerStyle {s fallback : String}
    (hf : ∀ c ∈ fallback.toList, isSegmentChar c = true) (h : handlerStyle s fallback = .ok name) :
    ∃ kept result, (∀ c ∈ kept, isSegmentChar c = true) ∧ withoutLeadingDigit kept = .ok result ∧
      name = String.ofList (avoiding (keywords ++ softKeywords) result) :=
  exists_of_styled (fun _ => isSegmentChar_of_mem_segmentChars) hf h

/-- Where there is a fallback, any text has a name in the style of handlers. -/
theorem exists_handlerStyle (s : String) {fallback : String} (hf : fallback.toList ≠ []) :
    ∃ style, handlerStyle s fallback = .ok style :=
  exists_styled (keywords ++ softKeywords) hf

/-- A name in the style of handlers can stand in code. -/
theorem spelled_handlerStyle {s fallback : String}
    (hf : ∀ c ∈ fallback.toList, isSegmentChar c = true) (h : handlerStyle s fallback = .ok name) :
    Spelled name.toList ∧ name ∉ keywords := by
  obtain ⟨kept, result, hkept, hresult, rfl⟩ := exists_of_handlerStyle hf h
  rw [String.toList_ofList]
  exact spelled_avoiding (List.subset_append_left _ _)
    (spelled_withoutLeadingDigit (fun c hc => isNameChar_of_isSegmentChar (hkept c hc)) hresult)

/-- A name in the style of handlers is made of small letters, digits and underscores, as long as the
fallback is. -/
theorem isSegmentChar_of_handlerStyle {s fallback : String}
    (hf : ∀ c ∈ fallback.toList, isSegmentChar c = true)
    (h : handlerStyle s fallback = .ok name) : ∀ c ∈ name.toList, isSegmentChar c = true := by
  obtain ⟨kept, result, hkept, hresult, rfl⟩ := exists_of_handlerStyle hf h
  have hunder : isSegmentChar '_' = true := by decide
  -- all that is added is an underscore before the name and one after it
  have hchars : ∀ c ∈ result, isSegmentChar c = true := by
    cases kept with
    | nil => cases hresult
    | cons first rest =>
      rw [withoutLeadingDigit, Except.ok.injEq] at hresult
      rw [← hresult]
      split
      · exact List.forall_mem_cons.mpr ⟨hunder, hkept⟩
      · exact hkept
  rw [String.toList_ofList, avoiding]
  split
  · exact List.forall_mem_append.mpr ⟨hchars, List.forall_mem_singleton.mpr hunder⟩
  · exact hchars

theorem isSegmentChar_numbered (h : ∀ c ∈ base.toList, isSegmentChar c = true) (k : Nat) :
    ∀ c ∈ (numbered base k).toList, isSegmentChar c = true := by
  rw [numbered, String.toList_append, String.toList_ofList]
  refine List.forall_mem_append.mpr ⟨h, fun c hc => ?_⟩
  simp [isSegmentChar, isAsciiDigit_of_mem_decimalText hc]

theorem isSegmentChar_of_fresh (h : ∀ c ∈ base.toList, isSegmentChar c = true)
    (hc : c ∈ (fresh base taken).toList) : isSegmentChar c = true := by
  unfold fresh at hc
  split at hc
  · exact isSegmentChar_numbered h _ c hc
  · exact h c hc

end Name

/-! ### Words -/

namespace Name

open Text

variable {name base : String} {taken : List String}

/-- A name of small letters only. -/
def IsWord (name : String) : Prop := ∀ c ∈ name.toList, isSmall c = true

instance (name : String) : Decidable (IsWord name) :=
  decidable_of_iff (name.toList.all isSmall = true) List.all_eq_true

theorem IsWord.ne_numbered (h : IsWord name) (k : Nat) : numbered base k ≠ name := by
  intro heq
  obtain ⟨c, hc⟩ : ∃ c, c ∈ decimalText k := List.exists_mem_of_ne_nil _ Nat.toDigits_ne_nil
  have hdigit : isAsciiDigit c = true := isAsciiDigit_of_mem_decimalText hc
  have hsmall : isSmall c = true := by
    apply h
    rw [← heq, numbered, String.toList_append, String.toList_ofList]
    exact List.mem_append_right _ hc
  -- small letters come after all digits
  simp only [isAsciiDigit, isSmall, Bool.and_eq_true, decide_eq_true_eq, Char.le_def,
    UInt32.le_iff_toNat_le] at hdigit hsmall
  have ha : ('a' : Char).val.toNat = 97 := rfl
  have h9 : ('9' : Char).val.toNat = 57 := rfl
  omega

/-- A fresh name is a word only if it was free. -/
theorem IsWord.eq_of_fresh (h : IsWord name) (hf : fresh base taken = name) : base = name := by
  unfold fresh at hf
  split at hf
  · exact absurd hf (h.ne_numbered _)
  · exact hf

/-- Something with an underscore in it is no word. -/
theorem IsWord.ne_of_underscore (h : IsWord name) (hu : '_' ∈ base.toList) : base ≠ name := by
  rintro rfl
  exact absurd (h '_' hu) (by decide)

end Name

/-! ### Handlers -/

namespace HandlerName

open Name (IsWord)

variable {name : String} {names taken seen : List String} {pairs : List (String × String)}

theorem length_withMethods (seen : List String) (pairs : List (String × String)) :
    (withMethods seen pairs).length = pairs.length := by
  induction pairs generalizing seen with
  | nil => rfl
  | cons first rest ih =>
    rw [withMethods]
    split <;> rw [List.length_cons, List.length_cons, ih]

theorem length_numbered (taken names : List String) :
    (numbered taken names).length = names.length := by
  induction names generalizing taken with
  | nil => rfl
  | cons first rest ih => rw [numbered, List.length_cons, List.length_cons, ih]

/-- Each handler gets a name. -/
theorem length_distinct (pairs : List (String × String)) :
    (distinct pairs).length = pairs.length := by
  rw [distinct, length_numbered, length_withMethods]

theorem notMem_of_mem_numbered (h : name ∈ numbered taken names) : name ∉ taken := by
  induction names generalizing taken with
  | nil => cases h
  | cons first rest ih =>
    rw [numbered] at h
    rcases List.mem_cons.mp h with rfl | h
    · exact Name.fresh_notMem first taken
    · exact fun hm => ih h (List.mem_cons_of_mem _ hm)

theorem nodup_numbered (taken names : List String) : (numbered taken names).Nodup := by
  induction names generalizing taken with
  | nil => exact List.nodup_nil
  | cons first rest ih =>
    rw [numbered, List.nodup_cons]
    -- what comes later is outside all that was taken by then
    exact ⟨fun h => notMem_of_mem_numbered h List.mem_cons_self, ih _⟩

/-- No two handlers have one name. -/
theorem nodup_distinct (pairs : List (String × String)) : (distinct pairs).Nodup :=
  nodup_numbered _ _

/-- No handler has a reserved name. -/
theorem notMem_reserved (h : name ∈ distinct pairs) : name ∉ reserved :=
  notMem_of_mem_numbered h

/-- A name that is asked for is given to the first that asks for it, if it is free. -/
theorem mem_numbered_of_mem (h : name ∈ names) (hf : name ∉ taken) : name ∈ numbered taken names := by
  induction names generalizing taken with
  | nil => cases h
  | cons first rest ih =>
    rw [numbered]
    by_cases hfirst : name = Name.fresh first taken
    · exact List.mem_cons.mpr (.inl hfirst)
    · have hrest : name ∈ rest := by
        rcases List.mem_cons.mp h with rfl | h
        · -- it would be given at once
          rw [Name.fresh, if_neg (by simpa using hf)] at hfirst
          exact absurd rfl hfirst
        · exact h
      refine List.mem_cons_of_mem _ (ih hrest fun hm => ?_)
      rcases List.mem_cons.mp hm with heq | hm
      · exact hfirst heq
      · exact hf hm

theorem mem_of_mem_numbered (hw : IsWord name) (h : name ∈ numbered taken names) :
    name ∈ names := by
  induction names generalizing taken with
  | nil => cases h
  | cons first rest ih =>
    rw [numbered] at h
    rcases List.mem_cons.mp h with heq | h
    · exact List.mem_cons.mpr (.inl (hw.eq_of_fresh heq.symm).symm)
    · exact List.mem_cons_of_mem _ (ih h)

theorem mem_withMethods_iff (hw : IsWord name) (hs : name ∉ seen) :
    name ∈ withMethods seen pairs ↔ name ∈ pairs.map Prod.fst := by
  induction pairs generalizing seen with
  | nil => rfl
  | cons first rest ih =>
    obtain ⟨other, method⟩ := first
    rw [withMethods, List.map_cons]
    by_cases hother : other ∈ seen
    · -- a method is added, so this is not the word
      have hne : name ≠ other := fun heq => hs (heq ▸ hother)
      have hadded : name ≠ other ++ "_" ++ method := (hw.ne_of_underscore (by simp)).symm
      rw [if_pos (by simpa using hother), List.mem_cons, List.mem_cons, ih hs]
      simp only [hne, hadded, false_or]
    · rw [if_neg (by simpa using hother), List.mem_cons, List.mem_cons]
      by_cases heq : name = other
      · simp only [heq, true_or]
      · rw [ih (by simp [heq, hs])]

/-- A word that is not reserved is the name of a handler exactly when it is asked for. -/
theorem mem_distinct_iff (hw : IsWord name) (hr : name ∉ reserved) :
    name ∈ distinct pairs ↔ name ∈ pairs.map Prod.fst := by
  rw [← mem_withMethods_iff hw hr]
  constructor
  · exact mem_of_mem_numbered hw
  · intro h
    exact mem_numbered_of_mem h hr

end HandlerName

end RouteStubs
