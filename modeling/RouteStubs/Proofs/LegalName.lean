import RouteStubs.Proofs.FreshName
import RouteStubs.Name.Style

/-!
# Names of declarations can stand in code

A name in the style of declarations is made of letters and digits of ASCII, with an underscore where
it would start with a digit or be a keyword. A number after it leaves it so, since no keyword ends in
a digit.

## Main definitions

* `Name.Legal`: an identifier of ASCII that is no keyword.
* `Name.Styled`: a fresh name in the style of declarations.

## Main statements

* `Name.exists_typeStyle`: with a fallback there is always a name in the style of declarations.
* `Name.legal_fresh`, `Name.Styled.legal`: a fresh name in the style of declarations is legal.
-/

namespace RouteStubs.Name

open Text

variable {c : Char} {cs more : List Char} {name : String}

/-- An identifier of ASCII that is no keyword. -/
structure Legal (name : String) : Prop where
  identifier : isIdentifier name.toList = true
  ascii : ∀ c ∈ name.toList, c.toNat < 128
  keyword : name ∉ keywords

/-! ### Characters -/

/-- The characters of names in ASCII. -/
def IsNameChar (c : Char) : Prop := isWordChar c = true ∨ c = '_'

theorem toNat_lt_of_isWordChar (h : isWordChar c = true) : c.toNat < 128 := by
  simp only [isWordChar, isCapital, isSmall, isAsciiDigit, Bool.or_eq_true, Bool.and_eq_true,
    decide_eq_true_eq, Char.le_def, UInt32.le_iff_toNat_le] at h
  change c.val.toNat < 128
  have hZ : ('Z' : Char).val.toNat = 90 := rfl
  have hz : ('z' : Char).val.toNat = 122 := rfl
  have h9 : ('9' : Char).val.toNat = 57 := rfl
  omega

theorem IsNameChar.toNat_lt (h : IsNameChar c) : c.toNat < 128 := by
  rcases h with h | rfl
  · exact toNat_lt_of_isWordChar h
  · decide

theorem IsNameChar.continues (h : IsNameChar c) : isIdentifierContinue c = true := by
  unfold isIdentifierContinue
  rw [if_pos h.toNat_lt]
  rcases h with h | rfl
  · unfold isWordChar at h
    rw [h, Bool.true_or]
  · rfl

theorem isDecimal_of_isAsciiDigit (h : isAsciiDigit c = true) : isDecimal c = true := by
  have hlt : c.toNat < 128 := toNat_lt_of_isWordChar (by simp [isWordChar, h])
  simp [isDecimal, decimalValue?, hlt, h]

/-- A character of names that is no digit starts identifiers. -/
theorem IsNameChar.starts (h : IsNameChar c) (hd : isDigit c = false) :
    isIdentifierStart c = true := by
  unfold isIdentifierStart
  rw [if_pos h.toNat_lt]
  rcases h with h | rfl
  · have hno : isAsciiDigit c = false := by
      by_contra hdigit
      rw [Bool.not_eq_false] at hdigit
      simp [isDigit, isDecimal_of_isAsciiDigit hdigit] at hd
    simp only [isWordChar, hno, Bool.or_false] at h
    rw [h, Bool.true_or]
  · rfl

/-! ### Spellings -/

/-- Characters of names, of which the first is no digit. -/
structure Spelled (cs : List Char) : Prop where
  chars : ∀ c ∈ cs, IsNameChar c
  starts : ∃ c rest, cs = c :: rest ∧ isDigit c = false

theorem Spelled.legal (h : Spelled cs) (hk : String.ofList cs ∉ keywords) :
    Legal (String.ofList cs) := by
  obtain ⟨hchars, c, rest, rfl, hc⟩ := h
  refine ⟨?_, ?_, hk⟩
  · rw [String.toList_ofList, isIdentifier, Bool.and_eq_true, List.all_eq_true]
    exact ⟨(hchars c List.mem_cons_self).starts hc,
      fun d hd => (hchars d (List.mem_cons_of_mem _ hd)).continues⟩
  · intro d hd
    rw [String.toList_ofList] at hd
    exact (hchars d hd).toNat_lt

theorem Spelled.append (h : Spelled cs) (hm : ∀ c ∈ more, IsNameChar c) : Spelled (cs ++ more) := by
  obtain ⟨hchars, c, rest, rfl, hc⟩ := h
  refine ⟨fun d hd => ?_, c, rest ++ more, rfl, hc⟩
  rcases List.mem_append.mp hd with hd | hd
  · exact hchars d hd
  · exact hm d hd

/-- No keyword ends in an underscore or a digit. -/
theorem ofList_notMem_keywords {last : Char} (h : last = '_' ∨ isAsciiDigit last = true) :
    String.ofList (cs ++ [last]) ∉ keywords := by
  have hends : keywords.all (fun word =>
      word.toList.getLast?.all fun c => c != '_' && !isAsciiDigit c) = true := by decide
  intro hm
  have hlast := List.all_eq_true.mp hends _ hm
  rcases h with rfl | h
  · simp at hlast
  · simp [h] at hlast

/-! ### The style of declarations -/

theorem all_of_mem_runs {keep : Char → Bool} {s run : List Char} (h : run ∈ runs keep s) :
    ∀ c ∈ run, keep c = true := by
  induction s generalizing run with
  | nil => cases h
  | cons c rest ih =>
    have hone : keep c = true → ∀ d ∈ [c], keep d = true := by
      intro hk d hd
      rwa [List.mem_singleton.mp hd]
    unfold runs at h
    split at h
    · next hk =>
      split at h
      · rw [List.mem_singleton.mp h]
        exact hone hk
      · split at h
        · split at h
          · rw [List.mem_singleton.mp h]
            exact hone hk
          · -- the character goes on the run that comes first after it
            next first others hruns =>
            rcases List.mem_cons.mp h with rfl | h
            · exact List.forall_mem_cons.mpr ⟨hk, ih (hruns ▸ List.mem_cons_self)⟩
            · exact ih (hruns ▸ List.mem_cons_of_mem _ h)
        · rcases List.mem_cons.mp h with rfl | h
          · exact hone hk
          · exact ih h
    · exact ih h

theorem isWordChar_upper (h : isSmall c = true) :
    isWordChar (Char.ofNat (c.toNat - 32)) = true := by
  simp only [isSmall, Bool.and_eq_true, decide_eq_true_eq, Char.le_def,
    UInt32.le_iff_toNat_le] at h
  have ha : ('a' : Char).val.toNat = 97 := rfl
  have hz : ('z' : Char).val.toNat = 122 := rfl
  have hall : ∀ n, n < 26 → isWordChar (Char.ofNat (n + 65)) = true := by decide
  have hn : c.toNat - 32 = (c.toNat - 97) + 65 := by
    change c.val.toNat - 32 = (c.val.toNat - 97) + 65
    omega
  rw [hn]
  refine hall _ ?_
  change c.val.toNat - 97 < 26
  omega

theorem isWordChar_of_mem_typeChars {s : List Char} (h : c ∈ typeChars s) :
    isWordChar c = true := by
  obtain ⟨run, hrun, hc⟩ := List.mem_flatMap.mp h
  have hall := all_of_mem_runs hrun
  cases run with
  | nil => cases hc
  | cons first rest =>
    rcases List.mem_cons.mp hc with rfl | hc
    · split
      · next hs => exact isWordChar_upper hs
      · exact hall _ List.mem_cons_self
    · exact hall c (List.mem_cons_of_mem _ hc)

theorem spelled_withoutLeadingDigit {result : List Char} (hw : ∀ c ∈ cs, IsNameChar c)
    (h : withoutLeadingDigit cs = .ok result) : Spelled result := by
  cases cs with
  | nil => cases h
  | cons c rest =>
    simp only [withoutLeadingDigit, Except.ok.injEq] at h
    split at h
    · subst h
      refine ⟨fun d hd => ?_, '_', c :: rest, rfl, by decide⟩
      rcases List.mem_cons.mp hd with rfl | hd
      · exact .inr rfl
      · exact hw d hd
    · next hd =>
      subst h
      exact ⟨hw, c, rest, rfl, by simpa using hd⟩

theorem spelled_avoiding {words : List String} (hw : keywords ⊆ words) (h : Spelled cs) :
    Spelled (avoiding words cs) ∧ String.ofList (avoiding words cs) ∉ keywords := by
  unfold avoiding
  split
  · refine ⟨h.append fun c hc => ?_, ofList_notMem_keywords (.inl rfl)⟩
    exact .inr (List.mem_singleton.mp hc)
  · next hno => exact ⟨h, fun hk => hno (by simpa using hw hk)⟩

/-- What a name is made of: the characters of a text that are kept, or those of the fallback. -/
theorem exists_of_styled {made fallback : List Char} {words : List String} {p : Char → Bool}
    (hm : ∀ c ∈ made, p c = true) (hf : ∀ c ∈ fallback, p c = true)
    (h : (do
      let kept ← withoutLeadingDigit (if made.isEmpty then fallback else made)
      pure (String.ofList (avoiding words kept))) = .ok name) :
    ∃ kept result, (∀ c ∈ kept, p c = true) ∧ withoutLeadingDigit kept = .ok result ∧
      name = String.ofList (avoiding words result) := by
  set kept := if made.isEmpty then fallback else made with hkept
  have hp : ∀ c ∈ kept, p c = true := by
    rw [hkept]
    split
    · exact hf
    · exact hm
  cases hd : withoutLeadingDigit kept with
  | error fault =>
    rw [hd] at h
    cases h
  | ok result =>
    rw [hd] at h
    cases h
    exact ⟨kept, result, hp, hd, rfl⟩

/-- Where there is a fallback there is a name. -/
theorem exists_styled {made fallback : List Char} (words : List String) (hf : fallback ≠ []) :
    ∃ name, (do
      let kept ← withoutLeadingDigit (if made.isEmpty then fallback else made)
      pure (String.ofList (avoiding words kept))) = .ok name := by
  have hne : (if made.isEmpty then fallback else made) ≠ [] := by
    split
    · exact hf
    · next h => exact fun hnil => h (by rw [hnil]; rfl)
  obtain ⟨c, rest, hkept⟩ := List.exists_cons_of_ne_nil hne
  rw [hkept]
  exact ⟨_, rfl⟩

/-- What a name in the style of declarations is made of, as long as the fallback is made of letters
and digits. -/
theorem exists_of_typeStyle {s fallback : String} (hf : ∀ c ∈ fallback.toList, isWordChar c = true)
    (h : typeStyle s fallback = .ok name) : ∃ kept result, (∀ c ∈ kept, isWordChar c = true) ∧
      withoutLeadingDigit kept = .ok result ∧ name = String.ofList (avoiding keywords result) :=
  exists_of_styled (fun _ => isWordChar_of_mem_typeChars) hf h

/-- A name in the style of declarations, as long as the fallback is made of letters and digits. -/
theorem spelled_typeStyle {s fallback : String} (hf : ∀ c ∈ fallback.toList, isWordChar c = true)
    (h : typeStyle s fallback = .ok name) : Spelled name.toList ∧ name ∉ keywords := by
  obtain ⟨kept, result, hw, hd, rfl⟩ := exists_of_typeStyle hf h
  rw [String.toList_ofList]
  exact spelled_avoiding (List.Subset.refl _)
    (spelled_withoutLeadingDigit (fun c hc => .inl (hw c hc)) hd)

/-- Where there is a fallback, any text has a name in the style of declarations. -/
theorem exists_typeStyle (s : String) {fallback : String} (hf : fallback.toList ≠ []) :
    ∃ style, typeStyle s fallback = .ok style :=
  exists_styled keywords hf

/-! ### Numbers -/

theorem isAsciiDigit_of_mem_decimalText {n : Nat} (h : c ∈ decimalText n) :
    isAsciiDigit c = true := by
  have hd := Nat.isDigit_of_mem_toDigits (by decide) (by decide) h
  simpa [isAsciiDigit, Char.isDigit, Char.le_def] using hd

theorem legal_numbered (h : Spelled name.toList) (k : Nat) : Legal (numbered name k) := by
  have hdigits : ∀ c ∈ decimalText k, isAsciiDigit c = true := fun c hc =>
    isAsciiDigit_of_mem_decimalText hc
  have hs : Spelled (name.toList ++ decimalText k) :=
    h.append fun c hc => .inl (by simp [isWordChar, hdigits c hc])
  have heq : numbered name k = String.ofList (name.toList ++ decimalText k) := by
    rw [numbered, String.ofList_append, String.ofList_toList]
  rw [heq]
  apply hs.legal
  -- the number ends in a digit
  have hne : decimalText k ≠ [] := Nat.toDigits_ne_nil
  rw [← List.dropLast_append_getLast hne, ← List.append_assoc]
  exact ofList_notMem_keywords (.inr (hdigits _ (List.getLast_mem hne)))

/-- A fresh name is legal if the name is that it is made from. -/
theorem Spelled.legal_fresh (h : Spelled name.toList) (hk : name ∉ keywords) (taken : List String) :
    Legal (fresh name taken) := by
  unfold fresh
  split
  · exact legal_numbered h _
  · rw [← String.ofList_toList (s := name)] at hk ⊢
    exact h.legal hk

/-- A fresh name in the style of declarations is legal. -/
theorem legal_fresh {s fallback : String} (hf : ∀ c ∈ fallback.toList, isWordChar c = true)
    (h : typeStyle s fallback = .ok name) (taken : List String) : Legal (fresh name taken) := by
  obtain ⟨hs, hk⟩ := spelled_typeStyle hf h
  exact hs.legal_fresh hk taken

/-- A name as declarations get them: one in their style, with a number if it is taken. -/
def Styled (name : String) : Prop :=
  ∃ base styled taken, typeStyle base "Model" = .ok styled ∧ name = fresh styled taken

theorem Styled.legal (h : Styled name) : Legal name := by
  obtain ⟨base, styled, taken, hs, rfl⟩ := h
  have hfallback : "Model".toList.all isWordChar = true := by decide
  exact legal_fresh (List.all_eq_true.mp hfallback) hs taken

end RouteStubs.Name
