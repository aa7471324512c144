import Mathlib.Data.List.Find
import Mathlib.Data.List.TakeDrop
import RouteStubs.Proofs.Body.Source
import RouteStubs.Proofs.Margins

/-!
# The end of a source

After the last token of a source come spaces and tabs, the end of the line and perhaps blank lines.
A number or a text takes nothing of them with it: it is read from a source with such a tail as it is
read from the source alone, and the tail is left after it.

## Main definitions

* `Quiet`: a character that no token goes on with.
* `Tail`: what comes after the last token of a source.

## Main statements

* `afterNumber?_append`: a number is read with a tail as without one.
* `textAt?_append`: so is a text between quotes.
* `afterNumber?_suffix`, `textAt?_suffix`: what is left is a part of what was there.
-/

namespace RouteStubs.Body

open Text

/-! ### Tails -/

/-- A character that no token goes on with. -/
def Quiet (c : Char) : Prop := c = ' ' ∨ c = '\t' ∨ c = '\n'

instance (c : Char) : Decidable (Quiet c) := inferInstanceAs (Decidable (_ ∨ _ ∨ _))

theorem ne_of_quiet {c d : Char} (hc : Quiet c) (hd : ¬ Quiet d) : c ≠ d := fun h => hd (h ▸ hc)

/-- A word without quiet characters. -/
def isLoud (word : String) : Bool := word.toList.all fun c => !decide (Quiet c)

theorem not_quiet_of_isLoud {word : String} (h : isLoud word = true) :
    ∀ c ∈ word.toList, ¬ Quiet c := by
  simpa [isLoud] using h

theorem quiet_of_isMargin {c : Char} (h : isMargin c = true) : Quiet c := by
  simp only [isMargin, Bool.or_eq_true, beq_iff_eq] at h
  exact h.imp_right .inl

/-- What comes after the last token of a source: spaces and tabs, the end of the line and blank
lines. A source that ends in a backslash has no blank lines after it, since they would be joined to
it. -/
structure Tail (slash : Bool) where
  /-- The spaces and tabs up to the end of the line. -/
  margin : List Char
  /-- The blank lines after that. -/
  lines : List (List Char)
  isMargin : ∀ c ∈ margin, isMargin c = true
  areMargins : ∀ line ∈ lines, ∀ c ∈ line, Text.isMargin c = true
  single : slash = true → lines = []

namespace Tail

variable {slash : Bool}

/-- The characters. -/
def chars (t : Tail slash) : List Char := t.margin ++ '\n' :: unlines t.lines

variable (t : Tail slash) {p : Char → Bool} {c : Char}

/-- The tail without the spaces and tabs before the end of the line. -/
def fromLineEnd : Tail slash := { t with margin := [], isMargin := List.forall_mem_nil _ }

theorem length_lines_lt : t.lines.length < t.chars.length := by
  have hle := length_le_unlines t.lines
  rw [chars, List.length_append, List.length_cons]
  omega

theorem length_fromLineEnd_le : t.fromLineEnd.chars.length ≤ t.chars.length := by
  rw [chars, chars, List.length_append, List.length_append]
  exact Nat.add_le_add_right (Nat.zero_le _) _

theorem quiet_of_mem {t : Tail slash} (h : c ∈ t.chars) : Quiet c := by
  rw [chars, List.mem_append, List.mem_cons, unlines, List.mem_flatMap] at h
  rcases h with h | rfl | ⟨line, hline, h⟩
  · exact quiet_of_isMargin (t.isMargin c h)
  · exact .inr (.inr rfl)
  · rcases List.mem_append.mp h with h | h
    · exact quiet_of_isMargin (t.areMargins line hline c h)
    · exact .inr (.inr (List.mem_singleton.mp h))

theorem exists_chars : ∃ c rest, t.chars = c :: rest ∧ Quiet c := by
  cases h : t.chars with
  | nil => simp [chars] at h
  | cons c rest => exact ⟨c, rest, rfl, quiet_of_mem (h ▸ List.mem_cons_self)⟩

theorem chars_eq_or :
    t.chars = '\n' :: unlines t.lines ∨ ∃ d more, t.chars = d :: more ∧ d ≠ '\n' := by
  cases hm : t.margin with
  | nil => exact .inl (by rw [chars, hm]; rfl)
  | cons d more =>
    refine .inr ⟨d, more ++ '\n' :: unlines t.lines, by rw [chars, hm]; rfl, ?_⟩
    rintro rfl
    exact absurd (t.isMargin '\n' (hm ▸ List.mem_cons_self)) (by decide)

theorem any_take_one (hp : ∀ c, Quiet c → p c = false) (r : List Char) :
    ((r ++ t.chars).take 1).any p = (r.take 1).any p := by
  cases r with
  | nil =>
    obtain ⟨c, rest, hc, hq⟩ := t.exists_chars
    simp [hc, hp c hq]
  | cons c r => rfl

theorem isPrefixOf_append {w : List Char} (hw : ∀ c ∈ w, ¬ Quiet c) (r : List Char) :
    w.isPrefixOf (r ++ t.chars) = w.isPrefixOf r := by
  induction w generalizing r with
  | nil => cases r <;> rfl
  | cons a w ih =>
    cases r with
    | nil =>
      obtain ⟨c, rest, hc, hq⟩ := t.exists_chars
      have hne : a ≠ c := fun h => hw a List.mem_cons_self (h ▸ hq)
      simp [hc, List.isPrefixOf, hne]
    | cons c r =>
      simp only [List.cons_append, List.isPrefixOf]
      rw [ih (fun c hc => hw c (List.mem_cons_of_mem _ hc))]

theorem takeWhile_append (hp : ∀ c, Quiet c → p c = false) (r : List Char) :
    (r ++ t.chars).takeWhile p = r.takeWhile p ∧
      (r ++ t.chars).dropWhile p = r.dropWhile p ++ t.chars := by
  induction r with
  | nil =>
    obtain ⟨c, rest, hc, hq⟩ := t.exists_chars
    simp [hc, hp c hq]
  | cons c r ih =>
    cases hc : p c <;> simp [hc, ih]

end Tail

/-! ### Numbers -/

section Numbers

variable {slash : Bool} {digit : Char → Bool} {r r' : List Char} (t : Tail slash)

theorem isAsciiDigit_of_quiet : ∀ c, Quiet c → isAsciiDigit c = false := by
  rintro _ (rfl | rfl | rfl) <;> rfl

theorem isWordChar_of_quiet : ∀ c, Quiet c → isWordChar c = false := by
  rintro _ (rfl | rfl | rfl) <;> rfl

theorem afterDigits?_append (hd : ∀ c, Quiet c → digit c = false) (pending : Bool) (r : List Char) :
    afterDigits? digit pending (r ++ t.chars) =
      (afterDigits? digit pending r).map (· ++ t.chars) := by
  induction r generalizing pending with
  | nil =>
    obtain ⟨c, rest, hc, hq⟩ := t.exists_chars
    have hne : c ≠ '_' := ne_of_quiet hq (by decide)
    cases pending <;> simp [afterDigits?, hc, hd c hq, hne]
  | cons c r ih =>
    simp only [List.cons_append, afterDigits?, ih]
    split
    · rfl
    · split
      · rfl
      · split <;> rfl

theorem afterDigits?_suffix {pending : Bool} (h : afterDigits? digit pending r = some r') :
    r' <:+ r := by
  induction r generalizing pending with
  | nil =>
    cases pending with
    | false => cases h; exact List.suffix_rfl
    | true => cases h
  | cons c r ih =>
    rw [afterDigits?] at h
    split at h
    · exact (ih h).trans (List.suffix_cons ..)
    · split at h
      · cases h
      · split at h
        · exact (ih h).trans (List.suffix_cons ..)
        · cases h
          exact List.suffix_rfl

theorem endsNumber_append (r : List Char) : endsNumber (r ++ t.chars) = endsNumber r := by
  have hloud : ∀ w ∈ wordsAfterNumber, isLoud w = true := by decide
  have hwords : (wordsAfterNumber.any fun w => w.toList.isPrefixOf (r ++ t.chars)) =
      wordsAfterNumber.any fun w => w.toList.isPrefixOf r := by
    rw [Bool.eq_iff_iff, List.any_eq_true, List.any_eq_true]
    refine exists_congr fun w => and_congr_right fun hw => ?_
    rw [t.isPrefixOf_append (not_quiet_of_isLoud (hloud w hw))]
  rw [endsNumber, endsNumber, t.any_take_one isWordChar_of_quiet, hwords]

theorem afterBased?_append (hd : ∀ c, Quiet c → digit c = false) (r : List Char) :
    afterBased? digit (r ++ t.chars) = (afterBased? digit r).map (· ++ t.chars) := by
  have hdigits : ∀ s, ((afterDigits? digit true (s ++ t.chars)).filter fun rest =>
        endsNumber rest && !(rest.take 1).any isAsciiDigit) =
      ((afterDigits? digit true s).filter fun rest =>
        endsNumber rest && !(rest.take 1).any isAsciiDigit).map (· ++ t.chars) := by
    intro s
    rw [afterDigits?_append t hd]
    cases afterDigits? digit true s with
    | none => rfl
    | some rest =>
      simp only [Option.map_some, Option.filter_some, endsNumber_append,
        t.any_take_one isAsciiDigit_of_quiet]
      split <;> rfl
  cases r with
  | nil =>
    obtain ⟨c, rest, hc, hq⟩ := t.exists_chars
    have hne : c ≠ '_' := ne_of_quiet hq (by decide)
    simpa [afterBased?, hc, hne] using hdigits []
  | cons c r =>
    by_cases hc : c = '_'
    · subst hc
      exact hdigits r
    · simpa [afterBased?, hc] using hdigits (c :: r)

theorem afterBased?_suffix (h : afterBased? digit r = some r') : r' <:+ r := by
  obtain ⟨hdigits, -⟩ := Option.filter_eq_some_iff.mp h
  split at hdigits
  · exact (afterDigits?_suffix hdigits).trans (List.suffix_cons ..)
  · exact afterDigits?_suffix hdigits

theorem afterExponent?_append (r : List Char) :
    afterExponent? (r ++ t.chars) = (afterExponent? r).map (· ++ t.chars) := by
  obtain ⟨d, rest, hd, hq⟩ := t.exists_chars
  cases r with
  | nil =>
    have he : d ≠ 'e' := ne_of_quiet hq (by decide)
    have hE : d ≠ 'E' := ne_of_quiet hq (by decide)
    rw [List.nil_append, hd]
    cases rest <;> simp [afterExponent?, he, hE]
  | cons c r =>
    cases r with
    | nil =>
      have hplus : d ≠ '+' := ne_of_quiet hq (by decide)
      have hminus : d ≠ '-' := ne_of_quiet hq (by decide)
      simp [afterExponent?, hd, hplus, hminus, isAsciiDigit_of_quiet d hq]
    | cons sign r =>
      simp only [List.cons_append, afterExponent?]
      split
      · rfl
      · split
        · exact afterDigits?_append t isAsciiDigit_of_quiet true r
        · split
          · exact afterDigits?_append t isAsciiDigit_of_quiet true (sign :: r)
          · rfl

theorem afterExponent?_suffix (h : afterExponent? r = some r') : r' <:+ r := by
  unfold afterExponent? at h
  split at h
  · split at h
    · cases h
      exact List.suffix_rfl
    · split at h
      · exact (afterDigits?_suffix h).trans ((List.suffix_cons ..).trans (List.suffix_cons ..))
      · split at h
        · exact (afterDigits?_suffix h).trans (List.suffix_cons ..)
        · cases h
          exact List.suffix_rfl
  · cases h
    exact List.suffix_rfl

theorem afterFraction?_append (r : List Char) :
    afterFraction? (r ++ t.chars) = (afterFraction? r).map (· ++ t.chars) := by
  cases r with
  | nil =>
    obtain ⟨d, rest, hd, hq⟩ := t.exists_chars
    have hdot : d ≠ '.' := ne_of_quiet hq (by decide)
    simp [afterFraction?, hd, hdot]
  | cons c r =>
    by_cases hc : c = '.'
    · subst hc
      simp only [List.cons_append, afterFraction?, t.any_take_one isAsciiDigit_of_quiet]
      split
      · exact afterDigits?_append t isAsciiDigit_of_quiet true r
      · rfl
    · simp [afterFraction?, hc]

theorem afterFraction?_suffix (h : afterFraction? r = some r') : r' <:+ r := by
  unfold afterFraction? at h
  split at h
  · split at h
    · exact (afterDigits?_suffix h).trans (List.suffix_cons ..)
    · cases h
      exact List.suffix_cons ..
  · cases h
    exact List.suffix_rfl

/-- What follows the mark of an imaginary number, if the text starts with it. -/
def afterImaginary (s : List Char) : List Char :=
  match s with
  | c :: more => if c == 'j' || c == 'J' then more else s
  | [] => []

theorem afterImaginary_append (r : List Char) :
    afterImaginary (r ++ t.chars) = afterImaginary r ++ t.chars := by
  cases r with
  | nil =>
    obtain ⟨d, more, hd, hq⟩ := t.exists_chars
    have hj : d ≠ 'j' := ne_of_quiet hq (by decide)
    have hJ : d ≠ 'J' := ne_of_quiet hq (by decide)
    simp [afterImaginary, hd, hj, hJ]
  | cons c r =>
    simp only [List.cons_append, afterImaginary]
    split <;> rfl

theorem afterImaginary_suffix (r : List Char) : afterImaginary r <:+ r := by
  unfold afterImaginary
  split
  · split
    · exact List.suffix_cons ..
    · exact List.suffix_rfl
  · exact List.suffix_rfl

/-- What follows the digits before the point of a decimal number. -/
def afterWhole? (whole rest : List Char) : Option (List Char) :=
  let goesOn := (rest.take 1).any fun c => ['.', 'e', 'E', 'j', 'J'].contains c
  if goesOn || whole.head? != some '0' || whole.all fun c => c == '0' || c == '_' then
    ((afterFraction? rest).bind afterExponent?).bind fun last =>
      if endsNumber (afterImaginary last) then some (afterImaginary last) else none
  else none

theorem afterDecimal?_eq (s : List Char) :
    afterDecimal? s = (afterDigits? isAsciiDigit false s).bind fun rest =>
      afterWhole? (s.take (s.length - rest.length)) rest := by
  unfold afterDecimal? afterWhole?
  refine congrArg _ (funext fun rest => ?_)
  dsimp only [Option.bind_eq_bind, guard]
  split
  · change ((afterFraction? rest).bind afterExponent?).bind _ = _
    refine congrArg _ (funext fun last => ?_)
    change Option.bind (if endsNumber (afterImaginary last) = true then pure () else failure)
      (fun _ => some (afterImaginary last)) = _
    split <;> rfl
  · rfl

theorem afterWhole?_append (whole rest : List Char) :
    afterWhole? whole (rest ++ t.chars) = (afterWhole? whole rest).map (· ++ t.chars) := by
  have hmark : ∀ c, Quiet c → ['.', 'e', 'E', 'j', 'J'].contains c = false := by
    rintro _ (rfl | rfl | rfl) <;> rfl
  unfold afterWhole?
  simp only [t.any_take_one hmark, afterFraction?_append]
  split
  · cases afterFraction? rest with
    | none => rfl
    | some middle =>
      simp only [Option.map_some, Option.bind_some, afterExponent?_append]
      cases afterExponent? middle with
      | none => rfl
      | some last =>
        simp only [Option.map_some, Option.bind_some, afterImaginary_append, endsNumber_append]
        split <;> rfl
  · rfl

theorem afterWhole?_suffix {whole : List Char} (h : afterWhole? whole r = some r') : r' <:+ r := by
  unfold afterWhole? at h
  simp only [Option.ite_none_right_eq_some, Option.bind_eq_some_iff, Option.some.injEq] at h
  obtain ⟨-, last, ⟨middle, hmiddle, hlast⟩, -, rfl⟩ := h
  exact ((afterImaginary_suffix last).trans (afterExponent?_suffix hlast)).trans
    (afterFraction?_suffix hmiddle)

theorem afterDecimal?_append (r : List Char) :
    afterDecimal? (r ++ t.chars) = (afterDecimal? r).map (· ++ t.chars) := by
  rw [afterDecimal?_eq, afterDecimal?_eq, afterDigits?_append t isAsciiDigit_of_quiet]
  cases h : afterDigits? isAsciiDigit false r with
  | none => rfl
  | some rest =>
    obtain ⟨whole, rfl⟩ := afterDigits?_suffix h
    simp [List.append_assoc, afterWhole?_append]

/-- The digits in the base that a letter after a zero stands for. -/
def baseDigit? (c : Char) : Option (Char → Bool) :=
  match c.toLower with
  | 'x' => some fun d => (Json.hexValue? d).isSome
  | 'o' => some fun d => '0' ≤ d && d ≤ '7'
  | 'b' => some fun d => d == '0' || d == '1'
  | _ => none

theorem baseDigit?_of_quiet {c : Char} (hc : Quiet c) : baseDigit? c = none := by
  rcases hc with rfl | rfl | rfl <;> rfl

theorem digit_of_quiet {c : Char} (h : baseDigit? c = some digit) :
    ∀ d, Quiet d → digit d = false := by
  unfold baseDigit? at h
  split at h <;> cases h <;> rintro _ (rfl | rfl | rfl) <;> rfl

theorem afterNumber?_zero (c : Char) (s : List Char) :
    afterNumber? ('0' :: c :: s) =
      match baseDigit? c with
      | some digit => afterBased? digit s
      | none => afterDecimal? ('0' :: c :: s) := by
  rw [afterNumber?, baseDigit?]
  generalize c.toLower = d
  split
  · rfl
  · rfl
  · rfl
  · next hx ho hb => split <;> simp_all

theorem afterNumber?_of_ne {s : List Char} (h : ∀ c rest, s ≠ '0' :: c :: rest) :
    afterNumber? s = afterDecimal? s := by
  unfold afterNumber?
  split
  · next c rest => exact absurd rfl (h c rest)
  · rfl

theorem afterNumber?_append (r : List Char) :
    afterNumber? (r ++ t.chars) = (afterNumber? r).map (· ++ t.chars) := by
  obtain ⟨d, more, hd, hq⟩ := t.exists_chars
  match r with
  | [] =>
    have hzero : d ≠ '0' := ne_of_quiet hq (by decide)
    rw [afterNumber?_of_ne (by simp [hd, hzero]), afterNumber?_of_ne (by simp)]
    exact afterDecimal?_append t []
  | [c] =>
    rw [afterNumber?_of_ne (s := [c]) (by simp), ← afterDecimal?_append]
    by_cases hc : c = '0'
    · subst hc
      rw [hd, List.cons_append, List.nil_append, afterNumber?_zero, baseDigit?_of_quiet hq]
    · exact afterNumber?_of_ne (by simp [hc])
  | c :: c' :: r =>
    by_cases hc : c = '0'
    · subst hc
      rw [List.cons_append, List.cons_append, afterNumber?_zero, afterNumber?_zero]
      cases hb : baseDigit? c' with
      | none => exact afterDecimal?_append t ('0' :: c' :: r)
      | some digit => exact afterBased?_append t (digit_of_quiet hb) r
    · rw [afterNumber?_of_ne (by simp [hc]), afterNumber?_of_ne (by simp [hc])]
      exact afterDecimal?_append t _

theorem afterDecimal?_suffix {c : Char}
    (hc : isAsciiDigit c = true ∨ c = '.' ∧ (r.take 1).any isAsciiDigit = true)
    (h : afterDecimal? (c :: r) = some r') : r' <:+ r := by
  rw [afterDecimal?_eq, Option.bind_eq_some_iff] at h
  obtain ⟨rest, hrest, h⟩ := h
  rcases hc with hc | ⟨rfl, hc⟩
  · rw [afterDigits?, if_pos hc] at hrest
    exact (afterWhole?_suffix h).trans (afterDigits?_suffix hrest)
  · cases hrest
    unfold afterWhole? at h
    simp only [Option.ite_none_right_eq_some, Option.bind_eq_some_iff, Option.some.injEq,
      afterFraction?, if_pos hc] at h
    obtain ⟨-, last, ⟨middle, hmiddle, hlast⟩, -, rfl⟩ := h
    exact ((afterImaginary_suffix last).trans (afterExponent?_suffix hlast)).trans
      (afterDigits?_suffix hmiddle)

theorem afterNumber?_suffix {c : Char}
    (hc : isAsciiDigit c = true ∨ c = '.' ∧ (r.take 1).any isAsciiDigit = true)
    (h : afterNumber? (c :: r) = some r') : r' <:+ r := by
  by_cases hzero : ∃ c' rest, c :: r = '0' :: c' :: rest
  · obtain ⟨c', rest, heq⟩ := hzero
    obtain ⟨rfl, rfl⟩ := List.cons.inj heq
    rw [afterNumber?_zero] at h
    split at h
    · exact (afterBased?_suffix h).trans (List.suffix_cons ..)
    · exact afterDecimal?_suffix hc h
  · rw [afterNumber?_of_ne fun c' rest heq => hzero ⟨c', rest, heq⟩] at h
    exact afterDecimal?_suffix hc h

end Numbers

/-! ### Texts -/

section Texts

variable {slash : Bool} {quote : Char} {r inner rest : List Char} (t : Tail slash)

theorem quotedText?_escape (quote : Char) (triple : Bool) (c : Char) (rest : List Char) :
    quotedText? quote triple ('\\' :: c :: rest) =
      (quotedText? quote triple rest).map fun (s, r) => ('\\' :: c :: s, r) := by
  rw [quotedText?]

theorem quotedText?_cons {triple : Bool} {c : Char} (h : c = '\\' → rest = []) :
    quotedText? quote triple (c :: rest) =
      if c == quote && !triple then some ([], rest)
      else if c == quote && [quote, quote].isPrefixOf rest then some ([], rest.drop 2)
      else if c == '\n' && !triple then none
      else (quotedText? quote triple rest).map fun (s, r) => (c :: s, r) := by
  rw [quotedText?]
  rintro c' rest' hc rfl
  cases h hc

/-- A text does not end in the tail. -/
theorem quotedText?_quiet (hq : ¬ Quiet quote) (triple : Bool) (h : ∀ c ∈ rest, Quiet c) :
    quotedText? quote triple rest = none := by
  induction rest with
  | nil => rw [quotedText?]
  | cons c rest ih =>
    have hc := h c List.mem_cons_self
    have hne : (c == quote) = false := beq_eq_false_iff_ne.mpr (ne_of_quiet hc hq)
    rw [quotedText?_cons fun hslash => absurd hslash (ne_of_quiet hc (by decide)),
      ih fun d hd => h d (List.mem_cons_of_mem _ hd)]
    simp [hne]

theorem drop_append_of_isPrefixOf {w : List Char} (h : w.isPrefixOf r = true) :
    (r ++ t.chars).drop w.length = r.drop w.length ++ t.chars := by
  rw [List.drop_append_of_le_length (List.isPrefixOf_iff_prefix.mp h).length_le]

theorem quotedText?_append (hq : ¬ Quiet quote) (hslash : quote ≠ '\\') (triple : Bool)
    (r : List Char) :
    quotedText? quote triple (r ++ t.chars) =
      (quotedText? quote triple r).map fun (s, rest) => (s, rest ++ t.chars) := by
  have hquotes : ∀ c ∈ [quote, quote], ¬ Quiet c := by simp [hq]
  obtain ⟨d, more, hd, hquiet⟩ := t.exists_chars
  induction h : r.length using Nat.strongRecOn generalizing r with
  | _ size ih =>
    cases r with
    | nil =>
      rw [List.nil_append, quotedText?_quiet hq triple fun _ hc => Tail.quiet_of_mem hc,
        quotedText?]
      rfl
    | cons c r =>
      have hshort : r.length < size := h ▸ Nat.lt_succ_self _
      by_cases hc : c = '\\'
      · subst hc
        cases r with
        | nil =>
          -- the backslash takes the first character of the tail with it
          have hmore : ∀ c ∈ more, Quiet c := fun c hc =>
            Tail.quiet_of_mem (hd ▸ List.mem_cons_of_mem _ hc)
          have hne : ('\\' == quote) = false := beq_eq_false_iff_ne.mpr hslash.symm
          rw [hd, List.cons_append, List.nil_append, quotedText?_escape,
            quotedText?_quiet hq triple hmore, quotedText?_cons fun _ => rfl, quotedText?]
          simp [hne]
        | cons c r =>
          rw [List.cons_append, List.cons_append, quotedText?_escape, quotedText?_escape,
            ih r.length (Nat.lt_of_succ_lt hshort) r rfl, Option.map_map, Option.map_map]
          rfl
      · rw [List.cons_append, quotedText?_cons fun hslash => absurd hslash hc,
          quotedText?_cons fun hslash => absurd hslash hc, ih r.length hshort r rfl,
          t.isPrefixOf_append hquotes]
        split
        · rfl
        · split
          · next hclose =>
            rw [Bool.and_eq_true] at hclose
            exact congrArg (fun rest => some ([], rest)) (drop_append_of_isPrefixOf t hclose.2)
          · split
            · rfl
            · rw [Option.map_map, Option.map_map]
              rfl

theorem quotedText?_suffix {triple : Bool} (h : quotedText? quote triple r = some (inner, rest)) :
    rest <:+ r := by
  induction hlen : r.length using Nat.strongRecOn generalizing r inner with
  | _ size ih =>
    match r with
    | [] => cases h
    | c :: r =>
      have hshort : r.length < size := hlen ▸ Nat.lt_succ_self _
      by_cases hslash : c = '\\' ∧ r ≠ []
      · obtain ⟨rfl, hne⟩ := hslash
        obtain ⟨d, r, rfl⟩ := List.exists_cons_of_ne_nil hne
        rw [quotedText?_escape, Option.map_eq_some_iff] at h
        obtain ⟨⟨s, rest'⟩, h, heq⟩ := h
        cases heq
        exact (ih r.length (Nat.lt_of_succ_lt hshort) h rfl).trans
          ((List.suffix_cons ..).trans (List.suffix_cons ..))
      · rw [quotedText?_cons fun hc => Decidable.byContradiction fun hne => hslash ⟨hc, hne⟩] at h
        split at h
        · cases h
          exact List.suffix_cons ..
        · split at h
          · cases h
            exact (List.drop_suffix 2 r).trans (List.suffix_cons ..)
          · split at h
            · cases h
            · obtain ⟨⟨s, rest'⟩, h, heq⟩ := Option.map_eq_some_iff.mp h
              cases heq
              exact (ih r.length hshort h rfl).trans (List.suffix_cons ..)

/-- What is between the quotes of a text, of which the first has been read, and what follows them.
-/
def openedText? (quote : Char) (s : List Char) : Option (List Char × List Char) :=
  if [quote, quote].isPrefixOf s then quotedText? quote true (s.drop 2)
  else quotedText? quote false s

theorem openedText?_append (hq : ¬ Quiet quote) (hslash : quote ≠ '\\') (r : List Char) :
    openedText? quote (r ++ t.chars) =
      (openedText? quote r).map fun (s, rest) => (s, rest ++ t.chars) := by
  unfold openedText?
  rw [t.isPrefixOf_append (by simp [hq])]
  split
  · next hopen =>
    rw [← quotedText?_append t hq hslash]
    exact congrArg _ (drop_append_of_isPrefixOf t hopen)
  · exact quotedText?_append t hq hslash false r

theorem openedText?_suffix (h : openedText? quote r = some (inner, rest)) : rest <:+ r := by
  unfold openedText? at h
  split at h
  · exact (quotedText?_suffix h).trans (List.drop_suffix 2 r)
  · exact quotedText?_suffix h

theorem textAt?_eq (marker : String) (quote : Char) (s : List Char) :
    textAt? marker quote s = (openedText? quote s).bind fun (inner, rest) =>
      (textToken? marker inner).map fun token => (token, rest) := by
  unfold textAt? openedText?
  dsimp only [Option.bind_eq_bind]
  split <;> simp [Option.map_eq_bind]

theorem textAt?_append (marker : String) (hq : ¬ Quiet quote) (hslash : quote ≠ '\\')
    (r : List Char) :
    textAt? marker quote (r ++ t.chars) =
      (textAt? marker quote r).map fun (token, rest) => (token, rest ++ t.chars) := by
  rw [textAt?_eq, textAt?_eq, openedText?_append t hq hslash]
  cases openedText? quote r with
  | none => rfl
  | some found => simp [Function.comp_def]

theorem textAt?_suffix {marker : String} {token : Token}
    (h : textAt? marker quote r = some (token, rest)) : rest <:+ r := by
  rw [textAt?_eq, Option.bind_eq_some_iff] at h
  obtain ⟨⟨inner, rest'⟩, hopened, h⟩ := h
  obtain ⟨_, -, heq⟩ := Option.map_eq_some_iff.mp h
  cases heq
  exact openedText?_suffix hopened

end Texts

end RouteStubs.Body
