import RouteStubs.Proofs.Body.Tail
import RouteStubs.Proofs.Margins
import RouteStubs.Proofs.Prose

/-!
# Docstrings are read back

What stands between three quotes and the next three that are not escaped is read as a docstring, and
then the escapes in it are read. From a description that was made ready for a docstring both steps
give the description back: reading stops right behind it, whatever comes after its quotes, and each
escape in it is one that was put there.

## Main definitions

* `Body.meaning?`: what a text between quotes stands for, with all its escapes read.

## Main statements

* `Body.quotedText?_of_stays`: a text that stays inside its docstring is read to its end.
* `Prose.meaning?_docstringChars`: the escapes of a docstring stand for its description.
* `Prose.docstring_readBack`: a description is read back from its docstring.
-/

namespace RouteStubs

open Text

namespace Body

/-! ### What escapes stand for -/

/-- The character that an escape of one letter stands for. -/
def letterMeaning? : Char → Option Char
  | '\\' => some '\\'
  | '"' => some '"'
  | '\'' => some '\''
  | 'a' => some (Char.ofNat 7)
  | 'b' => some (Char.ofNat 8)
  | 't' => some '\t'
  | 'n' => some '\n'
  | 'v' => some (Char.ofNat 11)
  | 'f' => some (Char.ofNat 12)
  | 'r' => some '\r'
  | _ => none

/-- The character with a number, if there is one. -/
def numbered? (n : Nat) : Option Char := if n.isValidChar then some (Char.ofNat n) else none

/-- A digit to the base eight. -/
def isOctal (c : Char) : Bool := '0' ≤ c && c ≤ '7'

/-- What the escape with the given letter stands for, and how many characters after the letter
belong to it. A line end stands for nothing, and a letter without a meaning for itself and the
backslash; `named` are the characters that have names. -/
def escapeMeaning? (named : List Char → Option Char) (letter : Char) (rest : List Char) :
    Option (List Char × Nat) :=
  let hexadecimal (width : Nat) : Option (List Char × Nat) :=
    if hexRun width rest then
      ((Json.hexNumber? (rest.take width)).bind numbered?).map fun c => ([c], width)
    else none
  if letter == '\n' then some ([], 0)
  else if isOctal letter then
    let digits := letter :: (rest.take 2).takeWhile isOctal
    (numbered? (digits.foldl (fun n c => 8 * n + (c.toNat - 48)) 0)).map fun c =>
      ([c], digits.length - 1)
  else if letter == 'x' then hexadecimal 2
  else if letter == 'u' then hexadecimal 4
  else if letter == 'U' then hexadecimal 8
  else if letter == 'N' then
    match rest with
    | '{' :: more =>
      let name := more.takeWhile (· != '}')
      if name.length < more.length then (named name).map fun c => ([c], name.length + 2) else none
    | _ => none
  else match letterMeaning? letter with
    | some c => some ([c], 0)
    | none => some (['\\', letter], 0)

/-- `meaningFrom? skip`: what a text between quotes stands for, after `skip` more characters of the
escape just read. -/
def meaningFrom? (named : List Char → Option Char) : Nat → List Char → Option (List Char)
  | _, [] => some []
  | skip + 1, _ :: rest => meaningFrom? named skip rest
  | 0, ['\\'] => none
  | 0, '\\' :: letter :: rest =>
    (escapeMeaning? named letter rest).bind fun (chars, skip) =>
      (meaningFrom? named skip rest).map (chars ++ ·)
  | 0, c :: rest => (meaningFrom? named 0 rest).map (c :: ·)

/-- What a text between quotes stands for, with all its escapes read. -/
def meaning? (named : List Char → Option Char) (s : List Char) : Option (List Char) :=
  meaningFrom? named 0 s

example : meaning? (fun _ => none) "\\x41\\102\\u0043\\n\\d".toList = some "ABC\n\\d".toList := by
  decide

variable {named : List Char → Option Char} {c : Char} {s rest : List Char} {p : Pending}

theorem meaning?_cons (h : c ≠ '\\') :
    meaning? named (c :: s) = (meaning? named s).map (c :: ·) := by
  unfold meaning?
  rw [meaningFrom?]
  · exact fun hc _ => h hc
  · exact fun _ _ hc _ => h hc

theorem meaning?_escape (h : c = '\\' ∨ c = '"') :
    meaning? named ('\\' :: c :: s) = (meaning? named s).map (c :: ·) := by
  have hmeaning : escapeMeaning? named c s = some ([c], 0) := by
    rcases h with rfl | rfl <;> rfl
  unfold meaning?
  rw [meaningFrom?, hmeaning]
  rfl

/-! ### Where a docstring ends -/

/-- With a quote pending, no two more come, neither in the text nor at its end. -/
theorem isPrefixOf_eq_false_of_after {p p' : Pending} (hp : p ≠ .escape) (hq : p.quote = some p')
    (h : p'.after '"' s = some .clear) :
    ['"', '"'].isPrefixOf (s ++ (docstringQuotes ++ rest)) = false := by
  have hpending : p' = .one ∨ p' = .two := by
    cases p <;> simp_all [Pending.quote]
  cases s with
  | nil => rcases hpending with rfl | rfl <;> cases h
  | cons d s =>
    by_cases hd : d = '"'
    · subst hd
      cases s with
      | nil => rcases hpending with rfl | rfl <;> cases h
      | cons e s =>
        have he : e ≠ '"' := by
          rintro rfl
          rcases hpending with rfl | rfl <;> cases h
        simp [List.isPrefixOf, Ne.symm he]
    · simp [List.isPrefixOf, Ne.symm hd]

/-- A text after which nothing is to be decided is read up to the quotes behind it. -/
theorem quotedText?_of_after {p : Pending} (hp : p ≠ .escape) (h : p.after '"' s = some .clear) :
    quotedText? '"' true (s ++ (docstringQuotes ++ rest)) = some (s, rest) := by
  induction hn : s.length using Nat.strongRecOn generalizing s p with
  | _ n ih =>
  subst hn
  cases s with
  | nil => simp [docstringQuotes, quotedText?]
  | cons c s =>
    obtain ⟨p', hc, hs⟩ := Option.bind_eq_some_iff.mp (Pending.after_cons.symm.trans h)
    by_cases hslash : c = '\\'
    · -- the backslash takes the next character with it
      subst hslash
      have hescape : p' = .escape := by
        cases p <;> first | exact absurd rfl hp | exact (Option.some.inj hc).symm
      subst hescape
      cases s with
      | nil => cases hs
      | cons d s =>
        obtain ⟨p', hd, hs⟩ := Option.bind_eq_some_iff.mp (Pending.after_cons.symm.trans hs)
        have hclear : p' = .clear := by
          rw [Pending.next] at hd
          split at hd <;> exact (Option.some.inj hd).symm
        subst hclear
        rw [List.cons_append, List.cons_append, quotedText?_escape,
          ih s.length (by simp only [List.length_cons]; omega) (p := .clear) (by decide) hs rfl]
        rfl
    · have hnext : p' ≠ .escape := by
        rintro rfl
        rw [Pending.next, if_neg hp, if_neg hslash] at hc
        split at hc
        · cases p <;> cases hc
        · cases hc
      have hopen :
          (c == '"' && ['"', '"'].isPrefixOf (s ++ (docstringQuotes ++ rest))) = false := by
        by_cases hquote : c = '"'
        · subst hquote
          rw [isPrefixOf_eq_false_of_after hp (Pending.next_self.symm.trans hc) hs, Bool.and_false]
        · simp [hquote]
      rw [List.cons_append, quotedText?_cons fun hc => absurd hc hslash, hopen,
        ih s.length (by simp) hnext hs rfl]
      simp

/-- A text that stays inside its docstring is read to its end, whatever comes after. -/
theorem quotedText?_of_stays (h : Stays s) (rest : List Char) :
    quotedText? '"' true (s ++ (docstringQuotes ++ rest)) = some (s, rest) :=
  quotedText?_of_after (by decide) h

end Body

namespace Prose

open Body

variable {named : List Char → Option Char} {s : List Char}

/-! ### What a docstring stands for -/

/-- Doubled backslashes stand for the backslashes themselves. -/
theorem meaning?_replace_append (s rest : List Char) :
    meaning? named (replace ['\\'] ['\\', '\\'] s ++ rest) =
      (meaning? named rest).map (s ++ ·) := by
  induction s with
  | nil => simp [replace, replaceFrom]
  | cons c s ih =>
    rw [replace_singleton_cons, List.append_assoc]
    split
    · next hc =>
      subst hc
      rw [List.cons_append, List.cons_append, List.nil_append, meaning?_escape (.inl rfl), ih,
        Option.map_map]
      rfl
    · next hc =>
      rw [List.cons_append, List.nil_append, meaning?_cons hc, ih, Option.map_map]
      rfl

/-- The backslash before a quote at the end adds nothing. -/
theorem meaning?_escapeLastQuote (s : List Char) :
    meaning? named (escapeLastQuote (replace ['\\'] ['\\', '\\'] s)) = some s := by
  have hdoubled : meaning? named (replace ['\\'] ['\\', '\\'] s) = some s := by
    have happend : meaning? named (replace ['\\'] ['\\', '\\'] s ++ []) =
        (meaning? named []).map (s ++ ·) := meaning?_replace_append s []
    rwa [List.append_nil, show meaning? named [] = some [] from rfl, Option.map_some,
      List.append_nil] at happend
  rcases List.eq_nil_or_concat' s with rfl | ⟨front, c, rfl⟩
  · exact hdoubled
  rw [replace_concat] at hdoubled ⊢
  split at hdoubled
  · next hc =>
    rw [if_pos hc, show ['\\', '\\'] = ['\\'] ++ ['\\'] from rfl, ← List.append_assoc,
      escapeLastQuote_concat, if_neg (by decide), List.append_assoc]
    exact hdoubled
  · next hc =>
    rw [if_neg hc, escapeLastQuote_concat]
    split
    · next hq =>
      subst hq
      rw [meaning?_replace_append, meaning?_escape (.inr rfl)]
      rfl
    · exact hdoubled

/-- The backslashes before three quotes add nothing, as none of the quotes has one before it. -/
theorem meaning?_replace (h : Escaped s) :
    meaning? named (replace threeQuotes threeEscaped s) = meaning? named s := by
  induction hn : s.length using Nat.strongRecOn generalizing s with
  | _ n ih =>
  subst hn
  cases h with
  | nil => rfl
  | lastQuote => rfl
  | @backslash rest h =>
    rw [replace_of_unlike (by simp [threeQuotes]), replace_of_unlike (by simp [threeQuotes]),
      meaning?_escape (.inl rfl), meaning?_escape (.inl rfl),
      ih rest.length (by simp only [List.length_cons]; omega) h rfl]
  | @plain c rest hc hq h =>
    by_cases hthree : threeQuotes <+: c :: rest
    · obtain ⟨more, hmore⟩ := hthree
      have hescaped : Escaped more := Escaped.of_threeQuotes (hmore ▸ .plain hc hq h)
      have hshort : more.length < (c :: rest).length := by
        rw [← hmore, List.length_append]
        exact Nat.lt_add_of_pos_left (by decide)
      rw [← hmore]
      -- three quotes are three quotes, with backslashes or without
      have hwith : replace threeQuotes threeEscaped (threeQuotes ++ more) =
          threeEscaped ++ replace threeQuotes threeEscaped more := rfl
      rw [hwith]
      simp only [threeEscaped, threeQuotes, List.cons_append, List.nil_append]
      rw [meaning?_escape (.inr rfl), meaning?_escape (.inr rfl), meaning?_escape (.inr rfl),
        meaning?_cons (by decide), meaning?_cons (by decide), meaning?_cons (by decide)]
      rw [← threeEscaped, ← threeQuotes, ih more.length hshort hescaped rfl]
    · rw [replace_of_unlike hthree, meaning?_cons hc, meaning?_cons hc,
        ih rest.length (by simp) h rfl]

/-- The escapes of a docstring stand for its description. -/
theorem meaning?_docstringChars (s : List Char) :
    meaning? named (docstringChars s) = some (cleanChars s) :=
  (meaning?_replace (escaped_escapeLastQuote _)).trans (meaning?_escapeLastQuote _)

/-! ### What is left of blanks -/

/-- The only blanks in a docstring are spaces. -/
theorem eq_space_of_mem_docstringChars {c : Char} (h : c ∈ docstringChars s)
    (hb : isBlank c = true) : c = ' ' := by
  rcases mem_of_mem_docstringChars h with h | rfl | rfl
  · exact eq_space_of_mem_collapse (mem_of_mem_trim h) hb
  · exact absurd hb (by decide)
  · exact absurd hb (by decide)

/-- Where the only blanks are spaces, no line ends. -/
theorem isLineEnd_eq_false {c : Char} (h : isBlank c = true → c = ' ') : isLineEnd c = false := by
  by_cases hb : isBlank c = true
  · rw [h hb]
    decide
  · exact isLineEnd_of_isBlank (Bool.not_eq_true _ ▸ hb)

/-- A description is read back from its docstring: whatever comes after the three quotes at its end,
what is read between the quotes is what was put there, its escapes stand for the description, and no
line ends in it. -/
theorem docstring_readBack (named : List Char → Option Char) (s : String) (rest : List Char) :
    quotedText? '"' true ((docstring s).toList ++ (docstringQuotes ++ rest)) =
        some ((docstring s).toList, rest) ∧
    meaning? named (docstring s).toList = some (clean s).toList ∧
    (∀ c ∈ (docstring s).toList, isLineEnd c = false) ∧
    ∀ c ∈ (clean s).toList, isLineEnd c = false := by
  refine ⟨quotedText?_of_stays (stays_docstring s) rest, ?_, fun c hc => ?_, fun c hc => ?_⟩
  · rw [docstring, clean, onChars, onChars, String.toList_ofList, String.toList_ofList]
    exact meaning?_docstringChars s.toList
  · rw [docstring, onChars, String.toList_ofList] at hc
    exact isLineEnd_eq_false (eq_space_of_mem_docstringChars hc)
  · rw [clean, onChars, String.toList_ofList] at hc
    exact isLineEnd_eq_false (eq_space_of_mem_collapse (mem_of_mem_trim hc))

end Prose

end RouteStubs
