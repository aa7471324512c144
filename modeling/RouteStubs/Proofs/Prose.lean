import RouteStubs.Proofs.HandlerName
import RouteStubs.Proofs.Reading
import RouteStubs.Proofs.Text

/-!
# Descriptions stay where they are put

A description that has been cleaned is one line, and one that has been made ready for a docstring does
not end the docstring: each backslash is doubled, no three quotes are left side by side, and the last
character is no quote.

## Main definitions

* `Prose.Escaped`: backslashes stand in pairs, and a quote at the end has one before it.

## Main statements

* `Prose.endsLine_clean`, `Prose.endsLine_docstring`: a description is one line.
* `Prose.stays_docstring`: a description does not end the docstring that it stands in.
-/

namespace RouteStubs

namespace Text

variable {c d : Char} {s : List Char}

theorem isBlank_of_endsLine (h : endsLine c = true) : isBlank c = true ∧ c ≠ ' ' := by
  simp only [endsLine, Bool.or_eq_true, decide_eq_true_eq] at h
  rcases h with rfl | rfl <;> decide

/-- The only blanks that are left are spaces. -/
theorem eq_space_of_mem_collapse (h : c ∈ collapse s) (hb : isBlank c = true) : c = ' ' := by
  induction s with
  | nil => cases h
  | cons d rest ih =>
    unfold collapse at h
    split at h
    · split at h
      · exact List.mem_singleton.mp h
      · split at h
        · exact ih h
        · rcases List.mem_cons.mp h with rfl | h
          · rfl
          · exact ih h
    · next hd =>
      rcases List.mem_cons.mp h with rfl | h
      · exact absurd hb hd
      · exact ih h

end Text

namespace Prose

open Text

variable {c : Char} {s : List Char}

/-! ### One line -/

theorem endsLine_cleanChars (h : c ∈ cleanChars s) : endsLine c = false := by
  by_contra hends
  rw [Bool.not_eq_false] at hends
  obtain ⟨hblank, hne⟩ := isBlank_of_endsLine hends
  exact hne (eq_space_of_mem_collapse (mem_of_mem_trim h) hblank)

theorem mem_of_mem_escapeLastQuote (h : c ∈ escapeLastQuote s) : c ∈ s ∨ c ∈ ['\\', '"'] := by
  unfold escapeLastQuote at h
  split at h
  · cases h
  · next d before hs =>
    split at h
    · rcases List.mem_append.mp h with h | h
      · refine .inl (List.mem_reverse.mp ?_)
        rw [hs]
        exact List.mem_cons_of_mem _ (List.mem_reverse.mp h)
      · exact .inr h
    · exact .inl h

/-- A docstring has the characters of the description, and backslashes and quotes. -/
theorem mem_of_mem_docstringChars (h : c ∈ docstringChars s) :
    c ∈ cleanChars s ∨ c = '\\' ∨ c = '"' := by
  have hadded : ∀ d ∈ ['\\', '"', '\\', '"', '\\', '"'], d = '\\' ∨ d = '"' := by simp
  rcases mem_of_mem_replaceFrom h with h | h
  · rcases mem_of_mem_escapeLastQuote h with h | h
    · exact (mem_of_mem_replaceFrom h).imp_right fun h => .inl (by simpa using h)
    · exact .inr (by simpa using h)
  · exact .inr (hadded c h)

theorem endsLine_docstringChars (h : c ∈ docstringChars s) : endsLine c = false := by
  rcases mem_of_mem_docstringChars h with h | rfl | rfl
  · exact endsLine_cleanChars h
  · decide
  · decide

/-- A description is one line. -/
theorem endsLine_clean (s : String) : ∀ c ∈ (clean s).toList, endsLine c = false := by
  intro c hc
  rw [clean, onChars, String.toList_ofList] at hc
  exact endsLine_cleanChars hc

/-- A description in a docstring is one line. -/
theorem endsLine_docstring (s : String) : ∀ c ∈ (docstring s).toList, endsLine c = false := by
  intro c hc
  rw [docstring, onChars, String.toList_ofList] at hc
  exact endsLine_docstringChars hc

/-! ### Inside a docstring -/

/-- Backslashes stand in pairs, except that one may stand before a quote at the end; there, no quote
stands without. -/
inductive Escaped : List Char → Prop
  | nil : Escaped []
  | lastQuote : Escaped ['\\', '"']
  | backslash {s : List Char} (h : Escaped s) : Escaped ('\\' :: '\\' :: s)
  | plain {c : Char} {s : List Char} (hc : c ≠ '\\') (hq : c = '"' → s ≠ []) (h : Escaped s) :
    Escaped (c :: s)

/-- With its backslashes doubled, a text followed by an escaped quote is escaped. -/
theorem escaped_append_lastQuote (s : List Char) :
    Escaped (replace ['\\'] ['\\', '\\'] s ++ ['\\', '"']) := by
  induction s with
  | nil => exact .lastQuote
  | cons c rest ih =>
    rw [replace_singleton_cons, List.append_assoc]
    split
    · exact .backslash ih
    · next hc => exact .plain hc (fun _ => by simp) ih

/-- With its backslashes doubled, a text that does not end in a quote is escaped. -/
theorem escaped_of_getLast? (h : s.getLast? ≠ some '"') :
    Escaped (replace ['\\'] ['\\', '\\'] s) := by
  induction s with
  | nil => exact .nil
  | cons c rest ih =>
    have hrest : rest.getLast? ≠ some '"' := by
      intro hlast
      obtain ⟨front, rfl⟩ := List.getLast?_eq_some_iff.mp hlast
      rw [← List.cons_append, List.getLast?_concat] at h
      exact h rfl
    rw [replace_singleton_cons]
    split
    · exact .backslash (ih hrest)
    · next hc =>
      refine .plain hc ?_ (ih hrest)
      rintro rfl hempty
      cases rest with
      | nil => exact h rfl
      | cons d more =>
        rw [replace_singleton_cons] at hempty
        split at hempty <;> cases hempty

/-- The last character of a text with its backslashes doubled. -/
theorem replace_concat (s : List Char) (c : Char) :
    replace ['\\'] ['\\', '\\'] (s ++ [c]) =
      replace ['\\'] ['\\', '\\'] s ++ if c = '\\' then ['\\', '\\'] else [c] := by
  induction s with
  | nil =>
    rw [List.nil_append, replace_singleton_cons]
    simp [replace, replaceFrom]
  | cons d rest ih =>
    rw [List.cons_append, replace_singleton_cons, replace_singleton_cons, ih, List.append_assoc]

theorem escapeLastQuote_concat (s : List Char) (c : Char) :
    escapeLastQuote (s ++ [c]) = if c = '"' then s ++ ['\\', '"'] else s ++ [c] := by
  simp [escapeLastQuote]

theorem escaped_escapeLastQuote (s : List Char) :
    Escaped (escapeLastQuote (replace ['\\'] ['\\', '\\'] s)) := by
  rcases List.eq_nil_or_concat' s with rfl | ⟨front, c, rfl⟩
  · exact .nil
  by_cases hq : c = '"'
  · subst hq
    rw [replace_concat, if_neg (by decide), escapeLastQuote_concat, if_pos rfl]
    exact escaped_append_lastQuote front
  · have hlast : (front ++ [c]).getLast? ≠ some '"' := by simp [hq]
    have hescaped := escaped_of_getLast? hlast
    have hkept : escapeLastQuote (replace ['\\'] ['\\', '\\'] (front ++ [c])) =
        replace ['\\'] ['\\', '\\'] (front ++ [c]) := by
      rw [replace_concat]
      split
      · rw [show ['\\', '\\'] = ['\\'] ++ ['\\'] from rfl, ← List.append_assoc,
          escapeLastQuote_concat, if_neg (by decide)]
      · rw [escapeLastQuote_concat, if_neg hq]
    rwa [hkept]

/-- The quotes that are pending and those that come next are less than three. -/
def Few : Pending → List Char → Prop
  | .clear, _ => True
  | .one, s => s ≠ [] ∧ ¬ ['"', '"'] <+: s
  | .two, s => s ≠ [] ∧ ¬ ['"'] <+: s
  | .escape, _ => False

/-- The run of three quotes that is looked for. -/
def threeQuotes : List Char := ['"', '"', '"']

/-- What comes in the place of three quotes. -/
def threeEscaped : List Char := ['\\', '"', '\\', '"', '\\', '"']

theorem replace_of_unlike (h : ¬ threeQuotes <+: c :: s) :
    replace threeQuotes threeEscaped (c :: s) = c :: replace threeQuotes threeEscaped s := by
  rw [replace, replaceFrom, if_neg (by rwa [List.isPrefixOf_iff_prefix])]
  rfl

theorem Escaped.of_threeQuotes (h : Escaped (threeQuotes ++ s)) : Escaped s := by
  cases h with
  | plain _ _ h =>
    cases h with
    | plain _ _ h =>
      cases h with
      | plain _ _ h => exact h

/-- When all runs of three quotes are escaped, nothing ends the docstring. -/
theorem after_replace (h : Escaped s) {p : Pending} (hp : Few p s) :
    p.after '"' (replace threeQuotes threeEscaped s) = some .clear := by
  induction hn : s.length using Nat.strongRecOn generalizing s p with
  | _ n ih =>
  subst hn
  cases h with
  | nil =>
    cases p with
    | clear => rfl
    | escape => cases hp
    | one => exact absurd rfl hp.1
    | two => exact absurd rfl hp.1
  | lastQuote => cases p <;> first | rfl | cases hp
  | @backslash rest h =>
    have hrest := ih rest.length (by simp only [List.length_cons]; omega) h (p := .clear) trivial rfl
    rw [replace_of_unlike (by simp [threeQuotes]), replace_of_unlike (by simp [threeQuotes])]
    cases p with
    | escape => cases hp
    | _ => exact hrest
  | @plain c rest hc hq h =>
    by_cases hquote : c = '"'
    · subst hquote
      by_cases hthree : threeQuotes <+: '"' :: rest
      · obtain ⟨more, hmore⟩ := hthree
        rw [← hmore] at hp ⊢
        obtain rfl : rest = ['"', '"'] ++ more := (List.cons.inj hmore).2.symm
        have hescaped : Escaped more := Escaped.of_threeQuotes (.plain hc hq h)
        -- so many quotes can only come when none is pending
        cases p with
        | clear =>
          exact ih more.length (by simp only [List.length_cons, List.length_append]; omega) hescaped
            (p := .clear) trivial rfl
        | escape => cases hp
        | one => exact absurd ⟨_, rfl⟩ hp.2
        | two => exact absurd ⟨_, rfl⟩ hp.2
      · rw [replace_of_unlike hthree]
        cases p with
        | clear =>
          refine ih rest.length (by simp) h (p := .one) ⟨hq rfl, fun hpre => hthree ?_⟩ rfl
          exact List.cons_prefix_cons.mpr ⟨rfl, hpre⟩
        | escape => cases hp
        | one =>
          refine ih rest.length (by simp) h (p := .two) ⟨hq rfl, fun hpre => hp.2 ?_⟩ rfl
          exact List.cons_prefix_cons.mpr ⟨rfl, hpre⟩
        | two => exact absurd (List.cons_prefix_cons.mpr ⟨rfl, List.nil_prefix⟩) hp.2
    · rw [replace_of_unlike (fun hpre => hquote (List.cons_prefix_cons.mp hpre).1.symm),
        Pending.after_cons, Pending.next_of_ne hquote hc, Option.bind_some]
      exact ih rest.length (by simp) h (p := .clear) trivial rfl

theorem stays_docstringChars (s : List Char) : Stays (docstringChars s) :=
  after_replace (escaped_escapeLastQuote _) trivial

/-- A description does not end the docstring that it stands in. -/
theorem stays_docstring (s : String) : Stays (docstring s).toList := by
  rw [docstring, onChars, String.toList_ofList]
  exact stays_docstringChars s.toList

end Prose

end RouteStubs
