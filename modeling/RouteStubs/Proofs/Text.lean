import RouteStubs.Text.Basic

/-!
# Texts in pieces

What the rules on text do to a text that is put together from others.

## Main statements

* `Text.pieces_append_sep`, `Text.pieces_of_notMem`: the pieces of a text.
* `Text.pieces_flatMap`, `Text.flatMap_pieces`: the pieces of a text and the text of some pieces.
* `Text.mem_of_mem_replaceFrom`, `Text.replace_singleton_cons`: replacements.
* `Text.trim_within`, `Text.trim_eq_self`: texts without the characters of a class at their ends.
-/

namespace RouteStubs.Text

variable {sep c d : Char} {s : List Char} {drop : Char → Bool}

/-! ### Pieces -/

theorem pieces_of_notMem (h : sep ∉ s) : pieces sep s = [s] := by
  induction s with
  | nil => rfl
  | cons c rest ih =>
    rw [List.mem_cons, not_or] at h
    rw [pieces, if_neg (Ne.symm h.1), ih h.2]

/-- At a separator the pieces before it end, and those after it start. -/
theorem pieces_append_sep (sep : Char) (s more : List Char) :
    pieces sep (s ++ sep :: more) = pieces sep s ++ pieces sep more := by
  induction s with
  | nil => simp [pieces]
  | cons c rest ih =>
    rw [List.cons_append, pieces, pieces]
    split
    · rw [ih, List.cons_append]
    · rw [ih]
      cases hp : pieces sep rest with
      | nil => exact absurd hp (pieces_ne_nil sep rest)
      | cons first others => rfl

/-- The pieces of a text, with a separator before each of them, are the text. -/
theorem flatMap_pieces (sep : Char) (s : List Char) :
    (pieces sep s).flatMap (sep :: ·) = sep :: s := by
  induction s with
  | nil => rfl
  | cons c s ih =>
    rw [pieces]
    split
    · next hc => rw [List.flatMap_cons, ih, hc]; rfl
    · cases hp : pieces sep s with
      | nil => exact absurd hp (pieces_ne_nil sep s)
      | cons first others =>
        rw [hp, List.flatMap_cons, List.cons_append, List.cons.injEq] at ih
        simp [ih.2]

theorem notMem_of_mem_pieces {sep : Char} {s piece : List Char} (h : piece ∈ pieces sep s) :
    sep ∉ piece := by
  induction s generalizing piece with
  | nil =>
    obtain rfl := List.mem_singleton.mp h
    exact List.not_mem_nil
  | cons c s ih =>
    rw [pieces] at h
    split at h
    · rcases List.mem_cons.mp h with rfl | h
      · exact List.not_mem_nil
      · exact ih h
    · next hc =>
      cases hp : pieces sep s with
      | nil => exact absurd hp (pieces_ne_nil sep s)
      | cons first others =>
        rw [hp] at h ih
        rcases List.mem_cons.mp h with rfl | h
        · rw [List.mem_cons, not_or]
          exact ⟨Ne.symm hc, ih List.mem_cons_self⟩
        · exact ih (List.mem_cons_of_mem _ h)

/-- What has no separators in it is read back from a text with a separator before each of them. -/
theorem pieces_flatMap {sep : Char} {w : List Char} {ws : List (List Char)} (hw : sep ∉ w)
    (hws : ∀ w ∈ ws, sep ∉ w) : pieces sep (w ++ ws.flatMap (sep :: ·)) = w :: ws := by
  induction ws generalizing w with
  | nil => rw [List.flatMap_nil, List.append_nil, pieces_of_notMem hw]
  | cons u ws ih =>
    rw [List.forall_mem_cons] at hws
    rw [List.flatMap_cons, List.cons_append, pieces_append_sep, pieces_of_notMem hw, ih hws.1 hws.2]
    rfl

/-! ### Replacements -/

/-- What is in a text after a replacement comes from the text or from what was put there. -/
theorem mem_of_mem_replaceFrom {pattern by_ : List Char} {skip : Nat}
    (h : c ∈ replaceFrom pattern by_ skip s) : c ∈ s ∨ c ∈ by_ := by
  induction s generalizing skip with
  | nil => cases skip <;> cases h
  | cons d rest ih =>
    cases skip with
    | succ skip => exact (ih h).imp_left (List.mem_cons_of_mem _)
    | zero =>
      rw [replaceFrom] at h
      split at h
      · rcases List.mem_append.mp h with h | h
        · exact .inr h
        · exact (ih h).imp_left (List.mem_cons_of_mem _)
      · rcases List.mem_cons.mp h with rfl | h
        · exact .inl List.mem_cons_self
        · exact (ih h).imp_left (List.mem_cons_of_mem _)

/-- Replacing a single character goes character by character. -/
theorem replace_singleton_cons (by_ : List Char) :
    replace [d] by_ (c :: s) = (if c = d then by_ else [c]) ++ replace [d] by_ s := by
  by_cases hc : c = d
  · simp [replace, replaceFrom, hc]
  · simp [replace, replaceFrom, hc, Ne.symm hc]

/-- Where the pattern does not start, a character stays. -/
theorem replace_cons_of_ne {pattern by_ : List Char} (h : c ≠ d) :
    replace (d :: pattern) by_ (c :: s) = c :: replace (d :: pattern) by_ s := by
  simp [replace, replaceFrom, Ne.symm h]

/-! ### Trimming -/

theorem trimRight_front (drop : Char → Bool) (s : List Char) : trimRight drop s <+: s := by
  rw [trimRight, ← List.reverse_suffix, List.reverse_reverse]
  exact List.dropWhile_suffix drop

theorem trim_within (drop : Char → Bool) (s : List Char) : trim drop s <:+: s :=
  (trimRight_front drop _).isInfix.trans (List.dropWhile_suffix drop).isInfix

theorem mem_of_mem_trim (h : c ∈ trim drop s) : c ∈ s := (trim_within drop s).subset h

theorem first_of_trim (h : (trim drop s).head? = some c) : drop c = false := by
  -- what the text starts with after its right end is trimmed, it started with before
  have hleft : (s.dropWhile drop).head? = some c := by
    obtain ⟨more, hmore⟩ := trimRight_front drop (trimLeft drop s)
    obtain ⟨rest, hrest⟩ := List.head?_eq_some_iff.mp h
    rw [← trimLeft, ← hmore, ← trim, hrest]
    rfl
  have hhead := List.head?_dropWhile_not drop s
  rw [hleft] at hhead
  exact hhead

theorem last_of_trim (h : (trim drop s).getLast? = some c) : drop c = false := by
  rw [trim, trimRight, List.getLast?_reverse] at h
  have hhead := List.head?_dropWhile_not drop (trimLeft drop s).reverse
  rw [h] at hhead
  exact hhead

/-- A text with no characters of the class at its ends stays as it is. -/
theorem trim_eq_self (hfirst : ∀ c, s.head? = some c → drop c = false)
    (hlast : ∀ c, s.getLast? = some c → drop c = false) : trim drop s = s := by
  have hstays : ∀ t : List Char, (∀ c, t.head? = some c → drop c = false) →
      t.dropWhile drop = t := by
    intro t ht
    cases t with
    | nil => rfl
    | cons c rest => exact List.dropWhile_cons_of_neg (by simp [ht c rfl])
  rw [trim, trimLeft, hstays s hfirst, trimRight, hstays s.reverse, List.reverse_reverse]
  rwa [List.head?_reverse]

end RouteStubs.Text
