import RouteStubs.Proofs.Body.Tail

/-!
# The tokens of a source with a tail

What a scanner does is settled before the tail of its source. So two sources that differ in their
tails alone have the same tokens: spaces and tabs at the end of a source do not matter, and neither
do blank lines after it, unless it ends in a backslash.

## Main definitions

* `Scanner.extend`: a scanner with a tail after its text.
* `Scanner.Settled`: what a step can do before the tail.

## Main statements

* `Scanner.startLine?_settled`, `Scanner.insideLine?_settled`: each step is settled.
* `Scanner.tokens?_extend`: the tokens are the same for all tails.
-/

namespace RouteStubs.Body

open Text

section SlashFits

variable {slash : Bool}

/-- A text that ends in a backslash has no blank lines after it. -/
def SlashFits (slash : Bool) (r : List Char) : Prop := r.getLast? = some '\\' → slash = true

theorem SlashFits.of_suffix {r r' : List Char} (h : SlashFits slash r) (hr : r' <:+ r) :
    SlashFits slash r' := by
  obtain ⟨first, rfl⟩ := hr
  intro hlast
  exact h (by rw [List.getLast?_append, hlast, Option.some_or])

end SlashFits

/-! ### Steps of a scanner -/

namespace Scanner

/-- The scanner with a tail after its text. -/
def extend {slash : Bool} (s : Scanner) (t : Tail slash) : Scanner :=
  { s with rest := s.rest ++ t.chars }

variable {slash : Bool} {s next : Scanner} {tokens : List Token} (t : Tail slash)

/-- The letters before the quotes of a text, the first quote and what follows it, if a text starts
after the letters. -/
def textStart? (letters rest : List Char) : Option (String × Char × List Char) :=
  match rest with
  | c :: after =>
    if c == '"' || c == '\'' then (textMarker? letters).map fun marker => (marker, c, after)
    else none
  | [] => none

theorem word?_eq (s : Scanner) :
    s.word? =
      match textStart? (s.rest.takeWhile isWordChar) (s.rest.dropWhile isWordChar) with
      | some (marker, quote, after) =>
        (textAt? marker quote after).map fun (token, rest) => ([token], { s with rest := rest })
      | none =>
        if isIdentifier (s.rest.takeWhile isWordChar) then
          some ([.word (String.ofList (s.rest.takeWhile isWordChar))],
            { s with rest := s.rest.dropWhile isWordChar })
        else none := by
  unfold word? textStart?
  rw [List.span_eq_takeWhile_dropWhile]
  generalize s.rest.takeWhile isWordChar = letters
  cases s.rest.dropWhile isWordChar with
  | nil =>
    dsimp only
    cases isIdentifier letters <;> rfl
  | cons c after =>
    dsimp only
    split
    · cases textMarker? letters with
      | none => cases isIdentifier letters <;> rfl
      | some marker => cases h : textAt? marker c after <;> simp [h]
    · cases isIdentifier letters <;> rfl

theorem textStart?_append (letters rest : List Char) :
    textStart? letters (rest ++ t.chars) =
      (textStart? letters rest).map fun (marker, quote, after) =>
        (marker, quote, after ++ t.chars) := by
  cases rest with
  | nil =>
    obtain ⟨d, more, hd, hq⟩ := t.exists_chars
    have hdouble : d ≠ '"' := ne_of_quiet hq (by decide)
    have hsingle : d ≠ '\'' := ne_of_quiet hq (by decide)
    simp [textStart?, hd, hdouble, hsingle]
  | cons c after =>
    simp only [List.cons_append, textStart?]
    split
    · rw [Option.map_map]
      rfl
    · rfl

theorem quote_of_textStart? {letters rest after : List Char} {marker : String} {quote : Char}
    (h : textStart? letters rest = some (marker, quote, after)) :
    (quote = '"' ∨ quote = '\'') ∧ rest = quote :: after := by
  unfold textStart? at h
  split at h
  · split at h
    · next hquote =>
      obtain ⟨_, -, heq⟩ := Option.map_eq_some_iff.mp h
      cases heq
      simpa using hquote
    · cases h
  · cases h

theorem word?_extend (s : Scanner) :
    (s.extend t).word? = s.word?.map fun (tokens, next) => (tokens, next.extend t) := by
  obtain ⟨htake, hdrop⟩ := t.takeWhile_append isWordChar_of_quiet s.rest
  rw [word?_eq, word?_eq]
  simp only [extend, htake, hdrop, textStart?_append]
  cases h : textStart? (s.rest.takeWhile isWordChar) (s.rest.dropWhile isWordChar) with
  | none =>
    dsimp only [Option.map_none]
    split <;> rfl
  | some found =>
    obtain ⟨marker, quote, after⟩ := found
    have hquote := (quote_of_textStart? h).1
    have hq : ¬ Quiet quote := by rcases hquote with rfl | rfl <;> decide
    have hslash : quote ≠ '\\' := by rcases hquote with rfl | rfl <;> decide
    simp only [Option.map_some, textAt?_append t marker hq hslash, Option.map_map]
    rfl

/-- What is left after a word is a part of what follows its first character. -/
theorem word?_suffix {c : Char} {r : List Char} (hs : s.rest = c :: r) (hc : isWordChar c = true)
    (h : s.word? = some (tokens, next)) :
    next = { s with rest := next.rest } ∧ next.rest <:+ r := by
  have hdrop : s.rest.dropWhile isWordChar <:+ r := by
    rw [hs, List.dropWhile_cons_of_pos hc]
    exact List.dropWhile_suffix _
  rw [word?_eq] at h
  split at h
  · next marker quote after hstart =>
    obtain ⟨⟨token, rest⟩, htext, heq⟩ := Option.map_eq_some_iff.mp h
    cases heq
    refine ⟨rfl, (textAt?_suffix htext).trans ?_⟩
    rw [(quote_of_textStart? hstart).2] at hdrop
    exact (List.suffix_cons ..).trans hdrop
  · split at h
    · cases h
      exact ⟨rfl, hdrop⟩
    · cases h

/-- The mark that a text starts with. -/
def markOf? (s : List Char) : Option String := marks.find? fun m => m.toList.isPrefixOf s

theorem markOf?_append (s : List Char) : markOf? (s ++ t.chars) = markOf? s := by
  have hloud : ∀ mark ∈ marks, isLoud mark = true := by decide
  exact List.find?_congr fun mark hm => t.isPrefixOf_append (not_quiet_of_isLoud (hloud mark hm)) s

theorem isPrefixOf_of_markOf? {s : List Char} {mark : String} (h : markOf? s = some mark) :
    mark.toList.isPrefixOf s = true :=
  List.find?_some (p := fun m : String => m.toList.isPrefixOf s) h

theorem mark?_eq (s : Scanner) :
    s.mark? = (markOf? s.rest).bind fun mark => (bracketsAfter? mark s.opened).map fun opened =>
      ([.mark mark], { s with opened := opened, rest := s.rest.drop mark.length }) := by
  unfold mark? markOf?
  simp [Option.map_eq_bind]

theorem mark?_extend (s : Scanner) :
    (s.extend t).mark? = s.mark?.map fun (tokens, next) => (tokens, next.extend t) := by
  rw [mark?_eq, mark?_eq]
  simp only [extend, markOf?_append]
  cases h : markOf? s.rest with
  | none => rfl
  | some mark =>
    have hdrop := drop_append_of_isPrefixOf t (isPrefixOf_of_markOf? h)
    rw [String.length_toList] at hdrop
    simp [hdrop, Function.comp_def]

theorem mark?_suffix {c : Char} {r : List Char} (hs : s.rest = c :: r)
    (h : s.mark? = some (tokens, next)) :
    next = { s with opened := next.opened, rest := next.rest } ∧ next.rest <:+ r := by
  have hnonempty : ∀ mark ∈ marks, 0 < mark.length := by decide
  rw [mark?_eq, Option.bind_eq_some_iff] at h
  obtain ⟨mark, hmark, h⟩ := h
  obtain ⟨opened, -, heq⟩ := Option.map_eq_some_iff.mp h
  cases heq
  refine ⟨rfl, ?_⟩
  obtain ⟨n, hn⟩ := Nat.exists_eq_succ_of_ne_zero
    (Nat.pos_iff_ne_zero.mp (hnonempty mark (List.mem_of_find?_eq_some hmark)))
  rw [hs, hn, List.drop_succ_cons]
  exact List.drop_suffix n r

theorem insideLine?_cons {c : Char} {r : List Char} (hs : s.rest = c :: r) :
    s.insideLine? =
      if isGap c then some ([], { s with rest := r })
      else if c == '#' then some ([], { s with rest := r.dropWhile (· != '\n') })
      else if c == '\n' then
        if s.opened.isEmpty then some ([.lineEnd], { s with atStart := true, rest := r })
        else some ([], { s with rest := r })
      else if c == '\\' then
        match r with
        | '\n' :: d :: after => some ([], { s with rest := d :: after })
        | _ => none
      else if c == '"' || c == '\'' then
        (textAt? "" c r).map fun (token, rest) => ([token], { s with rest := rest })
      else if isAsciiDigit c || (c == '.' && (r.take 1).any isAsciiDigit) then
        (afterNumber? s.rest).map fun rest => ([.number], { s with rest := rest })
      else if isWordChar c then s.word?
      else s.mark? := by
  obtain ⟨atStart, margins, opened, rest⟩ := s
  cases hs
  rfl

theorem dropWhile_append_of_mem {r : List Char} (h : '\n' ∈ r) (more : List Char) :
    (r ++ more).dropWhile (· != '\n') = r.dropWhile (· != '\n') ++ more := by
  induction r with
  | nil => cases h
  | cons c r ih =>
    by_cases hc : c = '\n'
    · subst hc
      rfl
    · simp [hc, ih ((List.mem_cons.mp h).resolve_left (Ne.symm hc))]

theorem dropWhile_append_of_notMem {r : List Char} (h : '\n' ∉ r) :
    (r ++ t.chars).dropWhile (· != '\n') = '\n' :: unlines t.lines := by
  have hline : ∀ c ∈ r ++ t.margin, (c != '\n') = true := by
    intro c hc
    rw [bne_iff_ne]
    rintro rfl
    exact (List.mem_append.mp hc).elim h fun hm => absurd (t.isMargin _ hm) (by decide)
  rw [Tail.chars, ← List.append_assoc, List.dropWhile_append_of_pos hline]
  rfl

/-- The text ends in a comment. -/
def EndsInComment (s : Scanner) : Prop := ∃ r, s.rest = '#' :: r ∧ '\n' ∉ r

theorem insideLine?_extend (hrest : s.rest ≠ []) (hcomment : ¬ s.EndsInComment)
    (hjoint : s.rest ≠ ['\\', '\n']) (hslash : SlashFits slash s.rest) :
    (s.extend t).insideLine? =
      s.insideLine?.map fun (tokens, next) => (tokens, next.extend t) := by
  obtain ⟨c, r, hs⟩ := List.exists_cons_of_ne_nil hrest
  have hs' : (s.extend t).rest = c :: (r ++ t.chars) := by simp [extend, hs]
  rw [insideLine?_cons hs, insideLine?_cons hs']
  split
  · rfl
  split
  · next hc =>
    have hr : '\n' ∈ r := Decidable.byContradiction fun hr =>
      hcomment ⟨r, by rw [hs, beq_iff_eq.mp hc], hr⟩
    rw [dropWhile_append_of_mem hr]
    rfl
  split
  · show (if s.opened.isEmpty then _ else _) = _
    split <;> rfl
  split
  · next hc =>
    match r with
    | [] =>
      rcases t.chars_eq_or with hchars | ⟨d, more, hchars, hd⟩
      · -- there are no lines that the backslash could join to its own
        rw [hchars, t.single (hslash (by rw [hs, beq_iff_eq.mp hc]; rfl))]
        rfl
      · simp [hchars, hd]
    | ['\n'] => exact absurd (hs.trans (by rw [beq_iff_eq.mp hc])) hjoint
    | d :: d' :: after =>
      by_cases hd : d = '\n'
      · subst hd
        rfl
      · simp [hd]
    | [d] =>
      have hd : d ≠ '\n' := by
        rintro rfl
        exact hjoint (hs.trans (by rw [beq_iff_eq.mp hc]))
      simp [hd]
  split
  · next hquote =>
    have hor : c = '"' ∨ c = '\'' := by simpa using hquote
    have hq : ¬ Quiet c := by rcases hor with rfl | rfl <;> decide
    have hne : c ≠ '\\' := by rcases hor with rfl | rfl <;> decide
    rw [textAt?_append t "" hq hne, Option.map_map, Option.map_map]
    rfl
  rw [t.any_take_one isAsciiDigit_of_quiet]
  split
  · show (afterNumber? (s.rest ++ t.chars)).map _ = _
    rw [afterNumber?_append, Option.map_map, Option.map_map]
    rfl
  split
  · exact word?_extend t s
  · exact mark?_extend t s

theorem insideLine?_comment {r : List Char} (hs : s.rest = '#' :: r) (hr : '\n' ∉ r) :
    (s.extend t).insideLine? = some ([], { s with rest := '\n' :: unlines t.lines }) := by
  have hs' : (s.extend t).rest = '#' :: (r ++ t.chars) := by simp [extend, hs]
  rw [insideLine?_cons hs', dropWhile_append_of_notMem t hr]
  rfl

theorem insideLine?_joint (hs : s.rest = ['\\', '\n']) :
    (s.extend t).insideLine? = some ([], Scanner.extend { s with rest := [] } t) := by
  have hs' : (s.extend t).rest = '\\' :: '\n' :: t.chars := by simp [extend, hs]
  obtain ⟨d, more, hd, -⟩ := t.exists_chars
  rw [insideLine?_cons hs', hd]
  simp [isGap, extend, hd]

/-- A step inside a line takes something of the text. -/
theorem insideLine?_shrinks (h : s.insideLine? = some (tokens, next)) :
    s.rest ≠ [] ∧ next.rest <:+ s.rest.tail ∧
      (next.atStart = true → s.atStart = true ∨ next.opened = []) := by
  cases hs : s.rest with
  | nil =>
    rw [insideLine?, hs] at h
    cases h
  | cons c r =>
    refine ⟨List.cons_ne_nil c r, ?_⟩
    rw [List.tail_cons]
    rw [insideLine?_cons hs] at h
    split at h
    · cases h
      exact ⟨List.suffix_rfl, .inl⟩
    split at h
    · cases h
      exact ⟨List.dropWhile_suffix _, .inl⟩
    split at h
    · split at h
      · next hopened =>
        cases h
        exact ⟨List.suffix_rfl, fun _ => .inr (List.isEmpty_iff.mp hopened)⟩
      · cases h
        exact ⟨List.suffix_rfl, .inl⟩
    split at h
    · split at h
      · cases h
        exact ⟨List.suffix_cons .., .inl⟩
      · cases h
    split at h
    · obtain ⟨⟨token, rest⟩, htext, heq⟩ := Option.map_eq_some_iff.mp h
      cases heq
      exact ⟨textAt?_suffix htext, .inl⟩
    split at h
    · next hdigit =>
      obtain ⟨rest, hrest, heq⟩ := Option.map_eq_some_iff.mp h
      cases heq
      rw [hs] at hrest
      exact ⟨afterNumber?_suffix (by simpa using hdigit) hrest, .inl⟩
    split at h
    · next hword =>
      obtain ⟨hnext, hsuffix⟩ := word?_suffix hs hword h
      exact ⟨hsuffix, fun ha => .inl (by rwa [hnext] at ha)⟩
    · obtain ⟨hnext, hsuffix⟩ := mark?_suffix hs h
      exact ⟨hsuffix, fun ha => .inl (by rwa [hnext] at ha)⟩

end Scanner

/-! ### The start of a line -/

/-- A margin ends with its line. -/
theorem marginOf?_line {line : List Char} (h : ∀ c ∈ line, isMargin c = true)
    (wide narrow held : Nat) (more : List Char) :
    ∃ m, marginOf? wide narrow held (line ++ '\n' :: more) = some (m, '\n' :: more) := by
  induction line generalizing wide narrow with
  | nil => exact ⟨_, rfl⟩
  | cons c line ih =>
    obtain ⟨hc, hline⟩ := List.forall_mem_cons.mp h
    simp only [isMargin, Bool.or_eq_true, beq_iff_eq] at hc
    rcases hc with rfl | rfl
    · exact ih hline _ _
    · exact ih hline _ _

/-- A margin takes all of the first line of a tail. -/
theorem marginOf?_chars {slash : Bool} (t : Tail slash) (wide narrow held : Nat) :
    ∃ m, marginOf? wide narrow held t.chars = some (m, '\n' :: unlines t.lines) :=
  marginOf?_line t.isMargin wide narrow held (unlines t.lines)

/-- What a margin leaves is settled before the tail after the text `r`: nothing, since there is no
margin, the end of the line, or what starts with a character of the text. -/
def MarginSettled {slash : Bool} (r : List Char)
    (after : Tail slash → Option (Margin × List Char)) : Prop :=
  (∀ t, after t = none) ∨ (∀ t, ∃ m, after t = some (m, '\n' :: unlines t.lines)) ∨
    ∃ m c rest, c :: rest <:+ r ∧ ∀ t, after t = some (m, c :: rest ++ t.chars)

section MarginSettled

variable {slash : Bool}

theorem MarginSettled.mono {r r' : List Char} {after : Tail slash → Option (Margin × List Char)}
    (h : MarginSettled r after) (hr : r <:+ r') : MarginSettled r' after :=
  h.imp_right <| Or.imp_right fun ⟨m, c, rest, hsuffix, h⟩ => ⟨m, c, rest, hsuffix.trans hr, h⟩

theorem marginSettled (wide narrow held : Nat) {r : List Char} (hslash : SlashFits slash r) :
    MarginSettled r fun t : Tail slash => marginOf? wide narrow held (r ++ t.chars) := by
  fun_induction marginOf? wide narrow held r with
  | case1 wide narrow held rest ih =>
    have hsuffix : rest <:+ ' ' :: rest := List.suffix_cons ..
    exact (ih (hslash.of_suffix hsuffix)).mono hsuffix
  | case2 wide narrow held rest ih =>
    have hsuffix : rest <:+ '\t' :: rest := List.suffix_cons ..
    exact (ih (hslash.of_suffix hsuffix)).mono hsuffix
  | case3 wide narrow held rest ih =>
    have hsuffix : rest <:+ '\x0c' :: rest := List.suffix_cons ..
    exact (ih (hslash.of_suffix hsuffix)).mono hsuffix
  | case4 wide narrow held rest hrest =>
    -- the line is joined to the tail
    rw [List.isEmpty_iff] at hrest
    subst hrest
    refine .inr (.inl fun t => ?_)
    obtain ⟨d, more, hd, -⟩ := t.exists_chars
    obtain ⟨m, hm⟩ := marginOf?_chars t wide narrow (if held = 0 then wide else held)
    refine ⟨m, ?_⟩
    show marginOf? wide narrow held ('\\' :: '\n' :: t.chars) = _
    rw [marginOf?, hm, hd]
    rfl
  | case5 wide narrow held rest hrest ih =>
    have hsuffix : rest <:+ '\\' :: '\n' :: rest :=
      (List.suffix_cons ..).trans (List.suffix_cons ..)
    have hjoint : ∀ t : Tail slash, marginOf? wide narrow held ('\\' :: '\n' :: rest ++ t.chars) =
        marginOf? wide narrow (if held = 0 then wide else held) (rest ++ t.chars) := by
      intro t
      rw [List.cons_append, List.cons_append, marginOf?, if_neg]
      cases rest <;> simp at hrest ⊢
    simp only [hjoint]
    exact (ih (hslash.of_suffix hsuffix)).mono hsuffix
  | case6 wide narrow held rest hrest =>
    refine .inl fun t => ?_
    cases rest with
    | nil =>
      show marginOf? wide narrow held ('\\' :: t.chars) = none
      rcases t.chars_eq_or with hchars | ⟨d, more, hchars, hd⟩
      · rw [hchars, t.single (hslash rfl)]
        rfl
      · rw [hchars, marginOf?]
        rintro rest ⟨⟩
        exact hd rfl
    | cons c rest =>
      show marginOf? wide narrow held ('\\' :: c :: (rest ++ t.chars)) = none
      rw [marginOf?]
      rintro rest' heq
      obtain ⟨rfl, -⟩ := List.cons.inj heq
      exact hrest rest rfl
  | case7 wide narrow held r hspace htab hfeed _ hjoint =>
    cases r with
    | nil => exact .inr (.inl fun t => marginOf?_chars t wide narrow held)
    | cons c rest =>
      refine .inr (.inr ⟨if held = 0 then ⟨wide, narrow⟩ else ⟨held, held⟩, c, rest,
        List.suffix_rfl, fun t => ?_⟩)
      have hfirst : ∀ {d more}, c :: (rest ++ t.chars) = d :: more → c :: rest = d :: rest :=
        fun h => congrArg (· :: rest) (List.cons.inj h).1
      show marginOf? wide narrow held (c :: (rest ++ t.chars)) = _
      rw [marginOf?]
      · rfl
      · exact fun _ h => hspace rest (hfirst h)
      · exact fun _ h => htab rest (hfirst h)
      · exact fun _ h => hfeed rest (hfirst h)
      · exact fun _ h => hjoint rest (hfirst h)
      · exact fun _ h => hjoint rest (hfirst h)

end MarginSettled

namespace Scanner

variable {slash : Bool} {s next : Scanner} {tokens : List Token} (t : Tail slash)

/-- The start of a line after its margin. -/
def afterMargin? (s : Scanner) (margin : Margin) (rest : List Char) :
    Option (List Token × Scanner) :=
  match rest with
  | '\n' :: after => some ([], { s with rest := after })
  | '#' :: comment => some ([], { s with rest := (comment.dropWhile (· != '\n')).drop 1 })
  | _ => (shift? margin s.margins).map fun (tokens, margins) =>
    (tokens, { s with atStart := false, margins := margins, rest := rest })

theorem startLine?_eq (s : Scanner) :
    s.startLine? =
      (marginOf? 0 0 0 s.rest).bind fun (margin, rest) => s.afterMargin? margin rest := by
  unfold startLine? afterMargin?
  cases marginOf? 0 0 0 s.rest with
  | none => rfl
  | some found =>
    obtain ⟨margin, rest⟩ := found
    simp only [Option.bind_eq_bind, Option.bind_some]
    split
    · rfl
    · rfl
    · simp [Option.map_eq_bind]

theorem afterMargin?_of_ne {c : Char} (hline : c ≠ '\n') (hcomment : c ≠ '#') (s : Scanner)
    (margin : Margin) (rest : List Char) :
    s.afterMargin? margin (c :: rest) = (shift? margin s.margins).map fun (tokens, margins) =>
      (tokens, { s with atStart := false, margins := margins, rest := c :: rest }) := by
  unfold afterMargin?
  split
  · next heq => exact absurd (List.cons.inj heq).1 hline
  · next heq => exact absurd (List.cons.inj heq).1 hcomment
  · rfl

theorem exists_dropWhile {r : List Char} (h : '\n' ∈ r) :
    ∃ after, r.dropWhile (· != '\n') = '\n' :: after ∧ '\n' :: after <:+ r := by
  induction r with
  | nil => cases h
  | cons c r ih =>
    by_cases hc : c = '\n'
    · subst hc
      exact ⟨r, rfl, List.suffix_rfl⟩
    · obtain ⟨after, hafter, hsuffix⟩ := ih ((List.mem_cons.mp h).resolve_left (Ne.symm hc))
      exact ⟨after, by simp [hc, hafter], hsuffix.trans (List.suffix_cons ..)⟩

/-- How far a scanner is from the end of its text. -/
def size (s : Scanner) : Nat := 2 * s.rest.length + if s.atStart then 1 else 0

/-- A scanner that may stand before a tail. -/
structure Fit (slash : Bool) (s : Scanner) : Prop where
  /-- Lines start outside brackets. -/
  opened : s.atStart = true → s.opened = []
  slashFits : SlashFits slash s.rest

/-- What a step does is settled before the tail: it fails, it takes the last line that has a token,
or it leaves the tail after a shorter text. -/
inductive Settled (s : Scanner) (after : Tail slash → Option (List Token × Scanner)) : Prop where
  /-- The step fails. -/
  | fails (h : ∀ t, after t = none)
  /-- The last line has no tokens, and the blank lines are left. -/
  | ends (hstart : s.atStart = true)
      (h : ∀ t, after t = some ([], { s with rest := unlines t.lines }))
  /-- The last line has no more tokens, and its end is left. -/
  | comment (hstart : s.atStart = false)
      (h : ∀ t, after t = some ([], { s with rest := '\n' :: unlines t.lines }))
  /-- The tail is left after a shorter text. -/
  | goes (tokens : List Token) (next : Scanner) (hfit : next.Fit slash) (hsize : next.size < s.size)
      (h : ∀ t, after t = some (tokens, next.extend t))

theorem afterMargin?_settled (hfit : s.Fit slash) (hstart : s.atStart = true) (margin : Margin)
    {c : Char} {rest : List Char} (hrest : c :: rest <:+ s.rest) :
    Settled s fun t : Tail slash => s.afterMargin? margin (c :: rest ++ t.chars) := by
  have hlength : rest.length < s.rest.length := hrest.length_le
  by_cases hline : c = '\n'
  · subst hline
    have hslash := hfit.slashFits.of_suffix ((List.suffix_cons ..).trans hrest)
    refine .goes [] { s with rest := rest } ⟨hfit.opened, hslash⟩ ?_ fun t => rfl
    simp only [size]
    omega
  by_cases hcomment : c = '#'
  · subst hcomment
    by_cases hmem : '\n' ∈ rest
    · obtain ⟨after, hafter, hsuffix⟩ := exists_dropWhile hmem
      have hshort : after.length < rest.length := hsuffix.length_le
      have hslash := hfit.slashFits.of_suffix (((List.suffix_cons ..).trans hsuffix).trans
        ((List.suffix_cons ..).trans hrest))
      refine .goes [] { s with rest := after } ⟨hfit.opened, hslash⟩ ?_ fun t => ?_
      · simp only [size]
        omega
      · show some ([], { s with rest := ((rest ++ t.chars).dropWhile (· != '\n')).drop 1 }) = _
        rw [dropWhile_append_of_mem hmem, hafter]
        rfl
    · refine .ends hstart fun t => ?_
      show some ([], { s with rest := ((rest ++ t.chars).dropWhile (· != '\n')).drop 1 }) = _
      rw [dropWhile_append_of_notMem t hmem]
      rfl
  · simp only [List.cons_append, afterMargin?_of_ne hline hcomment]
    cases hshift : shift? margin s.margins with
    | none => exact .fails fun t => rfl
    | some found =>
      refine .goes found.1 { s with atStart := false, margins := found.2, rest := c :: rest }
        ⟨nofun, hfit.slashFits.of_suffix hrest⟩ ?_ fun t => rfl
      simp only [size, hstart, List.length_cons]
      simp only [Bool.false_eq_true, if_false, if_true]
      omega

/-- What the start of a line does is settled before the tail. -/
theorem startLine?_settled (hfit : s.Fit slash) (hstart : s.atStart = true) :
    Settled s fun t : Tail slash => (s.extend t).startLine? := by
  have hstep : ∀ (t : Tail slash) found, marginOf? 0 0 0 (s.rest ++ t.chars) = found →
      (s.extend t).startLine? =
        found.bind fun (margin, rest) => (s.extend t).afterMargin? margin rest :=
    fun t _ h => h ▸ startLine?_eq _
  rcases marginSettled 0 0 0 hfit.slashFits with hnone | hblank | ⟨m, c, rest, hsuffix, hmargin⟩
  · exact .fails fun t => hstep t _ (hnone t)
  · refine .ends hstart fun t => ?_
    obtain ⟨m, hm⟩ := hblank t
    exact hstep t _ hm
  · have hafter : (fun t : Tail slash => (s.extend t).startLine?) =
        fun t => s.afterMargin? m (c :: rest ++ t.chars) :=
      funext fun t => hstep t _ (hmargin t)
    rw [hafter]
    exact afterMargin?_settled hfit hstart m hsuffix

/-- What a step inside a line does is settled before the tail. -/
theorem insideLine?_settled (hfit : s.Fit slash) (hstart : s.atStart = false)
    (hrest : s.rest ≠ []) : Settled s fun t : Tail slash => (s.extend t).insideLine? := by
  by_cases hcomment : s.EndsInComment
  · obtain ⟨r, hs, hr⟩ := hcomment
    exact .comment hstart fun t => insideLine?_comment t hs hr
  by_cases hjoint : s.rest = ['\\', '\n']
  · refine .goes [] { s with rest := [] } ⟨hfit.opened, nofun⟩ ?_ fun t =>
      insideLine?_joint t hjoint
    simp only [size, hjoint, List.length_cons, List.length_nil]
    omega
  · simp only [insideLine?_extend _ hrest hcomment hjoint hfit.slashFits]
    cases h : s.insideLine? with
    | none => exact .fails fun t => rfl
    | some found =>
      obtain ⟨tokens, next⟩ := found
      obtain ⟨hne, hsuffix, hopened⟩ := insideLine?_shrinks h
      have hslash := hfit.slashFits.of_suffix (hsuffix.trans (List.tail_suffix _))
      refine .goes tokens next ⟨fun ha => (hopened ha).resolve_left (by simp [hstart]), hslash⟩ ?_
        fun t => rfl
      have hlength := hsuffix.length_le
      have hpos := List.length_pos_iff.mpr hne
      rw [List.length_tail] at hlength
      simp only [size, hstart]
      split <;> omega

/-! ### Runs of a scanner -/

/-- A step that gives no tokens. -/
theorem tokens?_skip (hrest : s.rest ≠ []) (hnext : s.next? = some ([], next)) (steps : Nat) :
    s.tokens? (steps + 1) = next.tokens? steps := by
  rw [tokens?_succ hrest, hnext, Option.bind_some]
  simp only [List.nil_append, Option.map_id']

/-- Blank lines have no tokens of their own. -/
theorem tokens?_unlines {lines : List (List Char)}
    (hlines : ∀ line ∈ lines, ∀ c ∈ line, isMargin c = true) (hs : s.rest = unlines lines)
    (hstart : s.atStart = true) (hopened : s.opened = []) {steps : Nat}
    (hsteps : lines.length < steps) :
    s.tokens? steps = (shift? ⟨0, 0⟩ s.margins).map Prod.fst := by
  induction lines generalizing s steps with
  | nil =>
    obtain ⟨steps, rfl⟩ := Nat.exists_eq_add_of_lt hsteps
    rw [tokens?, if_pos (by simp [hs, hopened, unlines])]
  | cons line lines ih =>
    obtain ⟨hline, hrest⟩ := List.forall_mem_cons.mp hlines
    obtain ⟨steps, rfl⟩ := Nat.exists_eq_add_of_lt (Nat.zero_lt_of_lt hsteps)
    have hs' : s.rest = line ++ '\n' :: unlines lines := by simp [hs, unlines]
    have hnext : s.next? = some ([], { s with rest := unlines lines }) := by
      obtain ⟨m, hm⟩ := marginOf?_line hline 0 0 0 (unlines lines)
      rw [next?, if_pos hstart, startLine?_eq, hs', hm]
      rfl
    rw [tokens?_skip (by simp [hs']) hnext]
    exact ih (s := { s with rest := unlines lines }) hrest rfl hstart hopened
      (by simpa using hsteps)

/-- A step over a space or a tab. -/
theorem next?_of_isMargin {c : Char} {r : List Char} (hc : isMargin c = true)
    (hs : s.rest = c :: r) (hstart : s.atStart = false) :
    s.next? = some ([], { s with rest := r }) := by
  have hgap : isGap c = true := by
    rw [isGap, Bool.or_eq_true]
    exact .inl hc
  rw [next?, if_neg (by simp [hstart]), insideLine?_cons hs, if_pos hgap]

/-- A step over the end of a line. -/
theorem next?_lineEnd {r : List Char} (hs : s.rest = '\n' :: r) (hstart : s.atStart = false) :
    s.next? = if s.opened.isEmpty then some ([.lineEnd], { s with atStart := true, rest := r })
      else some ([], { s with rest := r }) := by
  rw [next?, if_neg (by simp [hstart]), insideLine?_cons hs]
  rfl

/-- What is quiet does not close a bracket. -/
theorem tokens?_open (hs : ∀ c ∈ s.rest, Quiet c) (hopened : s.opened ≠ [])
    (hstart : s.atStart = false) (steps : Nat) : s.tokens? steps = none := by
  induction steps generalizing s with
  | zero => rfl
  | succ steps ih =>
    cases hrest : s.rest with
    | nil =>
      rw [tokens?, if_neg (by simp [hrest, hopened])]
      simp [hstart, insideLine?, hrest]
    | cons c r =>
      rw [hrest, List.forall_mem_cons] at hs
      obtain ⟨hc, hr⟩ := hs
      have hnext : s.next? = some ([], { s with rest := r }) := by
        rcases hc with rfl | rfl | rfl
        · exact next?_of_isMargin rfl hrest hstart
        · exact next?_of_isMargin rfl hrest hstart
        · rw [next?_lineEnd hrest hstart, if_neg (by simpa using hopened)]
      rw [tokens?_skip (by simp [hrest]) hnext]
      exact ih (s := { s with rest := r }) hr hopened hstart

/-- A tail gives nothing but the end of the line. -/
theorem tokens?_chars (t : Tail slash) (hs : s.rest = t.chars) (hstart : s.atStart = false)
    {steps : Nat} (hsteps : t.chars.length < steps) :
    s.tokens? steps = if s.opened.isEmpty then
      (shift? ⟨0, 0⟩ s.margins).map fun found => .lineEnd :: found.1 else none := by
  obtain ⟨margin, lines, hmargin, hlines, hsingle⟩ := t
  by_cases hopened : s.opened = []
  · rw [if_pos (List.isEmpty_iff.mpr hopened)]
    induction margin generalizing s steps with
    | nil =>
      obtain ⟨steps, rfl⟩ := Nat.exists_eq_add_of_lt (Nat.zero_lt_of_lt hsteps)
      have hs' : s.rest = '\n' :: unlines lines := hs
      have hlength : lines.length < 0 + steps := by
        have hle := length_le_unlines lines
        simp only [Tail.chars, List.nil_append, List.length_cons] at hsteps
        omega
      rw [tokens?_succ (by simp [hs']), next?_lineEnd hs' hstart,
        if_pos (List.isEmpty_iff.mpr hopened), Option.bind_some]
      dsimp only
      rw [tokens?_unlines hlines (s := { s with atStart := true, rest := unlines lines }) rfl rfl
        hopened hlength, Option.map_map]
      rfl
    | cons c margin ih =>
      obtain ⟨steps, rfl⟩ := Nat.exists_eq_add_of_lt (Nat.zero_lt_of_lt hsteps)
      obtain ⟨hc, hrest⟩ := List.forall_mem_cons.mp hmargin
      rw [tokens?_skip (by simp [hs, Tail.chars]) (next?_of_isMargin hc hs hstart)]
      exact ih (s := { s with rest := margin ++ '\n' :: unlines lines }) hstart hrest rfl
        (by simpa [Tail.chars] using hsteps) hopened
  · rw [if_neg (by simpa using hopened)]
    exact tokens?_open (fun c hc => Tail.quiet_of_mem (hs ▸ hc)) hopened hstart steps

/-- What stands between a text and the end of its last line does not change its tokens. -/
theorem tokens?_extend (hfit : s.Fit slash) (t t' : Tail slash) {steps steps' : Nat}
    (h : s.size + 2 * t.chars.length + 1 ≤ steps) (h' : s.size + 2 * t'.chars.length + 1 ≤ steps') :
    (s.extend t).tokens? steps = (s.extend t').tokens? steps' := by
  induction hsize : s.size using Nat.strongRecOn generalizing s steps steps' with
  | _ size ih =>
    subst hsize
    by_cases hend : s.rest = [] ∧ s.atStart = false
    · obtain ⟨hrest, hstart⟩ := hend
      have hchars : ∀ t : Tail slash, (s.extend t).rest = t.chars := by simp [extend, hrest]
      exact (tokens?_chars t (hchars t) hstart (by omega)).trans
        (tokens?_chars t' (hchars t') hstart (by omega)).symm
    · have hsettled : Settled s fun t : Tail slash => (s.extend t).next? := by
        unfold next?
        cases hstart : s.atStart with
        | true => simpa [extend, hstart] using startLine?_settled hfit hstart
        | false =>
          have hrest : s.rest ≠ [] := fun hrest => hend ⟨hrest, hstart⟩
          simpa [extend, hstart] using insideLine?_settled hfit hstart hrest
      have hne : ∀ t : Tail slash, (s.extend t).rest ≠ [] := by simp [extend, Tail.chars]
      obtain ⟨steps, rfl⟩ := Nat.exists_eq_add_of_le' (Nat.le_trans (Nat.le_add_left 1 _) h)
      obtain ⟨steps', rfl⟩ := Nat.exists_eq_add_of_le' (Nat.le_trans (Nat.le_add_left 1 _) h')
      cases hsettled with
      | fails hnone => rw [tokens?_succ (hne t), tokens?_succ (hne t'), hnone t, hnone t']; rfl
      | ends hstart hlast =>
        rw [tokens?_skip (hne t) (hlast t), tokens?_skip (hne t') (hlast t')]
        have hblank : ∀ (t : Tail slash) {steps}, t.chars.length ≤ steps →
            tokens? steps { s with rest := unlines t.lines } =
              (shift? ⟨0, 0⟩ s.margins).map Prod.fst := fun t _ hsteps =>
          tokens?_unlines (s := { s with rest := unlines t.lines }) t.areMargins rfl hstart
            (hfit.opened hstart) (Nat.lt_of_lt_of_le t.length_lines_lt hsteps)
        rw [hblank t (by omega), hblank t' (by omega)]
      | comment hstart hlast =>
        have hshort := t.length_fromLineEnd_le
        have hshort' := t'.length_fromLineEnd_le
        have hpos : 0 < s.size := by
          have hrest : s.rest ≠ [] := fun hrest => hend ⟨hrest, hstart⟩
          have := List.length_pos_iff.mpr hrest
          simp only [size]
          omega
        rw [tokens?_skip (hne t) (hlast t), tokens?_skip (hne t') (hlast t'),
          tokens?_chars t.fromLineEnd (s := { s with rest := '\n' :: unlines t.lines }) rfl hstart
            (by omega),
          tokens?_chars t'.fromLineEnd (s := { s with rest := '\n' :: unlines t'.lines }) rfl hstart
            (by omega)]
      | goes tokens next hfit hshort hnext =>
        rw [tokens?_succ (hne t), tokens?_succ (hne t'), hnext t, hnext t']
        simp only [Option.bind_some]
        have hmore : (next.extend t).tokens? steps = (next.extend t').tokens? steps' :=
          ih next.size hshort hfit (by omega) (by omega) rfl
        rw [hmore]

end Scanner

/-! ### Blanks at the end of a source -/

/-- A blank that may stand at the end of a text without being seen: a space, a tab, or a character
of the end of a line. -/
def Trails (c : Char) : Prop := Quiet c ∨ c = '\r'

instance (c : Char) : Decidable (Trails c) := inferInstanceAs (Decidable (_ ∨ _))

theorem quiet_of_mem_lineFeeds {s : List Char} {c : Char} (hs : ∀ c ∈ s, Trails c)
    (h : c ∈ lineFeeds s) : Quiet c := by
  fun_induction lineFeeds s with
  | case1 => cases h
  | case2 => exact .inr (.inr (List.mem_singleton.mp h))
  | case3 d hd =>
    obtain rfl := List.mem_singleton.mp h
    exact (hs c List.mem_cons_self).resolve_right hd
  | case4 rest ih => exact ih (fun c hc => hs c (List.mem_cons_of_mem _ hc)) h
  | case5 d rest hd ih =>
    rcases List.mem_cons.mp h with rfl | h
    · exact .inr (.inr rfl)
    · exact ih (fun c hc => hs c (List.mem_cons_of_mem _ hc)) h
  | case6 c' d rest hc' ih =>
    rcases List.mem_cons.mp h with rfl | h
    · exact (hs c List.mem_cons_self).resolve_right hc'
    · exact ih (fun c hc => hs c (List.mem_cons_of_mem _ hc)) h

theorem lineFeeds_return (d : Char) (rest : List Char) : lineFeeds ('\r' :: d :: rest) =
    if d = '\n' then lineFeeds (d :: rest) else '\n' :: lineFeeds (d :: rest) := by
  rw [lineFeeds, if_pos rfl]

/-- After a character that is no carriage return, the ends of lines start anew. -/
theorem exists_lineFeeds_append {c : Char} (hc : c ≠ '\r') (s : List Char) :
    ∃ s', ∀ more, lineFeeds (s ++ c :: more) = s' ++ c :: lineFeeds more := by
  induction s with
  | nil => exact ⟨[], lineFeeds_cons hc⟩
  | cons a s ih =>
    obtain ⟨s', ih⟩ := ih
    by_cases ha : a = '\r'
    · -- whether the carriage return stays depends on the next character
      obtain ⟨b, hb⟩ := exists_head_append s c
      have hreturn : ∀ more, lineFeeds (a :: s ++ c :: more) =
          if b = '\n' then lineFeeds (s ++ c :: more) else '\n' :: lineFeeds (s ++ c :: more) := by
        intro more
        obtain ⟨rest, hrest⟩ := hb more
        rw [ha, List.cons_append, hrest, lineFeeds_return]
      by_cases hfeed : b = '\n'
      · exact ⟨s', fun more => by rw [hreturn, if_pos hfeed, ih]⟩
      · exact ⟨'\n' :: s', fun more => by rw [hreturn, if_neg hfeed, ih]; rfl⟩
    · exact ⟨a :: s', fun more => by rw [List.cons_append, lineFeeds_cons ha, ih]; rfl⟩

/-- Quiet lines are blank lines. -/
theorem exists_unlines {s : List Char} (hs : ∀ c ∈ s, Quiet c) : ∃ line lines,
    s ++ ['\n'] = line ++ '\n' :: unlines lines ∧ (∀ c ∈ line, isMargin c = true) ∧
      ∀ line ∈ lines, ∀ c ∈ line, isMargin c = true := by
  induction s with
  | nil => exact ⟨[], [], rfl, List.forall_mem_nil _, List.forall_mem_nil _⟩
  | cons c s ih =>
    obtain ⟨hc, hs⟩ := List.forall_mem_cons.mp hs
    obtain ⟨line, lines, heq, hline, hlines⟩ := ih hs
    by_cases hfeed : c = '\n'
    · refine ⟨[], line :: lines, ?_, List.forall_mem_nil _,
        List.forall_mem_cons.mpr ⟨hline, hlines⟩⟩
      rw [hfeed, List.cons_append, heq]
      simp [unlines]
    · refine ⟨c :: line, lines, by rw [List.cons_append, heq]; rfl, ?_, hlines⟩
      refine List.forall_mem_cons.mpr ⟨?_, hline⟩
      rcases hc with rfl | rfl | rfl
      · rfl
      · rfl
      · exact absurd rfl hfeed

/-- The end of the last line, which may have been missing. -/
theorem exists_lineEnd (s : List Char) : ∃ f, withLineFeeds s = f ++ ['\n'] ∧
    (lineFeeds s = f ∨ lineFeeds s = f ++ ['\n']) := by
  unfold withLineFeeds
  dsimp only
  split
  · next hlast =>
    obtain ⟨f, hf⟩ := List.getLast?_eq_some_iff.mp (eq_of_beq hlast)
    exact ⟨f, hf, .inr hf⟩
  · exact ⟨lineFeeds s, rfl, .inl rfl⟩

/-- A source with line feeds, after its last character that is not blank. -/
theorem exists_withLineFeeds {c : Char} (hc : isBlank c = false) (s : List Char) :
    ∃ s', ∀ r, (∀ d ∈ r, Trails d) → (c = '\\' → ∀ d ∈ r, isMargin d = true) →
      ∃ t : Tail (c == '\\'), withLineFeeds (s ++ c :: r) = s' ++ c :: t.chars := by
  have hreturn : c ≠ '\r' := fun h => absurd (h ▸ hc) (by decide)
  have hfeed : c ≠ '\n' := fun h => absurd (h ▸ hc) (by decide)
  obtain ⟨s', hs'⟩ := exists_lineFeeds_append hreturn s
  refine ⟨s', fun r hr hslash => ?_⟩
  -- the end of the last line comes after `c`
  obtain ⟨f, hf, hsame⟩ : ∃ f, withLineFeeds (s ++ c :: r) = s' ++ c :: (f ++ ['\n']) ∧
      (lineFeeds r = f ∨ lineFeeds r = f ++ ['\n']) := by
    obtain ⟨f, hf, hsame | hmore⟩ := exists_lineEnd (s ++ c :: r)
    · refine ⟨lineFeeds r, ?_, .inl rfl⟩
      rw [hf, ← hsame, hs', List.append_assoc, List.cons_append]
    · rw [hs'] at hmore
      rcases List.eq_nil_or_concat (lineFeeds r) with hnil | ⟨f', d, hconcat⟩
      · rw [hnil] at hmore
        exact absurd (List.append_inj_right' hmore rfl) (by simpa using hfeed)
      · rw [List.concat_eq_append] at hconcat
        rw [hconcat, ← List.cons_append, ← List.append_assoc] at hmore
        obtain ⟨rfl, hd⟩ := List.append_inj' hmore rfl
        refine ⟨f', by rw [hf, List.append_assoc, List.cons_append], .inr ?_⟩
        rw [hconcat, hd]
  by_cases hjoins : c = '\\'
  · -- there are no other lines than the one of `c`
    have hmargin := hslash hjoins
    have hnone : ∀ d, ¬ isMargin d = true → d ∉ r := fun d hd hmem => hd (hmargin d hmem)
    have hlines : lineFeeds r = r := by
      simpa [lineFeeds] using lineFeeds_append (hnone '\r' (by decide)) []
    obtain rfl : r = f := by
      rcases hsame with h | h
      · rw [← hlines, h]
      · exact absurd (hlines ▸ h ▸ List.mem_concat_self) (hnone '\n' (by decide))
    exact ⟨⟨r, [], hmargin, List.forall_mem_nil _, fun _ => rfl⟩, hf⟩
  · have hquiet : ∀ d ∈ f, Quiet d := by
      intro d hd
      refine quiet_of_mem_lineFeeds hr ?_
      rcases hsame with h | h
      · rwa [h]
      · exact h ▸ List.mem_append_left _ hd
    obtain ⟨line, lines, heq, hline, hlines⟩ := exists_unlines hquiet
    refine ⟨⟨line, lines, hline, hlines, fun h => absurd (eq_of_beq h) hjoins⟩, ?_⟩
    rw [hf, heq]
    rfl

/-- Blanks at the end of a source do not change its tokens, unless they are joined to it. -/
theorem tokens?_append {c : Char} (hc : isBlank c = false) (s : List Char) {r : List Char}
    (hr : ∀ d ∈ r, Trails d) (hslash : c = '\\' → ∀ d ∈ r, isMargin d = true) :
    tokens? (s ++ c :: r) = tokens? (s ++ [c]) := by
  obtain ⟨s', hs'⟩ := exists_withLineFeeds hc s
  obtain ⟨t, ht⟩ := hs' r hr hslash
  obtain ⟨t', ht'⟩ := hs' [] (List.forall_mem_nil _) fun _ => List.forall_mem_nil _
  have hnull : ∀ t : Tail (c == '\\'), (s' ++ c :: t.chars).contains '\x00' =
      (s' ++ [c]).contains '\x00' := by
    intro t
    have hnotMem : '\x00' ∉ t.chars := fun h => absurd (Tail.quiet_of_mem h) (by decide)
    rw [Bool.eq_iff_iff, List.contains_iff_mem, List.contains_iff_mem]
    simp [hnotMem]
  have hfit : Scanner.Fit (c == '\\') ⟨true, [⟨0, 0⟩], [], s' ++ [c]⟩ := by
    refine ⟨fun _ => rfl, fun hlast => ?_⟩
    rw [List.getLast?_concat, Option.some_inj] at hlast
    rw [hlast, beq_self_eq_true]
  have hextend : ∀ t : Tail (c == '\\'), (⟨true, [⟨0, 0⟩], [], s' ++ c :: t.chars⟩ : Scanner) =
      Scanner.extend ⟨true, [⟨0, 0⟩], [], s' ++ [c]⟩ t := fun t => by
    simp [Scanner.extend]
  have hsize : ∀ t : Tail (c == '\\'),
      Scanner.size ⟨true, [⟨0, 0⟩], [], s' ++ [c]⟩ + 2 * t.chars.length + 1 ≤
        2 * (s' ++ c :: t.chars).length + 2 := by
    intro t
    simp only [Scanner.size, List.length_append, List.length_cons, List.length_nil, if_true]
    omega
  unfold tokens?
  simp only [ht, ht', hnull, hextend]
  rw [Scanner.tokens?_extend hfit t t' (hsize t) (hsize t')]

/-- What a source says does not depend on the blanks at its end, unless they are joined to it. -/
theorem statements?_append {c : Char} (hc : isBlank c = false) (s : List Char) {r : List Char}
    (hr : ∀ d ∈ r, Trails d) (hslash : c = '\\' → ∀ d ∈ r, isMargin d = true) :
    statements? (s ++ c :: r) = statements? (s ++ [c]) := by
  unfold statements?
  rw [tokens?_append hc s hr hslash]

end RouteStubs.Body
