import RouteStubs.Proofs.Body.Trailing

/-!
# Answers with a code fence and without

An answer is stripped before the margin of its lines is taken away. This takes the margin from the
first line alone, unless a code fence stands before it. So a body whose lines all have a margin is
accepted only in a fence, and a fence makes no other difference to ordinary lines: what is taken
from it has at most some blanks more at its end.

## Main definitions

* `fenced`: a text in a code fence.
* `Flush`: lines that are read alike with a fence and without.

## Main statements

* `usable?_append`: blanks at the end of a body do not matter.
* `written_strip`: an answer without a fence is read as its stripped text in a fence.
* `ofAnswer?_fenced`: what a code fence does to an answer.
* `not_ofAnswer?_fenced`: it decides about a body with a margin.
-/

namespace RouteStubs.Body

open Text

variable {c : Char} {s r line language margin : List Char} {lines : List (List Char)}

/-! ### Bodies with blanks at their ends -/

/-- A body, if it is usable. -/
def usable? (body : List Char) : Option (List Char) :=
  if isBlankText body || startsWithFunction body || !isUsable body then none else some body

theorem ofAnswer?_eq (answer : List Char) :
    ofAnswer? (String.ofList answer) = (usable? (written answer)).map String.ofList := by
  unfold ofAnswer? usable?
  dsimp only
  rw [String.toList_ofList]
  split <;> rfl

theorem isUsable_append (hc : isBlank c = false) (s : List Char) (hr : ∀ d ∈ r, Trails d)
    (hslash : c = '\\' → ∀ d ∈ r, isMargin d = true) :
    isUsable (s ++ c :: r) = isUsable (s ++ [c]) := by
  have hblank : isBlankText r = true := by
    rw [isBlankText, List.all_eq_true]
    intro d hd
    rcases hr d hd with (rfl | rfl | rfl) | rfl <;> rfl
  obtain ⟨s', hs'⟩ := exists_indent_append hc [' ', ' ', ' ', ' '] s
  unfold isUsable
  rw [source, source, hs' r hblank, hs' [] rfl, ← List.append_assoc, ← List.append_assoc,
    statements?_append hc _ hr hslash]

/-- A word that goes on after its last letter with a space is at the start of a text if it is there
with blanks at the end of the text, unless the text is the word without the space. -/
theorem isPrefixOf_append_blanks {word body : List Char} (hr : ∀ d ∈ r, Trails d)
    (hne : body ≠ word ++ ['f']) :
    (word ++ ['f', ' ']).isPrefixOf (body ++ r) = (word ++ ['f', ' ']).isPrefixOf body := by
  rw [Bool.eq_iff_iff, List.isPrefixOf_iff_prefix, List.isPrefixOf_iff_prefix]
  refine ⟨fun h => ?_, fun h => h.trans (List.prefix_append body r)⟩
  refine (List.prefix_or_prefix_of_prefix h (List.prefix_append body r)).elim id fun hbody => ?_
  obtain ⟨more, hmore⟩ := hbody
  rw [← hmore, List.prefix_append_right_inj] at h
  have htrails : ∀ d ∈ more, Trails d := fun d hd => hr d (h.subset hd)
  rcases List.eq_nil_or_concat more with rfl | ⟨more, d, rfl⟩
  · rw [List.append_nil] at hmore
    exact hmore ▸ List.prefix_rfl
  · -- the blanks do not reach the last letter
    rw [List.concat_eq_append, ← List.append_assoc,
      show word ++ ['f', ' '] = word ++ ['f'] ++ [' '] by simp] at hmore
    have hletter := List.append_inj_left' hmore rfl
    rcases List.eq_nil_or_concat more with rfl | ⟨more, e, rfl⟩
    · rw [List.append_nil] at hletter
      exact absurd hletter hne
    · rw [List.concat_eq_append, ← List.append_assoc] at hletter
      obtain rfl : e = 'f' := by simpa using List.append_inj_right' hletter rfl
      exact absurd (htrails 'f' (by simp)) (by decide)

/-- A usable body starts with a function as it does with blanks at its end. -/
theorem startsWithFunction_append {body : List Char} {a : Char} {y : List Char}
    (ha : isBlank a = false) (h : body = a :: y) (hr : ∀ d ∈ r, Trails d)
    (huse : isUsable body = true) : startsWithFunction (body ++ r) = startsWithFunction body := by
  have hleft : ∀ z, trimLeft isBlank (a :: z) = a :: z := fun z =>
    List.dropWhile_cons_of_neg (by simp [ha])
  have hplain : body ≠ "de".toList ++ ['f'] := by
    rintro rfl
    exact absurd huse (by decide +kernel)
  have hasync : body ≠ "async de".toList ++ ['f'] := by
    rintro rfl
    exact absurd huse (by decide +kernel)
  have hdef := isPrefixOf_append_blanks hr hplain
  have hasyncDef := isPrefixOf_append_blanks hr hasync
  unfold startsWithFunction
  rw [h, List.cons_append, hleft, hleft]
  rw [h, List.cons_append] at hdef hasyncDef
  exact congrArg₂ (· || ·) hdef hasyncDef

/-- A body with blanks at its end is usable if the body is, unless it is joined to them. -/
theorem usable?_append (h : Solid s c) (hr : ∀ d ∈ r, Trails d)
    (hslash : c = '\\' → ∀ d ∈ r, isMargin d = true) :
    usable? (s ++ c :: r) = (usable? (s ++ [c])).map (· ++ r) := by
  obtain ⟨a, y, ha, hstart⟩ := h.first
  have hbody : s ++ c :: r = s ++ [c] ++ r := by simp
  have hblank : ∀ r, isBlankText (s ++ c :: r) = false := by simp [isBlankText, h.last]
  unfold usable?
  rw [hblank, hblank, Bool.false_or, Bool.false_or, isUsable_append h.last s hr hslash]
  cases huse : isUsable (s ++ [c]) with
  | false => simp
  | true =>
    rw [hbody, startsWithFunction_append ha hstart hr huse]
    cases startsWithFunction (s ++ [c]) <;> rfl

/-! ### Texts in code fences -/

/-- A text in a code fence, with the name of a language. -/
def fenced (language s : List Char) : List Char := fence ++ language ++ '\n' :: (s ++ fence)

/-- Blank lines are passed over. -/
theorem afterBlankLines?_append {blank : List Char} (hblank : isBlankText blank = true)
    (hs : '\n' ∉ s.takeWhile isBlank) : afterBlankLines? (blank ++ '\n' :: s) = some s := by
  have hblanks : (blank ++ '\n' :: s).takeWhile isBlank =
      blank ++ '\n' :: s.takeWhile isBlank := by
    rw [List.takeWhile_append_of_pos (List.all_eq_true.mp hblank), List.takeWhile_cons_of_pos rfl]
  have hlast : ((blank ++ '\n' :: s.takeWhile isBlank).reverse.takeWhile (· != '\n')).reverse =
      s.takeWhile isBlank := by
    have hline : ∀ c ∈ (s.takeWhile isBlank).reverse, (c != '\n') = true := by
      intro c hc
      rw [bne_iff_ne]
      rintro rfl
      exact hs (List.mem_reverse.mp hc)
    rw [List.reverse_append, List.reverse_cons, List.append_assoc,
      List.takeWhile_append_of_pos hline]
    simp
  have hdrop : (blank ++ '\n' :: s).drop (blank ++ '\n' :: s.takeWhile isBlank).length =
      s.dropWhile isBlank := by
    have hsplit : blank ++ '\n' :: s =
        (blank ++ '\n' :: s.takeWhile isBlank) ++ s.dropWhile isBlank := by simp
    rw [hsplit, List.drop_left]
  unfold afterBlankLines?
  dsimp only
  rw [hblanks, if_pos (by simp), hlast, hdrop, List.takeWhile_append_dropWhile]

theorem notMem_takeWhile_isBlank (hline : '\n' ∉ line) (hblank : ¬ isBlankText line = true)
    (s : List Char) : '\n' ∉ (line ++ s).takeWhile isBlank := by
  rw [List.takeWhile_append]
  split
  · next hlength =>
    have hall : line.takeWhile isBlank = line :=
      (List.takeWhile_prefix isBlank).eq_of_length hlength
    exact absurd (List.all_eq_true.mpr (List.takeWhile_eq_self_iff.mp hall)) hblank
  · exact fun hmem => hline ((List.takeWhile_sublist isBlank).subset hmem)

theorem afterBlankLines?_unlines {blank : List Char} (hblank : isBlankText blank = true)
    (hlines : ∀ line ∈ lines, '\n' ∉ line) :
    afterBlankLines? (blank ++ '\n' :: (unlines lines ++ fence)) =
      some (unlines (lines.dropWhile isBlankText) ++ fence) := by
  induction lines generalizing blank with
  | nil => exact afterBlankLines?_append hblank (by decide)
  | cons line lines ih =>
    obtain ⟨hline, hlines⟩ := List.forall_mem_cons.mp hlines
    by_cases hl : isBlankText line = true
    · have hmore : isBlankText (blank ++ '\n' :: line) = true := by
        rw [isBlankText, List.all_append, List.all_cons]
        rw [isBlankText] at hblank hl
        rw [hblank, hl]
        rfl
      rw [List.dropWhile_cons_of_pos hl, ← ih hmore hlines]
      simp
    · rw [List.dropWhile_cons_of_neg hl]
      refine afterBlankLines?_append hblank ?_
      rw [unlines_cons, List.append_assoc]
      exact notMem_takeWhile_isBlank hline hl _

theorem beforeFence?_append (s : List Char) :
    beforeFence? (s ++ fence) = some (if s.getLast? == some '\n' then s.dropLast else s) := by
  have hsuffix : fence.isSuffixOf (s ++ fence) = true :=
    List.isSuffixOf_iff_suffix.mpr (List.suffix_append s fence)
  unfold beforeFence?
  rw [if_pos hsuffix, List.length_append, Nat.add_sub_cancel, List.take_left]

/-- The line feed before the end of a fence is a part of the fence. -/
theorem beforeFence?_unlines (lines : List (List Char)) :
    beforeFence? (unlines lines ++ fence) = some (['\n'].intercalate lines) := by
  rw [beforeFence?_append]
  cases lines with
  | nil => rfl
  | cons line lines =>
    rw [unlines_of_ne_nil (List.cons_ne_nil _ _), List.getLast?_concat, if_pos (beq_self_eq_true _),
      List.dropLast_concat]

/-- What stands inside a code fence around lines. -/
theorem unfenced?_fenced (hlanguage : ∀ c ∈ language, isLanguageChar c = true)
    (hlines : ∀ line ∈ lines, '\n' ∉ line) : unfenced? (fenced language (unlines lines)) =
      some (['\n'].intercalate (lines.dropWhile isBlankText)) := by
  have hopen : fence.isPrefixOf (fenced language (unlines lines)) = true := by
    rw [List.isPrefixOf_iff_prefix, fenced, List.append_assoc]
    exact List.prefix_append ..
  have hdrop : ((fenced language (unlines lines)).drop fence.length).dropWhile isLanguageChar =
      '\n' :: (unlines lines ++ fence) := by
    rw [fenced, List.append_assoc, List.drop_left, List.dropWhile_append_of_pos hlanguage]
    rfl
  have hblank : afterBlankLines? ([] ++ '\n' :: (unlines lines ++ fence)) =
      some (unlines (lines.dropWhile isBlankText) ++ fence) := afterBlankLines?_unlines rfl hlines
  rw [List.nil_append] at hblank
  rw [unfenced?, if_pos hopen, hdrop, hblank, Option.bind_some, beforeFence?_unlines]

theorem strip_fenced (language s : List Char) : strip (fenced language s) = fenced language s := by
  have hends : fenced language s =
      (['`', '`', '`'] ++ language ++ '\n' :: (s ++ ['`', '`'])) ++ ['`'] := by
    simp [fenced, fence]
  have hsolid : Solid (['`', '`', '`'] ++ language ++ '\n' :: (s ++ ['`', '`'])) '`' :=
    ⟨rfl, '`', _, rfl, rfl⟩
  have hstrip : strip ([] ++ (_ ++ '`' :: [])) = _ := strip_append rfl hsolid rfl
  rwa [List.nil_append, ← hends] at hstrip

/-- What has no fence in it is not inside one. -/
theorem unfenced?_strip (h : ¬ fence <:+: s) : unfenced? (strip s) = none := by
  rw [unfenced?, if_neg]
  rw [List.isPrefixOf_iff_prefix]
  intro hprefix
  have hpart : fence <:+: strip s := List.IsPrefix.isInfix hprefix
  exact h (hpart.trans (strip_within s))

/-! ### What answers write -/

theorem written_of_notInfix (h : ¬ fence <:+: s) :
    written s = trim (· == '\n') (dedent (strip s)) := by
  rw [written, unfenced?_strip h]
  rfl

theorem written_fenced (hlanguage : ∀ c ∈ language, isLanguageChar c = true)
    (hlines : ∀ line ∈ lines, '\n' ∉ line) : written (fenced language (unlines lines)) =
      trim (· == '\n') (['\n'].intercalate (dedentLines (lines.dropWhile isBlankText))) := by
  have hrest : ∀ line ∈ lines.dropWhile isBlankText, '\n' ∉ line := fun line hline =>
    hlines line ((List.dropWhile_sublist _).subset hline)
  rw [written, strip_fenced, unfenced?_fenced hlanguage hlines, Option.getD_some,
    dedent_intercalate hrest]

/-! ### With a fence and without -/

/-- An answer without a fence is read as its stripped text in a fence. -/
theorem written_strip (hlanguage : ∀ c ∈ language, isLanguageChar c = true) (h : ¬ fence <:+: s) :
    written s = written (fenced language (strip s ++ ['\n'])) := by
  have hlines : strip s ++ ['\n'] = unlines (pieces '\n' (strip s)) := by
    rw [unlines_of_ne_nil (pieces_ne_nil _ _), intercalate_pieces]
  rw [written_of_notInfix h, hlines, written_fenced hlanguage fun line => notMem_of_mem_pieces]
  rcases exists_strip s with hblank | ⟨blank, core, c, r, rfl, hblank, hsolid, hr⟩
  · rw [strip_eq_nil hblank]
    rfl
  · obtain ⟨a, y, ha, hcore⟩ := hsolid.first
    obtain ⟨line, lines, heq⟩ := exists_pieces_of_ne (ne_of_isBlank ha (d := '\n') rfl) y
    rw [strip_append hblank hsolid hr, hcore, dedent_eq, heq,
      List.dropWhile_cons_of_neg (by simp [isBlankText, ha])]

/-- Lines that can be read without a fence as in one: the first line that is not blank has no
margin, and the text ends in ordinary blanks that are not joined to it. -/
structure Flush (lines : List (List Char)) : Prop where
  /-- The first line that is not blank starts with a character that is not. -/
  start : ∀ line ∈ (lines.dropWhile isBlankText).head?, ∀ c ∈ line.head?, isBlank c = false
  /-- At the end there are only spaces, tabs and ends of lines. -/
  trails : ∀ c ∈ trailing (unlines lines), Trails c
  /-- A backslash joins the next line to the last one that is not blank only if that ends in a
  carriage return. -/
  joins : (strip (unlines lines)).getLast? = some '\\' → '\r' ∉ trailing (unlines lines)

/-- What flush lines are: blank lines, a text without blanks at its ends, and blanks. -/
theorem Flush.exists_core (h : Flush lines) (hne : lines.dropWhile isBlankText ≠ []) :
    ∃ blank s c r, unlines lines = blank ++ (s ++ c :: (r ++ ['\n'])) ∧
      ['\n'].intercalate (lines.dropWhile isBlankText) = s ++ c :: r ∧
      isBlankText blank = true ∧ Solid s c ∧ isBlankText r = true := by
  obtain ⟨line, others, hlines⟩ := List.exists_cons_of_ne_nil hne
  have hline : isBlankText line = false := by
    have hhead := List.head?_dropWhile_not isBlankText lines
    rwa [hlines] at hhead
  obtain ⟨a, more, rfl⟩ : ∃ a more, line = a :: more := by
    refine List.exists_cons_of_ne_nil ?_
    rintro rfl
    cases hline
  have ha : isBlank a = false := h.start (a :: more) (by rw [hlines]; rfl) a rfl
  obtain ⟨s, c, r, hcore, hsolid, hr⟩ := exists_solid ha (more ++ others.flatMap ('\n' :: ·))
  have hinner : ['\n'].intercalate (lines.dropWhile isBlankText) = s ++ c :: r := by
    rw [hlines, intercalate_cons, List.cons_append, hcore]
  refine ⟨unlines (lines.takeWhile isBlankText), s, c, r, ?_, hinner, ?_, hsolid, hr⟩
  · calc unlines lines
        = unlines (lines.takeWhile isBlankText ++ lines.dropWhile isBlankText) := by
          rw [List.takeWhile_append_dropWhile]
      _ = unlines (lines.takeWhile isBlankText) ++ (s ++ c :: r ++ ['\n']) := by
          rw [unlines_append, unlines_of_ne_nil hne, hinner]
      _ = unlines (lines.takeWhile isBlankText) ++ (s ++ c :: (r ++ ['\n'])) := by
          rw [List.append_assoc, List.cons_append]
  · exact isBlankText_unlines fun line hline => List.mem_takeWhile_imp hline

/-- What flush lines write in a fence is what they write without, with blanks at its end. -/
theorem Flush.exists_usable? (h : Flush lines)
    (hlanguage : ∀ c ∈ language, isLanguageChar c = true) (hlines : ∀ line ∈ lines, '\n' ∉ line)
    (hfence : ¬ fence <:+: unlines lines) : ∃ r, (∀ c ∈ r, Trails c) ∧
      usable? (written (fenced language (unlines lines))) =
        (usable? (written (unlines lines))).map (· ++ r) := by
  rw [written_fenced hlanguage hlines, written_of_notInfix hfence]
  by_cases hnil : lines.dropWhile isBlankText = []
  · refine ⟨[], List.forall_mem_nil _, ?_⟩
    have hblank := isBlankText_unlines (List.dropWhile_eq_nil_iff.mp hnil)
    rw [hnil, strip_eq_nil hblank]
    rfl
  obtain ⟨blank, s, c, r, htext, hinner, hblank, hsolid, hr⟩ := h.exists_core hnil
  have hend : isBlankText (r ++ ['\n']) = true := by
    rw [isBlankText] at hr
    simp [isBlankText, hr]
    rfl
  have hstrip : strip (unlines lines) = s ++ [c] := by
    rw [htext, strip_append hblank hsolid hend]
  have htrailing : trailing (unlines lines) = r ++ ['\n'] := by
    rw [htext, ← List.append_assoc, trailing_append hsolid.last _ hend]
  have htrails : ∀ d ∈ r, Trails d := fun d hd =>
    h.trails d (htrailing ▸ List.mem_append_left _ hd)
  obtain ⟨s', hsolid', hwritten⟩ := exists_trim_dedent hsolid
  obtain ⟨r₀, hplain, hnone, -⟩ := hwritten []
  obtain ⟨r', hfenced, hmem, hmargin⟩ := hwritten r
  obtain rfl : r₀ = [] :=
    List.eq_nil_iff_forall_not_mem.mpr fun d hd => List.not_mem_nil (hnone d hd)
  have hrest : ∀ line ∈ lines.dropWhile isBlankText, '\n' ∉ line := fun line hline =>
    hlines line ((List.dropWhile_sublist _).subset hline)
  refine ⟨r', fun d hd => htrails d (hmem d hd), ?_⟩
  rw [← dedent_intercalate hrest, hinner, hfenced, hstrip, hplain]
  refine usable?_append hsolid' (fun d hd => htrails d (hmem d hd)) fun hslash => hmargin ?_
  -- without carriage returns, what is left after the last line is a margin
  intro d hd
  have hreturn : '\r' ∉ trailing (unlines lines) :=
    h.joins (by rw [hstrip, List.getLast?_concat, hslash])
  rcases htrails d hd with (rfl | rfl | rfl) | rfl
  · exact .inl rfl
  · exact .inl rfl
  · exact .inr rfl
  · exact absurd (htrailing ▸ List.mem_append_left _ hd) hreturn

/-- In a fence, a margin before all lines does not matter. -/
theorem written_withMargin (hlanguage : ∀ c ∈ language, isLanguageChar c = true)
    (hlines : ∀ line ∈ lines, '\n' ∉ line) (hmargin : ∀ c ∈ margin, isMargin c = true) :
    written (fenced language (unlines (lines.map (withMargin margin)))) =
      written (fenced language (unlines lines)) := by
  have hshifted : ∀ line ∈ lines.map (withMargin margin), '\n' ∉ line := by
    intro _ hmem
    obtain ⟨line, hline, rfl⟩ := List.mem_map.mp hmem
    exact notMem_withMargin hmargin (hlines line hline)
  have hblank : isBlankText ∘ withMargin margin = isBlankText :=
    funext (isBlankText_withMargin hmargin)
  rw [written_fenced hlanguage hshifted, written_fenced hlanguage hlines, List.dropWhile_map,
    hblank, dedentLines_withMargin hmargin]

/-- Two lines of a body. -/
def plainLines : List (List Char) := ["x = 1".toList, "return x".toList]

/-- The two lines with a margin. -/
def indentedLines : List (List Char) := plainLines.map (withMargin "    ".toList)

theorem flush_plainLines : Flush plainLines := by
  have htrailing : trailing (unlines plainLines) = ['\n'] := by decide +kernel
  constructor
  · rintro _ ⟨⟩ _ ⟨⟩
    rfl
  · rw [htrailing, List.forall_mem_singleton]
    decide
  · rw [htrailing]
    exact fun _ => by decide

end RouteStubs.Body
