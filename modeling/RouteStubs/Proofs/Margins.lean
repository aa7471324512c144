import Mathlib.Data.List.Induction
import Mathlib.Data.List.TakeDrop
import Mathlib.Data.List.TakeWhile
import RouteStubs.Proofs.Text
import RouteStubs.Text.Lines

/-!
# Margins of texts

What happens to the lines of a text when its margin is taken away or a margin is put before them,
and what happens to the blanks at its end meanwhile.

## Main definitions

* `unlines`: lines, each with its end.
* `dedentLines`: lines without the margin that all of them have.
* `withMargin`: a line with a margin before it.
* `trailing`: the blanks at the end of a text.

## Main statements

* `dedentLines_withMargin`: a margin before all lines is taken away again.
* `exists_dedent_append`: what is taken away from a text without a margin is only in blank lines.
* `exists_indent_append`: blanks at the end of a text get no margin.
-/

namespace RouteStubs.Text

variable {sep c d : Char} {s r line margin : List Char} {lines : List (List Char)}

/-! ### Characters -/

theorem isBlank_of_isMargin (h : isMargin c = true) : isBlank c = true := by
  rw [isMargin, Bool.or_eq_true, beq_iff_eq, beq_iff_eq] at h
  rcases h with rfl | rfl <;> rfl

theorem isMargin_of_isBlank (h : isBlank c = false) : isMargin c = false := by
  by_contra hmargin
  rw [isBlank_of_isMargin (Bool.not_eq_false _ ▸ hmargin)] at h
  cases h

theorem isLineEnd_of_isBlank (h : isBlank c = false) : isLineEnd c = false := by
  by_contra hends
  simp only [isLineEnd, Bool.not_eq_false, Bool.or_eq_true, Bool.and_eq_true, decide_eq_true_eq,
    beq_iff_eq] at hends
  simp only [isBlank, isSpace, Bool.or_eq_false_iff, Bool.and_eq_false_iff, decide_eq_false_iff_not,
    beq_eq_false_iff_ne] at h
  omega

theorem ne_of_isBlank (h : isBlank c = false) (hd : isBlank d = true) : c ≠ d := by
  rintro rfl
  rw [h] at hd
  cases hd

/-- What a text starts with that goes on with `c` does not depend on what comes after `c`. -/
theorem exists_head_append (s : List Char) (c : Char) :
    ∃ b, ∀ more, ∃ rest, s ++ c :: more = b :: rest := by
  cases s with
  | nil => exact ⟨c, fun more => ⟨more, rfl⟩⟩
  | cons b s => exact ⟨b, fun more => ⟨s ++ c :: more, rfl⟩⟩

/-! ### Lines of a text -/

/-- Some lines, each with its end. -/
def unlines (lines : List (List Char)) : List Char := lines.flatMap (· ++ ['\n'])

@[simp] theorem unlines_nil : unlines [] = [] := rfl

@[simp] theorem unlines_cons (line : List Char) (lines : List (List Char)) :
    unlines (line :: lines) = line ++ '\n' :: unlines lines := by
  simp [unlines]

theorem unlines_append (lines others : List (List Char)) :
    unlines (lines ++ others) = unlines lines ++ unlines others := List.flatMap_append ..

theorem isBlankText_unlines (h : ∀ line ∈ lines, isBlankText line = true) :
    isBlankText (unlines lines) = true := by
  rw [isBlankText, List.all_eq_true]
  intro c hc
  obtain ⟨line, hline, hc⟩ := List.mem_flatMap.mp hc
  rcases List.mem_append.mp hc with hc | hc
  · exact List.all_eq_true.mp (h line hline) c hc
  · rw [List.mem_singleton.mp hc]
    rfl

theorem length_le_unlines (lines : List (List Char)) : lines.length ≤ (unlines lines).length := by
  induction lines with
  | nil => exact Nat.zero_le _
  | cons line lines ih =>
    simp only [unlines_cons, List.length_append, List.length_cons]
    omega

theorem intercalate_cons (sep : Char) (line : List Char) (lines : List (List Char)) :
    [sep].intercalate (line :: lines) = line ++ lines.flatMap (sep :: ·) := by
  induction lines generalizing line with
  | nil => simp
  | cons next lines ih => simp [List.intercalate_cons_cons, ih]

/-- A text is what its pieces are, with separators between them. -/
theorem intercalate_pieces (sep : Char) (s : List Char) : [sep].intercalate (pieces sep s) = s := by
  have hpieces := flatMap_pieces sep s
  cases hp : pieces sep s with
  | nil => exact absurd hp (pieces_ne_nil sep s)
  | cons first others =>
    rw [hp, List.flatMap_cons, List.cons_append, List.cons.injEq] at hpieces
    rw [intercalate_cons]
    exact hpieces.2

theorem pieces_intercalate (hne : lines ≠ []) (h : ∀ line ∈ lines, sep ∉ line) :
    pieces sep ([sep].intercalate lines) = lines := by
  obtain ⟨line, lines, rfl⟩ := List.exists_cons_of_ne_nil hne
  rw [List.forall_mem_cons] at h
  rw [intercalate_cons, pieces_flatMap h.1 h.2]

theorem intercalate_append (lines : List (List Char)) (line : List Char)
    (others : List (List Char)) :
    ['\n'].intercalate (lines ++ line :: others) =
      unlines lines ++ ['\n'].intercalate (line :: others) := by
  induction lines with
  | nil => rfl
  | cons first lines ih =>
    simp only [unlines_cons, List.cons_append, List.append_assoc, ← ih]
    cases lines <;> simp [intercalate_cons]

theorem unlines_of_ne_nil (hne : lines ≠ []) :
    unlines lines = ['\n'].intercalate lines ++ ['\n'] := by
  obtain ⟨line, lines, rfl⟩ := List.exists_cons_of_ne_nil hne
  induction lines generalizing line with
  | nil => simp
  | cons next lines ih =>
    rw [unlines_cons, ih next (List.cons_ne_nil _ _), List.intercalate_cons_cons]
    simp

/-! ### Taking margins away -/

/-- A line without what it holds, if that is only margin. -/
def emptied (line : List Char) : List Char := if line.all isMargin then [] else line

/-- Lines without the margin that all of them have. -/
def dedentLines (lines : List (List Char)) : List (List Char) :=
  let kept := lines.map emptied
  kept.map fun line => line.drop (commonMargin (kept.filter (!·.isEmpty))).length

theorem dedent_eq (s : List Char) :
    dedent s = ['\n'].intercalate (dedentLines (pieces '\n' s)) := rfl

theorem dedent_intercalate (h : ∀ line ∈ lines, '\n' ∉ line) :
    dedent (['\n'].intercalate lines) = ['\n'].intercalate (dedentLines lines) := by
  cases lines with
  | nil => rfl
  | cons line lines => rw [dedent_eq, pieces_intercalate (List.cons_ne_nil _ _) h]

/-! ### A margin before all lines -/

/-- A line with a margin before it, unless it is only margin. -/
def withMargin (margin line : List Char) : List Char :=
  if line.all isMargin then line else margin ++ line

theorem isBlankText_withMargin (hm : ∀ c ∈ margin, isMargin c = true) (line : List Char) :
    isBlankText (withMargin margin line) = isBlankText line := by
  have hblank : margin.all isBlank = true :=
    List.all_eq_true.mpr fun c hc => isBlank_of_isMargin (hm c hc)
  unfold withMargin isBlankText
  split
  · rfl
  · rw [List.all_append, hblank, Bool.true_and]

theorem notMem_withMargin (hm : ∀ c ∈ margin, isMargin c = true) (hline : '\n' ∉ line) :
    '\n' ∉ withMargin margin line := by
  unfold withMargin
  split
  · exact hline
  · rw [List.mem_append, not_or]
    exact ⟨fun hmem => absurd (hm _ hmem) (by decide), hline⟩

theorem commonStart_append (margin s r : List Char) :
    commonStart (margin ++ s) (margin ++ r) = margin ++ commonStart s r := by
  induction margin with
  | nil => rfl
  | cons c margin ih =>
    simp only [List.cons_append]
    rw [commonStart, if_pos rfl, ih]

theorem commonMargin_append (hm : ∀ c ∈ margin, isMargin c = true) (hne : lines ≠ []) :
    commonMargin (lines.map (margin ++ ·)) = margin ++ commonMargin lines := by
  obtain ⟨line, lines, rfl⟩ := List.exists_cons_of_ne_nil hne
  induction lines generalizing line with
  | nil => exact List.takeWhile_append_of_pos hm
  | cons next lines ih =>
    have hrest := ih next (List.cons_ne_nil _ _)
    simp only [List.map_cons] at hrest
    simp only [List.map_cons, commonMargin]
    rw [List.takeWhile_append_of_pos hm, ← commonStart_append, ← hrest]

theorem emptied_eq_nil_iff : emptied line = [] ↔ line.all isMargin = true := by
  unfold emptied
  split
  · next h => simp [h]
  · next h =>
    refine ⟨?_, fun hall => absurd hall h⟩
    rintro rfl
    exact absurd rfl h

theorem emptied_withMargin (hm : ∀ c ∈ margin, isMargin c = true) (line : List Char) :
    emptied (withMargin margin line) =
      if (emptied line).isEmpty then [] else margin ++ emptied line := by
  have hmargin : margin.all isMargin = true := List.all_eq_true.mpr hm
  by_cases h : line.all isMargin = true
  · simp [emptied, withMargin, h]
  · have hne : line ≠ [] := by
      rintro rfl
      exact h rfl
    simp [emptied, withMargin, h, hmargin, hne]

/-- A margin before all lines is taken away again. -/
theorem dedentLines_withMargin (hm : ∀ c ∈ margin, isMargin c = true) (lines : List (List Char)) :
    dedentLines (lines.map (withMargin margin)) = dedentLines lines := by
  -- the lines that are not emptied get the margin, and so does what they have in common
  have hkept : (lines.map (withMargin margin)).map emptied =
      (lines.map emptied).map fun line => if line.isEmpty then [] else margin ++ line := by
    rw [List.map_map, List.map_map]
    exact List.map_congr_left fun line _ => emptied_withMargin hm line
  unfold dedentLines
  dsimp only
  rw [hkept]
  generalize lines.map emptied = kept
  have hfull : (kept.map fun line => if line.isEmpty then [] else margin ++ line).filter
      (!·.isEmpty) = (kept.filter (!·.isEmpty)).map (margin ++ ·) := by
    induction kept with
    | nil => rfl
    | cons line kept ih => cases line <;> simp_all
  rw [hfull, List.map_map]
  refine List.map_congr_left fun line hline => ?_
  cases line with
  | nil => simp
  | cons c line =>
    have hne : kept.filter (!·.isEmpty) ≠ [] :=
      List.ne_nil_of_mem (List.mem_filter.mpr ⟨hline, rfl⟩)
    simp only [Function.comp_apply, List.isEmpty_cons, Bool.false_eq_true, if_false]
    rw [commonMargin_append hm hne, List.length_append, List.drop_append, List.drop_eq_nil_of_le
      (Nat.le_add_right _ _), Nat.add_sub_cancel_left, List.nil_append]

/-! ### Texts without a margin -/

theorem emptied_of_mem (hmem : c ∈ line) (hc : isMargin c = false) : emptied line = line := by
  rw [emptied, if_neg]
  rw [List.all_eq_true]
  exact fun hall => Bool.false_ne_true (hc ▸ hall c hmem)

theorem mem_of_mem_emptied (h : c ∈ emptied line) : c ∈ line := by
  unfold emptied at h
  split at h
  · cases h
  · exact h

theorem exists_pieces_of_ne (hc : c ≠ sep) (s : List Char) :
    ∃ first others, pieces sep (c :: s) = (c :: first) :: others := by
  rw [pieces, if_neg hc]
  split
  · exact ⟨_, _, rfl⟩
  · exact ⟨_, _, rfl⟩

/-- The lines of a text have no margin in common if the first one has none. -/
theorem dedentLines_pieces (hc : isBlank c = false) (s : List Char) :
    dedentLines (pieces '\n' (c :: s)) = (pieces '\n' (c :: s)).map emptied := by
  have hmargin := isMargin_of_isBlank hc
  obtain ⟨line, lines, heq⟩ := exists_pieces_of_ne (ne_of_isBlank hc (d := '\n') rfl) s
  have hfirst : emptied (c :: line) = c :: line := emptied_of_mem List.mem_cons_self hmargin
  have hnone : ∀ others, commonMargin ((c :: line) :: others) = [] := by
    intro others
    cases others <;> simp [commonMargin, hmargin, commonStart]
  unfold dedentLines
  simp [heq, hfirst, hnone]

/-- A text without a margin starts as it did. -/
theorem exists_dedent_cons (hc : isBlank c = false) (s : List Char) :
    ∃ s', dedent (c :: s) = c :: s' := by
  obtain ⟨line, lines, heq⟩ := exists_pieces_of_ne (ne_of_isBlank hc (d := '\n') rfl) s
  rw [dedent_eq, dedentLines_pieces hc, heq, List.map_cons,
    emptied_of_mem List.mem_cons_self (isMargin_of_isBlank hc), intercalate_cons]
  exact ⟨_, rfl⟩

/-- After a character that is no separator, the pieces start anew with what is added to the last
one. -/
theorem exists_pieces_cons (hc : c ≠ sep) (s : List Char) : ∃ init last, ∀ r first others,
    pieces sep r = first :: others →
      pieces sep (s ++ c :: r) = init ++ (last ++ c :: first) :: others := by
  induction s with
  | nil =>
    refine ⟨[], [], fun r first others h => ?_⟩
    rw [List.nil_append, pieces, if_neg hc, h]
    rfl
  | cons a s ih =>
    obtain ⟨init, last, ih⟩ := ih
    by_cases ha : a = sep
    · refine ⟨[] :: init, last, fun r first others h => ?_⟩
      rw [List.cons_append, pieces, if_pos ha, ih r first others h]
      rfl
    · cases init with
      | nil =>
        refine ⟨[], a :: last, fun r first others h => ?_⟩
        rw [List.cons_append, pieces, if_neg ha, ih r first others h]
        rfl
      | cons line init =>
        refine ⟨(a :: line) :: init, last, fun r first others h => ?_⟩
        rw [List.cons_append, pieces, if_neg ha, ih r first others h]
        rfl

/-- The text `s` with the character `c` at its end has no blanks at its ends. -/
structure Solid (s : List Char) (c : Char) : Prop where
  last : isBlank c = false
  first : ∃ a y, isBlank a = false ∧ s ++ [c] = a :: y

theorem Solid.exists_append (h : Solid s c) :
    ∃ a y, isBlank a = false ∧ ∀ r, s ++ c :: r = a :: (y ++ r) := by
  obtain ⟨a, y, ha, heq⟩ := h.first
  refine ⟨a, y, ha, fun r => ?_⟩
  rw [← List.singleton_append, ← List.append_assoc, heq, List.cons_append]

/-- A text that starts with what is not blank has only blanks after its last character that is not.
-/
theorem exists_solid {a : Char} (ha : isBlank a = false) (y : List Char) :
    ∃ s c r, a :: y = s ++ c :: r ∧ Solid s c ∧ isBlankText r = true := by
  induction y using List.reverseRecOn with
  | nil => exact ⟨[], a, [], rfl, ⟨ha, a, [], ha, rfl⟩, rfl⟩
  | append_singleton y d ih =>
    cases hd : isBlank d with
    | false => exact ⟨a :: y, d, [], rfl, ⟨hd, a, y ++ [d], ha, rfl⟩, rfl⟩
    | true =>
      obtain ⟨s, c, r, heq, hsolid, hr⟩ := ih
      refine ⟨s, c, r ++ [d], ?_, hsolid, ?_⟩
      · rw [← List.cons_append, heq, List.append_assoc, List.cons_append]
      · rw [isBlankText] at hr
        simp [isBlankText, hr, hd]

/-- What is taken away at the end of a text without a margin is in blank lines. -/
theorem exists_dedent_append (h : Solid s c) : ∃ s', ∀ r, ∃ first feeds,
      dedent (s ++ c :: r) = s' ++ c :: (first ++ feeds) ∧ (∀ d ∈ first ++ feeds, d ∈ r) ∧
      ((∀ d ∈ r, isMargin d = true ∨ d = '\n') →
        (∀ d ∈ first, isMargin d = true) ∧ ∀ d ∈ feeds, d = '\n') := by
  obtain ⟨a, y, ha, htext⟩ := h.exists_append
  obtain ⟨init, last, hpieces⟩ := exists_pieces_cons (ne_of_isBlank h.last (d := '\n') rfl) s
  refine ⟨unlines (init.map emptied) ++ last, fun r => ?_⟩
  obtain ⟨first, others, hr⟩ := List.exists_cons_of_ne_nil (pieces_ne_nil '\n' r)
  have hsplit : r = first ++ others.flatMap ('\n' :: ·) := by
    rw [← intercalate_cons, ← hr, intercalate_pieces]
  refine ⟨first, (others.map emptied).flatMap ('\n' :: ·), ?_, ?_, ?_⟩
  · have hline : emptied (last ++ c :: first) = last ++ c :: first :=
      emptied_of_mem (List.mem_append_right _ List.mem_cons_self) (isMargin_of_isBlank h.last)
    rw [dedent_eq, htext, dedentLines_pieces ha, ← htext, hpieces r first others hr,
      List.map_append, List.map_cons, hline, intercalate_append, intercalate_cons]
    simp
  · intro d hd
    rw [hsplit]
    refine (List.mem_append.mp hd).elim (List.mem_append_left _) fun hd => ?_
    refine List.mem_append_right _ ?_
    obtain ⟨_, hemptied, hd⟩ := List.mem_flatMap.mp hd
    obtain ⟨line, hline, rfl⟩ := List.mem_map.mp hemptied
    refine List.mem_flatMap.mpr ⟨line, hline, ?_⟩
    exact (List.mem_cons.mp hd).elim (fun h => h ▸ List.mem_cons_self) fun hd =>
      List.mem_cons_of_mem _ (mem_of_mem_emptied hd)
  · intro hquiet
    have hmargin : ∀ line ∈ first :: others, ∀ d ∈ line, isMargin d = true := by
      intro line hline d hd
      have hmem : d ∈ r := by
        rw [hsplit]
        rcases List.mem_cons.mp hline with rfl | hline
        · exact List.mem_append_left _ hd
        · exact List.mem_append_right _
            (List.mem_flatMap.mpr ⟨line, hline, List.mem_cons_of_mem _ hd⟩)
      refine (hquiet d hmem).resolve_right ?_
      rintro rfl
      exact notMem_of_mem_pieces (hr ▸ hline) hd
    refine ⟨hmargin first List.mem_cons_self, fun d hd => ?_⟩
    obtain ⟨_, hemptied, hd⟩ := List.mem_flatMap.mp hd
    obtain ⟨line, hline, rfl⟩ := List.mem_map.mp hemptied
    have hempty : emptied line = [] := by
      rw [emptied_eq_nil_iff, List.all_eq_true]
      exact hmargin line (List.mem_cons_of_mem _ hline)
    simpa [hempty] using hd

/-! ### Cutting off ends -/

section Trim

variable {drop : Char → Bool}

theorem trimRight_append (hc : drop c = false) (s r : List Char) :
    trimRight drop (s ++ c :: r) = s ++ c :: trimRight drop r := by
  have hr : (r.reverse ++ c :: s.reverse).dropWhile drop =
      r.reverse.dropWhile drop ++ c :: s.reverse := by
    rw [List.dropWhile_append]
    split
    · next h => simp [List.isEmpty_iff.mp h, hc]
    · rfl
  simp [trimRight, hr]

theorem trimRight_append_of_forall (h : ∀ d ∈ r, drop d = true) (s : List Char) :
    trimRight drop (s ++ r) = trimRight drop s := by
  rw [trimRight, trimRight, List.reverse_append, List.dropWhile_append_of_pos]
  exact fun d hd => h d (List.mem_reverse.mp hd)

theorem mem_of_mem_trimRight (h : c ∈ trimRight drop s) : c ∈ s :=
  List.mem_reverse.mp ((List.dropWhile_sublist _).subset (List.mem_reverse.mp h))

end Trim

/-- A text without a margin, after the empty lines around it have been cut off. -/
theorem exists_trim_dedent (h : Solid s c) : ∃ s', Solid s' c ∧ ∀ r, ∃ r',
      trim (· == '\n') (dedent (s ++ c :: r)) = s' ++ c :: r' ∧ (∀ d ∈ r', d ∈ r) ∧
      ((∀ d ∈ r, isMargin d = true ∨ d = '\n') → ∀ d ∈ r', isMargin d = true) := by
  obtain ⟨s', hs'⟩ := exists_dedent_append h
  obtain ⟨a, y, ha, htext⟩ := h.exists_append
  have hsolid : Solid s' c := by
    obtain ⟨z, hz⟩ := exists_dedent_cons ha (y ++ [])
    obtain ⟨first, feeds, heq, -⟩ := hs' []
    rw [htext, hz] at heq
    refine ⟨h.last, a, ?_⟩
    cases s' with
    | nil => exact ⟨[], ha, by rw [(List.cons.inj heq).1]; rfl⟩
    | cons b s' => exact ⟨s' ++ [c], ha, by rw [(List.cons.inj heq).1]; rfl⟩
  refine ⟨s', hsolid, fun r => ?_⟩
  obtain ⟨first, feeds, heq, hmem, hquiet⟩ := hs' r
  have hleft : trimLeft (· == '\n') (dedent (s ++ c :: r)) = dedent (s ++ c :: r) := by
    obtain ⟨z, hz⟩ := exists_dedent_cons ha (y ++ r)
    rw [htext, hz, trimLeft, List.dropWhile_cons_of_neg (by simpa using ne_of_isBlank ha rfl)]
  refine ⟨trimRight (· == '\n') (first ++ feeds), ?_, fun d hd => hmem d (mem_of_mem_trimRight hd),
    fun hr d hd => ?_⟩
  · rw [trim, hleft, heq, trimRight_append (by simpa using ne_of_isBlank h.last rfl)]
  · obtain ⟨hfirst, hfeeds⟩ := hquiet hr
    rw [trimRight_append_of_forall (by simpa using hfeeds)] at hd
    exact hfirst d (mem_of_mem_trimRight hd)

/-! ### Putting a margin before a text -/

theorem flatten_splitLines (s : List Char) : (splitLines s).flatten = s := by
  fun_induction splitLines s with
  | case1 => rfl
  | case2 c => rfl
  | case3 c d rest hends ih => rw [List.flatten_cons, ih]; rfl
  | case4 c d rest hends hnil ih => rw [hnil] at ih; cases ih
  | case5 c d rest hends line others heq ih => rw [heq] at ih; simpa using ih

/-- After a character that ends no line, the lines start anew with what is added to the last one. -/
theorem exists_splitLines_append (hc : isLineEnd c = false) (s : List Char) : ∃ init last, ∀ r,
    ∃ first others, splitLines (s ++ c :: r) = init ++ (last ++ c :: first) :: others ∧
      first ++ others.flatten = r := by
  induction s with
  | nil =>
    refine ⟨[], [], fun r => ?_⟩
    cases r with
    | nil => exact ⟨[], [], rfl, rfl⟩
    | cons d rest =>
      have hlines := flatten_splitLines (d :: rest)
      rw [List.nil_append, splitLines, hc, Bool.false_and, if_neg Bool.false_ne_true]
      cases heq : splitLines (d :: rest) with
      | nil => rw [heq] at hlines; cases hlines
      | cons line others => exact ⟨line, others, rfl, by rw [heq] at hlines; exact hlines⟩
  | cons a s ih =>
    obtain ⟨init, last, ih⟩ := ih
    obtain ⟨b, hb⟩ := exists_head_append s c
    have hcons : ∀ {r line others}, splitLines (s ++ c :: r) = line :: others →
        splitLines (a :: s ++ c :: r) = if isLineEnd a && !(a = '\r' && b = '\n') then
          [a] :: line :: others else (a :: line) :: others := by
      intro r line others h
      obtain ⟨rest, hrest⟩ := hb r
      rw [List.cons_append, hrest, splitLines, ← hrest, h]
    by_cases hends : (isLineEnd a && !(a = '\r' && b = '\n')) = true
    · refine ⟨[a] :: init, last, fun r => ?_⟩
      obtain ⟨first, others, heq, hflat⟩ := ih r
      refine ⟨first, others, ?_, hflat⟩
      cases init <;> rw [hcons heq, if_pos hends] <;> rfl
    · cases init with
      | nil =>
        refine ⟨[], a :: last, fun r => ?_⟩
        obtain ⟨first, others, heq, hflat⟩ := ih r
        exact ⟨first, others, by rw [hcons heq, if_neg hends]; rfl, hflat⟩
      | cons line init =>
        refine ⟨(a :: line) :: init, last, fun r => ?_⟩
        obtain ⟨first, others, heq, hflat⟩ := ih r
        exact ⟨first, others, by rw [hcons heq, if_neg hends]; rfl, hflat⟩

/-- Blanks at the end of a text get no margin. -/
theorem exists_indent_append (hc : isBlank c = false) (margin s : List Char) :
    ∃ s', ∀ r, isBlankText r = true → indent margin (s ++ c :: r) = s' ++ c :: r := by
  obtain ⟨init, last, hlines⟩ := exists_splitLines_append (isLineEnd_of_isBlank hc) s
  refine ⟨init.flatMap (fun line => if isBlankText line then line else margin ++ line) ++
    (margin ++ last), fun r hr => ?_⟩
  obtain ⟨first, others, heq, rfl⟩ := hlines r
  have hline : isBlankText (last ++ c :: first) = false := by
    simp [isBlankText, hc]
  have hothers : (others.flatMap fun line => if isBlankText line then line else margin ++ line) =
      others.flatten := by
    rw [List.flatMap_def]
    congr 1
    refine (List.map_congr_left fun line hmem => if_pos ?_).trans (List.map_id others)
    rw [isBlankText, List.all_eq_true] at hr ⊢
    exact fun d hd => hr d (List.mem_append_right _ (List.mem_flatten.mpr ⟨line, hmem, hd⟩))
  rw [indent, heq, List.flatMap_append, List.flatMap_cons, hline, hothers]
  simp

/-! ### The blanks around a text -/

/-- The blanks at the end of a text. -/
def trailing (s : List Char) : List Char := (s.reverse.takeWhile isBlank).reverse

theorem trailing_append (hc : isBlank c = false) (s : List Char) (hr : isBlankText r = true) :
    trailing (s ++ c :: r) = r := by
  have hblank : ∀ d ∈ r.reverse, isBlank d = true := fun d hd =>
    List.all_eq_true.mp hr d (List.mem_reverse.mp hd)
  simp [trailing, List.takeWhile_append_of_pos hblank, hc]

theorem trimRight_eq_nil (hr : isBlankText r = true) : trimRight isBlank r = [] := by
  rw [trimRight, List.dropWhile_eq_nil_iff.mpr, List.reverse_nil]
  exact fun d hd => List.all_eq_true.mp hr d (List.mem_reverse.mp hd)

/-- A stripped text is the text without the blanks around it. -/
theorem strip_append {blank : List Char} (hblank : isBlankText blank = true) (h : Solid s c)
    (hr : isBlankText r = true) : strip (blank ++ (s ++ c :: r)) = s ++ [c] := by
  obtain ⟨a, y, ha, htext⟩ := h.exists_append
  have hleft : trimLeft isBlank (blank ++ (s ++ c :: r)) = s ++ c :: r := by
    rw [trimLeft, List.dropWhile_append_of_pos (List.all_eq_true.mp hblank), htext,
      List.dropWhile_cons_of_neg (by simp [ha])]
  rw [strip, trim, hleft, trimRight_append h.last, trimRight_eq_nil hr]

theorem strip_eq_nil (hs : isBlankText s = true) : strip s = [] := by
  have hleft : trimLeft isBlank s = [] := List.dropWhile_eq_nil_iff.mpr (List.all_eq_true.mp hs)
  rw [strip, trim, hleft]
  rfl

theorem strip_within (s : List Char) : strip s <:+: s := trim_within isBlank s

/-- A text is blank, or there are blanks around a text that has none at its ends. -/
theorem exists_strip (s : List Char) : isBlankText s = true ∨ ∃ blank core c r,
    s = blank ++ (core ++ c :: r) ∧ isBlankText blank = true ∧ Solid core c ∧
      isBlankText r = true := by
  cases hdrop : s.dropWhile isBlank with
  | nil => exact .inl (List.all_eq_true.mpr (List.dropWhile_eq_nil_iff.mp hdrop))
  | cons a y =>
    have ha : isBlank a = false := by
      have hhead := List.head?_dropWhile_not isBlank s
      rwa [hdrop] at hhead
    obtain ⟨core, c, r, heq, hsolid, hr⟩ := exists_solid ha y
    refine .inr ⟨s.takeWhile isBlank, core, c, r, ?_, List.all_takeWhile, hsolid, hr⟩
    rw [← heq, ← hdrop, List.takeWhile_append_dropWhile]

end RouteStubs.Text
