import RouteStubs.Proofs.Prose
import RouteStubs.Proofs.TypeText
import RouteStubs.Render.Artifact

/-!
# The lines of generated files

A generated file is written line by line, so what it puts beside its code is worked out line by line
as well.

## Main definitions

* `WritesLines`: what lines put there, and under which condition.

## Main statements

* `writesLines_comment`, `writesLines_docstring`: a line with a comment, and one with a docstring.
-/

namespace RouteStubs

/-- Lines, each with its end. -/
def linesChars (ls : List String) : List Char := ls.flatMap fun l => l.toList ++ ['\n']

/-- The lines put these docstrings and comments into a file exactly if the condition holds. -/
def WritesLines (ls : List String) (found : List Remark) (condition : Prop) : Prop :=
  Writes (linesChars ls) found condition

variable {ls ls' : List String} {found found' : List Remark} {condition condition' : Prop}
  {l margin : String}

theorem Artifact.toList_lines (ls : List String) : (Artifact.lines ls).toList = linesChars ls := by
  rw [Artifact.lines, String.toList_join, linesChars, List.flatMap_map]
  simp

theorem WritesLines.append (h : WritesLines ls found condition)
    (h' : WritesLines ls' found' condition') :
    WritesLines (ls ++ ls') (found ++ found') (condition ∧ condition') := by
  rw [WritesLines, linesChars, List.flatMap_append]
  exact Writes.append h h'

theorem WritesLines.congr (h : WritesLines ls found condition) (hc : condition ↔ condition') :
    WritesLines ls found condition' := Writes.congr h hc

theorem WritesLines.of_eq (h : WritesLines ls found condition) (hl : ls' = ls) :
    WritesLines ls' found condition := by
  rwa [hl]

/-- What is found in a whole file. -/
theorem WritesLines.iff (h : WritesLines ls found condition) :
    remarks? (linesChars ls) = some found ↔ condition := Writes.iff h

theorem writesLines_nil : WritesLines [] [] True := writes_nil

theorem writesLines_flatMap {α : Type} {lines : α → List String} {founds : α → List Remark}
    {conditions : α → Prop} {as : List α}
    (h : ∀ a ∈ as, WritesLines (lines a) (founds a) (conditions a)) :
    WritesLines (as.flatMap lines) (as.flatMap founds) (∀ a ∈ as, conditions a) := by
  rw [WritesLines, linesChars, List.flatMap_assoc]
  exact writes_flatMap h

/-- A line of code. -/
theorem writesLines_of_silent (h : Silent l.toList) : WritesLines [l] [] True := by
  rw [WritesLines, linesChars, List.flatMap_singleton]
  exact (h.append (silent_of_tame (List.all_eq_true.mp (by decide)))).writes

/-- A line of code with a literal at its end. -/
theorem writesLines_literal (h : Silent l.toList) (v : Scalar) :
    WritesLines [l ++ v.literal] [] True := by
  have hall : Silent (l ++ v.literal ++ "\n").toList :=
    Shape.silent_literal h v (by decide) (by decide)
  rw [WritesLines, linesChars, List.flatMap_singleton]
  rw [String.toList_append] at hall
  exact hall.writes

/-- A line of code before others. -/
theorem WritesLines.cons (h : WritesLines ls found condition) (hl : Silent l.toList) :
    WritesLines (l :: ls) found condition :=
  ((writesLines_of_silent hl).append h).congr (by rw [true_and])

/-- Lines of code. -/
theorem writesLines_map {α : Type} {line : α → String} {as : List α}
    (h : ∀ a ∈ as, Silent (line a).toList) : WritesLines (as.map line) [] True := by
  induction as with
  | nil => exact writesLines_nil
  | cons a rest ih =>
    obtain ⟨ha, hrest⟩ := List.forall_mem_cons.mp h
    exact (ih hrest).cons ha

/-- Lines without anything from a document, given with their characters. -/
theorem writesLines_static {chars : List (List Char)}
    (hl : List.Forall₂ (fun l cs => l = String.ofList cs) ls chars)
    (h : remarks? (chars.flatMap (· ++ ['\n'])) = some found) : WritesLines ls found True := by
  have heq : linesChars ls = chars.flatMap (· ++ ['\n']) := by
    clear h
    induction hl with
    | nil => rfl
    | cons head _ ih =>
      rw [linesChars, List.flatMap_cons, List.flatMap_cons, head, String.toList_ofList]
      exact congrArg _ ih
  obtain ⟨hafter, rfl⟩ := remarks?_eq_some_iff.mp h
  rw [WritesLines, heq]
  exact Writes.of_after hafter

/-- A line with a comment. -/
theorem writesLines_comment (hm : Tame margin) (text : String) :
    WritesLines [margin ++ "# " ++ text] [.comment (" " ++ text).toList]
      (∀ c ∈ text.toList, endsLine c = false) := by
  have hcomment := (silent_of_tame hm).writes.append (writes_comment (" " ++ text).toList)
  have heq : linesChars [margin ++ "# " ++ text] =
      margin.toList ++ '#' :: ((" " ++ text).toList ++ ['\n']) := by
    simp [linesChars]
  rw [WritesLines, heq]
  refine hcomment.congr ?_
  rw [true_and, String.toList_append, List.forall_mem_append, 
    and_iff_right (forall_eq_false_of_any (by decide))]

/-- Lines with a docstring. -/
theorem writesLines_docstring {text : List Char} (hm : Tame margin)
    (heq : linesChars ls = margin.toList ++ (docstringQuotes ++ text ++ docstringQuotes) ++ ['\n']) :
    WritesLines ls [.docstring text] (Stays text) := by
  have hdoc := ((silent_of_tame hm).writes.append (writes_docstring text)).append
    (silent_of_tame (s := ['\n']) (List.all_eq_true.mp (by decide))).writes
  rw [WritesLines, heq]
  exact hdoc.congr (by rw [true_and, and_true])

/-! ### The text of a docstring -/

section Stays

variable {texts : List String} {text sep : String} {piece : List Char}

theorem Splits.stays_iff (h : Splits Stays piece condition) : Stays piece ↔ condition := by
  have hall := h []
  rwa [List.append_nil, and_iff_left stays_nil] at hall

/-- The condition of a piece can only be that it stays inside. -/
theorem Splits.self (h : Splits Stays piece condition) : Splits Stays piece (Stays piece) :=
  h.congr h.stays_iff.symm

/-- Pieces of a docstring with a separator between them that means nothing. -/
theorem splits_join (hsep : Tame sep)
    (h : ∀ text ∈ texts, Splits Stays text.toList (Stays text.toList)) :
    Splits Stays (sep.intercalate texts).toList (∀ text ∈ texts, Stays text.toList) := by
  induction texts with
  | nil => exact splits_nil.congr (by simp)
  | cons first rest ih =>
    obtain ⟨hfirst, hrest⟩ := List.forall_mem_cons.mp h
    cases rest with
    | nil =>
      rw [String.intercalate_singleton]
      exact hfirst.congr (by rw [List.forall_mem_singleton])
    | cons second more =>
      rw [String.intercalate_cons_cons, String.toList_append, String.toList_append]
      refine ((hfirst.append (splits_of_stays hsep.stays)).append (ih hrest)).congr ?_
      rw [and_true, List.forall_mem_cons (a := first)]

theorem stays_intercalate_iff (hsep : Tame sep)
    (h : ∀ text ∈ texts, Splits Stays text.toList (Stays text.toList)) :
    Stays (sep.intercalate texts).toList ↔ ∀ text ∈ texts, Stays text.toList :=
  (splits_join hsep h).stays_iff

/-- A sentence about a document with its title and its version. -/
theorem stays_titled {before after : String} (hb : Tame before) (ha : Tame after)
    (title version : String) :
    Stays (before ++ Prose.docstring title ++ " " ++ Prose.docstring version ++ after).toList :=
  stays_append (stays_append (stays_append (stays_append hb.stays (Prose.stays_docstring title))
    (Tame.stays (by decide))) (Prose.stays_docstring version)) ha.stays

theorem stays_linesChars (h : ∀ l ∈ ls, Stays l.toList) : Stays (linesChars ls) := by
  induction ls with
  | nil => exact stays_nil
  | cons l rest ih =>
    obtain ⟨hl, hrest⟩ := List.forall_mem_cons.mp h
    exact (hl.append (stays_of_tame (List.all_eq_true.mp (by decide)))).append (ih hrest)

/-- The docstring of a module, on several lines. -/
theorem writesLines_moduleDoc {line first : String} {inner : List String}
    (hl : line = "\"\"\"" ++ first) (hs : ∀ l ∈ first :: inner, Stays l.toList) :
    WritesLines (line :: inner ++ ["\"\"\""]) [.docstring (linesChars (first :: inner))] True := by
  have hdoc : WritesLines (line :: inner ++ ["\"\"\""]) [.docstring (linesChars (first :: inner))]
      (Stays (linesChars (first :: inner))) := by
    refine writesLines_docstring (show Tame "" by decide) ?_
    simp [hl, linesChars, docstringQuotes]
  exact hdoc.congr (iff_true_intro (stays_linesChars hs))

/-- The docstring of a module that is about the document as a whole. -/
theorem writesLines_titled {line before : String} {inner : List String}
    (hl : line = "\"\"\"" ++ before) (hb : Tame before) (hi : ∀ l ∈ inner, Tame l)
    (title version : String) :
    WritesLines
      ((line ++ Prose.docstring title ++ " " ++ Prose.docstring version ++ ".") :: inner ++
        ["\"\"\""])
      [.docstring (linesChars
        ((before ++ Prose.docstring title ++ " " ++ Prose.docstring version ++ ".") :: inner))]
      True := by
  refine writesLines_moduleDoc ?_ (List.forall_mem_cons.mpr ⟨?_, fun l hmem => (hi l hmem).stays⟩)
  · simp only [hl, String.append_assoc]
  · exact stays_titled hb (by decide) title version

end Stays

end RouteStubs
