import Mathlib.Data.List.Forall2
import Mathlib.Data.List.Induction
import RouteStubs.Proofs.Text
import RouteStubs.Route.Dispatch

/-!
# Segments of paths

The segments of a path are what stands between its slashes, without the empty ones at its two ends.
The router looks at the first of them, which it finds in a way of its own. A path that is made from a
template by putting values in the places of its parameters has segments that fit the template,
whatever slashes stand before, between and after them.

## Main definitions

* `Route.FitsSegment`, `Route.Fits`: the segments of a path fit those of a template.
* `Route.IsInstance`: a path is a template with values for its parameters.

## Main statements

* `Route.isSome_bind?`: a template binds the segments that fit it, and no others.
* `Route.segments_eq`: the segments are the pieces without the empty ones at the ends.
* `Router.firstSegment_eq`: the router finds the first segment.
* `Route.IsInstance.fits`: the segments of an instance fit.
-/

namespace RouteStubs

/-! ### Pieces -/

namespace Text

variable {sep : Char}

/-- The first piece goes up to the first separator. -/
theorem head?_pieces (sep : Char) (s : List Char) :
    (pieces sep s).head? = some (s.takeWhile (· != sep)) := by
  induction s with
  | nil => rfl
  | cons c rest ih =>
    rw [pieces]
    by_cases hc : c = sep
    · simp [hc]
    · rw [if_neg hc, List.takeWhile_cons_of_pos (by simpa using hc)]
      split
      · next hnil => exact absurd hnil (pieces_ne_nil sep rest)
      · next first others heq =>
        rw [heq, List.head?_cons, Option.some_inj] at ih
        rw [ih, List.head?_cons]

/-- A last character that is no separator belongs to the last piece. -/
theorem exists_pieces_concat {c : Char} (hc : c ≠ sep) (s : List Char) :
    ∃ init last, pieces sep (s ++ [c]) = init ++ [last ++ [c]] := by
  induction s with
  | nil => exact ⟨[], [], by simp [pieces, hc]⟩
  | cons d rest ih =>
    obtain ⟨init, last, h⟩ := ih
    rw [List.cons_append, pieces, h]
    by_cases hd : d = sep
    · exact ⟨[] :: init, last, by simp [hd]⟩
    · rw [if_neg hd]
      cases init with
      | nil => exact ⟨[], d :: last, rfl⟩
      | cons first others => exact ⟨(d :: first) :: others, last, rfl⟩

/-- Without separators at its left end a text has its pieces without the empty ones there. -/
theorem dropWhile_isEmpty_pieces (sep : Char) (s : List Char) :
    (pieces sep s).dropWhile List.isEmpty =
      if trimLeft (· == sep) s = [] then [] else pieces sep (trimLeft (· == sep) s) := by
  induction s with
  | nil => rfl
  | cons c rest ih =>
    by_cases hc : c = sep
    · have htrim : trimLeft (· == sep) (c :: rest) = trimLeft (· == sep) rest := by
        simp [trimLeft, hc]
      rw [htrim, pieces, if_pos hc, List.dropWhile_cons_of_pos rfl, ih]
    · have htrim : trimLeft (· == sep) (c :: rest) = c :: rest := by simp [trimLeft, hc]
      rw [htrim, if_neg (by simp), pieces, if_neg hc]
      split <;> rfl

/-- Without separators at its right end a text has its pieces without the empty ones there. -/
theorem reverse_dropWhile_isEmpty_pieces (sep : Char) (s : List Char) :
    ((pieces sep s).reverse.dropWhile List.isEmpty).reverse =
      if trimRight (· == sep) s = [] then [] else pieces sep (trimRight (· == sep) s) := by
  induction s using List.reverseRecOn with
  | nil => rfl
  | append_singleton s c ih =>
    by_cases hc : c = sep
    · have htrim : trimRight (· == sep) (s ++ [c]) = trimRight (· == sep) s := by
        simp [trimRight, hc]
      rw [htrim, hc, pieces_append_sep, pieces, List.reverse_concat, List.dropWhile_cons_of_pos rfl, ih]
    · have htrim : trimRight (· == sep) (s ++ [c]) = s ++ [c] := by simp [trimRight, hc]
      obtain ⟨init, last, h⟩ := exists_pieces_concat hc s
      rw [htrim, if_neg (by simp), h, List.reverse_concat, List.dropWhile_cons_of_neg (by simp)]
      simp

/-- What starts with no separator still starts so when separators at its end are dropped. -/
theorem takeWhile_trim (sep : Char) (s : List Char) :
    (trim (· == sep) s).takeWhile (· != sep) = (trimLeft (· == sep) s).takeWhile (· != sep) := by
  unfold trim
  generalize trimLeft (· == sep) s = t
  induction t using List.reverseRecOn with
  | nil => rfl
  | append_singleton t c ih =>
    by_cases hc : c = sep
    · have hdrop : trimRight (· == sep) (t ++ [c]) = trimRight (· == sep) t := by
        simp [trimRight, hc]
      rw [hdrop, ih, List.takeWhile_append]
      split
      · next hall => simp [hc, (List.takeWhile_prefix (· != sep)).eq_of_length hall]
      · rfl
    · rw [show trimRight (· == sep) (t ++ [c]) = t ++ [c] by simp [trimRight, hc]]

/-- What is left of a text without separators at its ends starts with none. -/
theorem head_ne_of_trim {c : Char} {rest s : List Char} (h : trim (· == sep) s = c :: rest) :
    c ≠ sep := by
  simpa using first_of_trim (List.head?_eq_some_iff.mpr ⟨rest, h⟩)

end Text

/-! ### Segments -/

namespace Route

open Text

variable {template path : String} {first : String} {rest : List String}

/-- The segments without the empty ones at the two ends. -/
def inner (segments : List String) : List String :=
  ((segments.dropWhile (· == "")).reverse.dropWhile (· == "")).reverse

theorem dropWhile_map_ofList (pieces : List (List Char)) :
    (pieces.map String.ofList).dropWhile (· == "") =
      (pieces.dropWhile List.isEmpty).map String.ofList := by
  rw [List.dropWhile_map]
  congr 2
  funext s
  cases s <;> simp [String.ofList_eq_empty_iff]

/-- The segments of a path are the pieces between its slashes, without the empty ones at the ends. -/
theorem segments_eq (path : String) : segments path = inner (split '/' path) := by
  have hsegments : segments path = (if trim (· == '/') path.toList = [] then []
      else pieces '/' (trim (· == '/') path.toList)).map String.ofList := by
    unfold segments
    split <;> simp_all
  rw [hsegments, inner, split, dropWhile_map_ofList, ← List.map_reverse, dropWhile_map_ofList,
    ← List.map_reverse, dropWhile_isEmpty_pieces]
  by_cases hleft : trimLeft (· == '/') path.toList = []
  · simp [trim, trimRight, hleft]
  · rw [if_neg hleft, reverse_dropWhile_isEmpty_pieces]
    rfl

/-- The first segment is not empty. -/
theorem ne_empty_of_segments (h : segments path = first :: rest) : first ≠ "" := by
  unfold segments at h
  split at h
  · cases h
  · next stripped hne =>
    obtain ⟨c, more, hs⟩ := List.exists_cons_of_ne_nil hne
    have hc := head_ne_of_trim hs
    have hhead := head?_pieces '/' (trim (· == '/') path.toList)
    rw [hs, List.takeWhile_cons_of_pos (by simpa using hc)] at hhead
    rw [hs] at h
    rintro rfl
    cases hp : pieces '/' (c :: more) with
    | nil => exact absurd hp (pieces_ne_nil _ _)
    | cons piece others =>
      rw [hp, List.head?_cons, Option.some_inj] at hhead
      rw [hp, List.map_cons, List.cons.injEq, hhead] at h
      simpa using congrArg String.toList h.1

/-! ### Paths that fit a template -/

/-- The segment of a path fits that of a template: it is equal, or it is a value for a parameter. -/
def FitsSegment (expected actual : String) : Prop :=
  if isParameter expected then actual ≠ "" else expected = actual

/-- The segments of a path fit those of a template. -/
def Fits (template path : List String) : Prop := List.Forall₂ FitsSegment template path

/-- The path is the template with a value in the place of each parameter, which is not empty and has
no slash. -/
def IsInstance (template path : String) : Prop := Fits (split '/' template) (split '/' path)

theorem fitsSegment_of_parameter {expected actual : String} (h : isParameter expected = true) :
    FitsSegment expected actual ↔ actual ≠ "" := by
  simp [FitsSegment, h]

theorem fitsSegment_of_literal {expected actual : String} (h : isParameter expected = false) :
    FitsSegment expected actual ↔ expected = actual := by
  simp [FitsSegment, h]

/-- What fits has a first segment if the template has, and the two fit. -/
theorem Fits.head? {template path : List String} (h : Fits template path) :
    (template.head? = none ∧ path.head? = none) ∨ ∃ expected actual,
      template.head? = some expected ∧ path.head? = some actual ∧ FitsSegment expected actual := by
  cases h with
  | nil => exact .inl ⟨rfl, rfl⟩
  | cons hfit _ => exact .inr ⟨_, _, rfl, rfl, hfit⟩

/-- A template gives values to its parameters for the paths that fit it, and for no others. -/
theorem isSome_bindFrom (bound : List (String × String)) (template path : List String) :
    (bindFrom bound template path).isSome ↔ Fits template path := by
  induction template generalizing bound path with
  | nil => cases path <;> simp [bindFrom, Fits]
  | cons expected template ih =>
    cases path with
    | nil => simp [bindFrom, Fits]
    | cons actual path =>
      rw [bindFrom, Fits, List.forall₂_cons]
      cases hp : isParameter expected with
      | true =>
        rw [fitsSegment_of_parameter hp, if_pos rfl]
        by_cases ha : actual = ""
        · simp [ha]
        · simpa [ha, Fits] using ih (Keyed.put bound (parameterName expected) actual) path
      | false =>
        rw [fitsSegment_of_literal hp, if_neg (by simp)]
        by_cases he : expected = actual
        · simpa [he, Fits] using ih bound path
        · simp [he]

theorem isSome_bind? (template path : List String) :
    (bind? template path).isSome ↔ Fits template path :=
  isSome_bindFrom [] template path

theorem bind?_eq_none_iff {template path : List String} :
    bind? template path = none ↔ ¬Fits template path := by
  rw [← isSome_bind?, Bool.not_eq_true, Option.isSome_eq_false_iff, Option.isNone_iff_eq_none]

instance (template path : List String) : Decidable (Fits template path) :=
  decidable_of_iff _ (isSome_bind? template path)

instance (template path : String) : Decidable (IsInstance template path) :=
  inferInstanceAs (Decidable (Fits _ _))

/-- Segments that fit are empty in the same places. -/
theorem FitsSegment.empty_iff {expected actual : String} (h : FitsSegment expected actual) :
    (expected == "") = (actual == "") := by
  unfold FitsSegment at h
  split at h
  · next hp =>
    have he : expected ≠ "" := by
      rintro rfl
      simp [isParameter] at hp
    simp [he, h]
  · rw [h]

theorem Fits.dropWhile {template path : List String} (h : Fits template path) :
    Fits (template.dropWhile (· == "")) (path.dropWhile (· == "")) := by
  induction h with
  | nil => exact .nil
  | @cons expected actual template path head tail ih =>
    rw [List.dropWhile_cons, List.dropWhile_cons, head.empty_iff]
    split
    · exact ih
    · exact .cons head tail

theorem Fits.inner {template path : List String} (h : Fits template path) :
    Fits (inner template) (inner path) :=
  List.rel_reverse (Fits.dropWhile (List.rel_reverse h.dropWhile))

/-- The segments of an instance fit the template. -/
theorem IsInstance.fits (h : IsInstance template path) : Fits (segments template) (segments path) := by
  rw [segments_eq, segments_eq]
  exact Fits.inner h

end Route

namespace Router

open Text

/-- The router finds the first segment of a path; without segments it is empty. -/
theorem firstSegment_eq (path : String) : firstSegment path = (Route.segments path).headD "" := by
  unfold firstSegment Route.segments
  rw [← takeWhile_trim]
  split
  · next h => simp [h]
  · next stripped hne =>
    have hhead := head?_pieces '/' (trim (· == '/') path.toList)
    cases hp : pieces '/' (trim (· == '/') path.toList) with
    | nil => exact absurd hp (pieces_ne_nil _ _)
    | cons piece others =>
      rw [hp, List.head?_cons, Option.some_inj] at hhead
      rw [List.map_cons, List.headD_cons, hhead]

end Router

end RouteStubs
