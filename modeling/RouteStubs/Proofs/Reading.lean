import Mathlib.Data.List.Basic
import RouteStubs.Prose

/-!
# Reading generated code

A reader of a generated file goes through it character by character and tells the code from the
docstrings and the comments in it. A number sign starts a comment, which ends with its line. A quote
starts a text, which has to end on its line with the same quote; three quotes start a docstring, which
ends with the next three. Inside quotes, a backslash takes the next character with it. Letters before
the quotes, which would change what a backslash means, are not considered.

A piece of a generated file is described by the docstrings and comments that it puts there, and by the
condition under which it really does so, wherever the piece stands.

## Main definitions

* `Remark`: a docstring or a comment.
* `Pending`, `Stays`: a docstring is left with its third quote; the texts that do not leave it.
* `Reading`: where a reader stands, with `Reading.next` and `Reading.found` for the next character.
* `remarks?`: the docstrings and the comments of a text that can be read to its end.
* `Writes`: what a piece of a text puts there, and under which condition.

## Main statements

* `Writes.append`: one piece after the other.
* `writes_docstring`: a docstring ends where its own quotes say if the text in it stays inside.
* `writes_comment`: a comment ends where its own line ends if the text in it has no line end.
-/

namespace RouteStubs

/-- What a reader finds beside the code. -/
inductive Remark where
  /-- A docstring. -/
  | docstring (text : List Char)
  /-- A comment. -/
  | comment (text : List Char)
  deriving DecidableEq, Repr

/-! ### Inside a docstring -/

/-- What is still to be decided inside a docstring: quotes that may be the first of three, or a
backslash that takes the next character with it. -/
inductive Pending where
  /-- Nothing. -/
  | clear
  /-- One quote. -/
  | one
  /-- Two quotes. -/
  | two
  /-- A backslash. -/
  | escape
  deriving DecidableEq, Repr

namespace Pending

/-- One more quote. The third one ends the docstring. -/
def quote : Pending → Option Pending
  | clear => some one
  | one => some two
  | two => none
  | escape => some clear

/-- The next character of a docstring between such quotes. -/
def next (q : Char) (p : Pending) (c : Char) : Option Pending :=
  if c = q then p.quote
  else if p = escape then some clear
  else if c = '\\' then some escape
  else some clear

/-- What is still to be decided after a text, unless it ends the docstring. -/
def after (q : Char) (p : Pending) (s : List Char) : Option Pending := s.foldlM (next q) p

variable {q c : Char} {p p' : Pending} {s t : List Char}

@[simp] theorem after_nil : p.after q [] = some p := rfl

@[simp] theorem after_cons : p.after q (c :: s) = (p.next q c).bind fun p => p.after q s :=
  List.foldlM_cons ..

@[simp] theorem after_append :
    p.after q (s ++ t) = (p.after q s).bind fun p => p.after q t :=
  List.foldlM_append ..

theorem next_self : p.next q q = p.quote := if_pos rfl

theorem next_eq_none_iff : p.next q c = none ↔ p = two ∧ c = q := by
  by_cases hq : c = q
  · subst hq
    cases p <;> simp [next_self, quote]
  · rw [next, if_neg hq]
    split
    · simp [hq]
    · split <;> simp [hq]

theorem next_eq_one (h : p.next q c = some one) : p = clear ∧ c = q := by
  by_cases hq : c = q
  · subst hq
    cases p <;> simp_all [next_self, quote]
  · rw [next, if_neg hq] at h
    split at h
    · cases h
    · split at h <;> cases h

theorem next_eq_two (h : p.next q c = some two) : p = one ∧ c = q := by
  by_cases hq : c = q
  · subst hq
    cases p <;> simp_all [next_self, quote]
  · rw [next, if_neg hq] at h
    split at h
    · cases h
    · split at h <;> cases h

/-- A character of no meaning decides what was pending. -/
theorem next_of_ne (hq : c ≠ q) (hb : c ≠ '\\') : p.next q c = some clear := by
  rw [next, if_neg hq, if_neg hb, ite_self]

/-- Two quotes are pending only after a text that leaves nothing pending, and two quotes. -/
theorem exists_of_after_eq_two (h : clear.after q s = some two) :
    ∃ t, s = t ++ [q, q] ∧ clear.after q t = some clear := by
  rcases List.eq_nil_or_concat' s with rfl | ⟨t, c, rfl⟩
  · cases h
  obtain ⟨p, hp, hc⟩ := Option.bind_eq_some_iff.mp (after_append.symm.trans h)
  obtain ⟨rfl, rfl⟩ := next_eq_two (by simpa using hc)
  rcases List.eq_nil_or_concat' t with rfl | ⟨u, d, rfl⟩
  · cases hp
  obtain ⟨p, hp, hd⟩ := Option.bind_eq_some_iff.mp (after_append.symm.trans hp)
  obtain ⟨rfl, rfl⟩ := next_eq_one (by simpa using hd)
  exact ⟨u, by simp, hp⟩

end Pending

/-- A text that does not end the docstring that it stands in, and leaves nothing to be decided. -/
def Stays (s : List Char) : Prop := Pending.clear.after '"' s = some .clear

instance (s : List Char) : Decidable (Stays s) := inferInstanceAs (Decidable (_ = _))

section Stays

variable {s t : List Char} {c : Char}

theorem stays_nil : Stays [] := rfl

theorem Stays.append_iff (h : Stays s) : Stays (s ++ t) ↔ Stays t := by
  unfold Stays at h ⊢
  rw [Pending.after_append, h, Option.bind_some]

theorem Stays.append (hs : Stays s) (ht : Stays t) : Stays (s ++ t) := hs.append_iff.mpr ht

/-- A character that is neither a quote nor a backslash separates what stands around it. -/
theorem stays_append_cons_iff (hq : c ≠ '"') (hb : c ≠ '\\') :
    Stays (s ++ c :: t) ↔ Stays (s ++ [c]) ∧ Stays t := by
  unfold Stays
  cases hs : Pending.clear.after '"' s <;> simp [hs, Pending.next_of_ne hq hb]

theorem stays_cons_iff (hq : c ≠ '"') (hb : c ≠ '\\') : Stays (c :: s) ↔ Stays s := by
  unfold Stays
  rw [Pending.after_cons, Pending.next_of_ne hq hb, Option.bind_some]

/-- A text without quotes and backslashes stays inside. -/
theorem stays_of_forall (h : ∀ c ∈ s, c ≠ '"' ∧ c ≠ '\\') : Stays s := by
  induction s with
  | nil => exact stays_nil
  | cons c rest ih =>
    obtain ⟨⟨hq, hb⟩, hrest⟩ := List.forall_mem_cons.mp h
    exact (stays_cons_iff hq hb).mpr (ih hrest)

end Stays

/-! ### Reading -/

/-- A character that starts a text. -/
def isQuote (c : Char) : Bool := c = Text.doubleQuote || c = Text.singleQuote

/-- A character with which a line of code ends. -/
def endsLine (c : Char) : Bool := c = '\n' || c = '\r'

theorem forall_eq_false_of_any {α : Type} {p : α → Bool} {as : List α} (h : as.any p = false) :
    ∀ a ∈ as, p a = false := by
  simpa using h

/-- Where a reader of code stands. What has been read of a docstring or a comment is kept with the
last character first. -/
inductive Reading where
  /-- In code. -/
  | code
  /-- After a quote in code, or after two. -/
  | opened (quote : Char) (twice : Bool)
  /-- In a text on one line, perhaps after a backslash. -/
  | text (quote : Char) (escaped : Bool)
  /-- In a docstring. -/
  | docstring (quote : Char) (pending : Pending) (read : List Char)
  /-- In a comment. -/
  | comment (read : List Char)
  /-- After a line end in a text on one line: the code cannot be read. -/
  | broken
  deriving DecidableEq, Repr

namespace Reading

/-- The next character in code. -/
def fromCode (c : Char) : Reading :=
  if c = '#' then comment [] else if isQuote c then opened c false else code

/-- The next character in a text on one line. -/
def inText (quote c : Char) : Reading :=
  if c = quote then code else if endsLine c then broken else text quote (c = '\\')

/-- The next character. -/
def next : Reading → Char → Reading
  | code, c => fromCode c
  | opened quote false, c => if c = quote then opened quote true else inText quote c
  | opened quote true, c => if c = quote then docstring quote .clear [] else fromCode c
  | text quote escaped, c => if escaped then text quote false else inText quote c
  | docstring quote pending read, c =>
    match pending.next quote c with
    | some pending => docstring quote pending (c :: read)
    | none => code
  | comment read, c => if endsLine c then code else comment (c :: read)
  | broken, _ => broken

/-- What ends with the next character. The first two quotes at the end of a docstring have been read
as if they were in it. -/
def found : Reading → Char → List Remark
  | docstring quote pending read, c =>
    if (pending.next quote c).isNone then [.docstring (read.drop 2).reverse] else []
  | comment read, c => if endsLine c then [.comment read.reverse] else []
  | _, _ => []

/-- Where the reader stands after a text. -/
def after (r : Reading) (s : List Char) : Reading := s.foldl next r

/-- What ends in a text. -/
def remarks : Reading → List Char → List Remark
  | _, [] => []
  | r, c :: rest => r.found c ++ (r.next c).remarks rest

variable {r : Reading} {q c : Char} {p p' : Pending} {s t read : List Char}

@[simp] theorem after_nil : r.after [] = r := rfl

@[simp] theorem after_cons : r.after (c :: s) = (r.next c).after s := rfl

@[simp] theorem after_append : r.after (s ++ t) = (r.after s).after t := List.foldl_append

@[simp] theorem remarks_nil : r.remarks [] = [] := rfl

theorem remarks_cons : r.remarks (c :: s) = r.found c ++ (r.next c).remarks s := rfl

@[simp] theorem remarks_append : r.remarks (s ++ t) = r.remarks s ++ (r.after s).remarks t := by
  induction s generalizing r with
  | nil => rfl
  | cons c rest ih => rw [List.cons_append, remarks, remarks, ih, after_cons, List.append_assoc]

end Reading

/-- The docstrings and the comments of a text, provided that it can be read to its end. -/
def remarks? (s : List Char) : Option (List Remark) :=
  if Reading.code.after s = .code then some (Reading.code.remarks s) else none

/-- Wherever the piece of code stands, it puts these docstrings and comments there and leaves the rest
as it is, exactly if the condition holds. -/
def Writes (piece : List Char) (found : List Remark) (condition : Prop) : Prop :=
  ∀ rest out, remarks? (piece ++ rest) = some (found ++ out) ↔
    condition ∧ remarks? rest = some out

section Writes

variable {piece piece' s t rest : List Char} {found found' out : List Remark}
  {condition condition' : Prop} {c : Char}

theorem remarks?_eq_some_iff : remarks? s = some out ↔
    Reading.code.after s = .code ∧ Reading.code.remarks s = out := by
  unfold remarks?
  split
  · next h => simp [h]
  · next h => simp [h]

/-- A piece after which the reader is back in code. -/
theorem remarks?_append (h : Reading.code.after piece = .code) :
    remarks? (piece ++ rest) = some (Reading.code.remarks piece ++ out) ↔
      remarks? rest = some out := by
  simp only [remarks?_eq_some_iff, Reading.after_append, Reading.remarks_append, h,
    List.append_cancel_left_eq]

theorem Writes.of_after (h : Reading.code.after piece = .code) :
    Writes piece (Reading.code.remarks piece) True := fun rest out => by
  rw [remarks?_append h, true_and]

/-- A piece that does not change what is read after it. -/
theorem Writes.of_forall (h : ∀ rest, remarks? (piece ++ rest) = remarks? rest) :
    Writes piece [] True := fun rest out => by
  rw [h, List.nil_append, true_and]

theorem writes_nil : Writes [] [] True := .of_forall fun _ => rfl

theorem Writes.append (h : Writes piece found condition) (h' : Writes piece' found' condition') :
    Writes (piece ++ piece') (found ++ found') (condition ∧ condition') := fun rest out => by
  rw [List.append_assoc, List.append_assoc, h, h', and_assoc]

theorem Writes.congr (h : Writes piece found condition) (hc : condition ↔ condition') :
    Writes piece found condition' := fun rest out => by
  rw [h, hc]

theorem writes_flatMap {α : Type} {pieces : α → List Char} {founds : α → List Remark}
    {conditions : α → Prop} {as : List α}
    (h : ∀ a ∈ as, Writes (pieces a) (founds a) (conditions a)) :
    Writes (as.flatMap pieces) (as.flatMap founds) (∀ a ∈ as, conditions a) := by
  induction as with
  | nil => exact writes_nil.congr (by simp)
  | cons a rest ih =>
    obtain ⟨ha, hrest⟩ := List.forall_mem_cons.mp h
    rw [List.flatMap_cons, List.flatMap_cons]
    exact (ha.append (ih hrest)).congr List.forall_mem_cons.symm

/-- What is found in a whole text. -/
theorem Writes.iff (h : Writes piece found condition) : remarks? piece = some found ↔ condition := by
  have hall := h [] []
  rw [List.append_nil, List.append_nil] at hall
  rw [hall, and_iff_left_iff_imp]
  exact fun _ => rfl

end Writes

/-! ### Docstrings -/

namespace Reading

variable {q c : Char} {p p' : Pending} {r r' r'' : Reading} {s t read : List Char}

/-- A text leads from one place to another, and nothing ends in it. -/
structure Leads (r : Reading) (s : List Char) (r' : Reading) : Prop where
  after_eq : r.after s = r'
  remarks_eq : r.remarks s = []

theorem leads_nil (r : Reading) : r.Leads [] r := ⟨rfl, rfl⟩

theorem Leads.cons (h : r.next c = r') (hf : r.found c = []) (hs : r'.Leads s r'') :
    r.Leads (c :: s) r'' := by
  subst h
  exact ⟨hs.after_eq, by rw [remarks_cons, hf, hs.remarks_eq, List.nil_append]⟩

theorem Leads.append (h : r.Leads s r') (h' : r'.Leads t r'') : r.Leads (s ++ t) r'' := by
  refine ⟨?_, ?_⟩
  · rw [after_append, h.after_eq, h'.after_eq]
  · rw [remarks_append, h.remarks_eq, h.after_eq, h'.remarks_eq, List.nil_append]

/-- Inside a docstring, all that is read is kept. -/
theorem leads_docstring (h : p.after q s = some p') :
    (docstring q p read).Leads s (docstring q p' (s.reverse ++ read)) := by
  induction s generalizing p read with
  | nil =>
    cases h
    exact leads_nil _
  | cons c rest ih =>
    rw [Pending.after_cons, Option.bind_eq_some_iff] at h
    obtain ⟨p₁, hc, hrest⟩ := h
    rw [List.reverse_cons, List.append_assoc, List.singleton_append]
    exact .cons (by rw [next, hc]) (by rw [found, hc]; rfl) (ih hrest)

/-- A text after which the docstring has not ended, or the text up to its end, the quote that ends it
and what comes after. -/
theorem eq_none_cases (h : p.after q s = none) :
    ∃ t rest, s = t ++ q :: rest ∧ p.after q t = some .two := by
  induction s generalizing p with
  | nil => cases h
  | cons c rest ih =>
    cases hc : p.next q c with
    | none =>
      obtain ⟨rfl, rfl⟩ := Pending.next_eq_none_iff.mp hc
      exact ⟨[], rest, rfl, rfl⟩
    | some p₁ =>
      rw [Pending.after_cons, hc] at h
      obtain ⟨t, more, rfl, ht⟩ := ih h
      exact ⟨c :: t, more, rfl, by rw [Pending.after_cons, hc, Option.bind_some, ht]⟩

/-- A docstring that ends holds the text before the first three quotes that are not escaped, and that
text does not end it. -/
theorem remarks_docstring_cases (q : Char) (s : List Char) :
    (docstring q .clear []).remarks s = [] ∨
    ∃ t rest, s = t ++ [q, q, q] ++ rest ∧ Pending.clear.after q t = some .clear ∧
      (docstring q .clear []).remarks (t ++ [q, q, q]) = [.docstring t] := by
  cases h : Pending.clear.after q s with
  | some p => exact .inl (leads_docstring h).remarks_eq
  | none =>
    obtain ⟨u, rest, rfl, hu⟩ := eq_none_cases h
    obtain ⟨t, rfl, ht⟩ := Pending.exists_of_after_eq_two hu
    have hlead : (docstring q .clear []).Leads (t ++ [q, q]) (docstring q .two _) :=
      leads_docstring hu
    have hlast : Pending.two.next q q = none := Pending.next_self
    refine .inr ⟨t, rest, by simp, ht, ?_⟩
    rw [show t ++ [q, q, q] = (t ++ [q, q]) ++ [q] by simp, remarks_append, hlead.remarks_eq,
      hlead.after_eq, remarks_cons, found, hlast]
    simp

end Reading

/-- The quotes around a docstring. -/
def docstringQuotes : List Char := ['"', '"', '"']

/-- A docstring ends where its own quotes say exactly if the text in it stays inside. -/
theorem writes_docstring (text : List Char) :
    Writes (docstringQuotes ++ text ++ docstringQuotes) [.docstring text] (Stays text) := by
  intro rest out
  have hopen : Reading.code.after docstringQuotes = .docstring '"' .clear [] := rfl
  have hnone : Reading.code.remarks docstringQuotes = [] := rfl
  have hread : ∀ s, Reading.code.remarks (docstringQuotes ++ s) =
      (Reading.docstring '"' .clear []).remarks s := fun s => by
    rw [Reading.remarks_append, hopen, hnone, List.nil_append]
  -- a text that stays inside is found, and the reader is back in code after it
  have hstays : Stays text →
      Reading.code.after (docstringQuotes ++ text ++ docstringQuotes) = .code ∧
      Reading.code.remarks (docstringQuotes ++ text ++ docstringQuotes) = [.docstring text] := by
    intro hs
    have hlead : (Reading.docstring '"' .clear []).Leads text
        (.docstring '"' .clear (text.reverse ++ [])) := Reading.leads_docstring hs
    rw [List.append_assoc, hread, Reading.after_append, hopen, Reading.after_append,
      Reading.remarks_append, hlead.after_eq, hlead.remarks_eq]
    simp [docstringQuotes, Reading.next, Reading.found, Reading.remarks, Pending.next_self,
      Pending.quote]
  constructor
  · intro h
    have hfound := (remarks?_eq_some_iff.mp h).2
    rw [List.append_assoc, List.append_assoc, hread, List.singleton_append] at hfound
    -- what is found is the text before the first three quotes, so these are the quotes after it
    rcases Reading.remarks_docstring_cases '"' (text ++ (docstringQuotes ++ rest)) with hno | hsome
    · rw [hno] at hfound
      cases hfound
    · obtain ⟨t, more, heq, ht, hremarks⟩ := hsome
      rw [heq, Reading.remarks_append, hremarks, List.singleton_append, List.cons.injEq,
        Remark.docstring.injEq] at hfound
      obtain ⟨rfl, -⟩ := hfound
      obtain ⟨hafter, hremarks⟩ := hstays ht
      refine ⟨ht, ?_⟩
      rwa [← remarks?_append hafter, hremarks]
  · rintro ⟨hs, hrest⟩
    obtain ⟨hafter, hremarks⟩ := hstays hs
    rw [← hremarks]
    exact (remarks?_append hafter).mpr hrest

/-! ### Comments -/

/-- Inside a comment, all that is read is kept. -/
theorem Reading.leads_comment {s read : List Char} (h : ∀ c ∈ s, endsLine c = false) :
    (comment read).Leads s (comment (s.reverse ++ read)) := by
  induction s generalizing read with
  | nil => exact leads_nil _
  | cons c rest ih =>
    obtain ⟨hc, hrest⟩ := List.forall_mem_cons.mp h
    rw [List.reverse_cons, List.append_assoc, List.singleton_append]
    refine .cons ?_ ?_ (ih hrest)
    · rw [next, hc, if_neg Bool.false_ne_true]
    · rw [found, hc, if_neg Bool.false_ne_true]

/-- A comment ends where its own line ends exactly if the text in it has no line end. -/
theorem writes_comment (text : List Char) :
    Writes ('#' :: (text ++ ['\n'])) [.comment text] (∀ c ∈ text, endsLine c = false) := by
  intro rest out
  have hline : ∀ s : List Char, (∀ c ∈ s, endsLine c = false) → ∀ last, endsLine last = true →
      Reading.code.after ('#' :: (s ++ [last])) = .code ∧
      Reading.code.remarks ('#' :: (s ++ [last])) = [.comment s] := by
    intro s hs last hl
    have hlead : (Reading.comment []).Leads s (.comment (s.reverse ++ [])) :=
      Reading.leads_comment hs
    rw [Reading.after_cons, Reading.remarks_cons]
    change (Reading.comment []).after _ = .code ∧ [] ++ (Reading.comment []).remarks _ = _
    rw [Reading.after_append, Reading.remarks_append, hlead.after_eq, hlead.remarks_eq]
    simp [Reading.next, Reading.found, Reading.remarks, hl]
  constructor
  · intro h
    by_cases hclean : ∀ c ∈ text, endsLine c = false
    · obtain ⟨hafter, hremarks⟩ := hline text hclean '\n' rfl
      refine ⟨hclean, ?_⟩
      rwa [← remarks?_append hafter, hremarks]
    · -- then the comment ends with the first line end in the text, and is shorter
      exfalso
      obtain ⟨last, hfirst⟩ : ∃ last, text.find? endsLine = some last := by
        rw [← Option.isSome_iff_exists, List.find?_isSome]
        simpa using hclean
      obtain ⟨hl, s, more, rfl, hs⟩ := List.find?_eq_some_iff_append.mp hfirst
      replace hs : ∀ c ∈ s, endsLine c = false := by simpa using hs
      obtain ⟨-, hremarks⟩ := hline s hs last hl
      have hfound := (remarks?_eq_some_iff.mp h).2
      rw [show '#' :: (s ++ last :: more ++ ['\n']) ++ rest =
        '#' :: (s ++ [last]) ++ (more ++ '\n' :: rest) by simp, Reading.remarks_append, hremarks,
        List.singleton_append, List.singleton_append, List.cons.injEq, Remark.comment.injEq] at hfound
      simpa using congrArg List.length hfound.1
  · rintro ⟨hclean, hrest⟩
    obtain ⟨hafter, hremarks⟩ := hline text hclean '\n' rfl
    rw [← hremarks]
    exact (remarks?_append hafter).mpr hrest

end RouteStubs
