import RouteStubs.Proofs.LegalName
import RouteStubs.Proofs.Reading
import RouteStubs.Render.TypeText
import RouteStubs.Value.Written

/-!
# Literals stay where they are put

In code, a literal is read as one text. In a docstring, a literal is what it is in code, quotes
included: nothing is escaped once more. So a literal ends a docstring if its text has three double
quotes side by side.

## Main definitions

* `Splits`: a property of texts that a piece at the start only adds a condition to.
* `Silent`: a piece of code without docstrings and comments.

## Main statements

* `silent_quoted`: literals in code.
* `stays_quotedChars_iff`: literals in a docstring.
-/

namespace RouteStubs

open Text

/-! ### Pieces at the start -/

/-- The property holds of a text that starts with the piece exactly if the condition holds, and the
property of the rest. -/
def Splits (Q : List Char → Prop) (piece : List Char) (condition : Prop) : Prop :=
  ∀ rest, Q (piece ++ rest) ↔ condition ∧ Q rest

section Splits

variable {Q : List Char → Prop} {piece piece' sep : List Char} {condition condition' : Prop}

theorem splits_nil : Splits Q [] True := fun rest => by rw [List.nil_append, true_and]

theorem Splits.append (h : Splits Q piece condition) (h' : Splits Q piece' condition') :
    Splits Q (piece ++ piece') (condition ∧ condition') := fun rest => by
  rw [List.append_assoc, h, h', and_assoc]

theorem Splits.congr (h : Splits Q piece condition) (hc : condition ↔ condition') :
    Splits Q piece condition' := fun rest => by
  rw [h, hc]

/-- Pieces with a separator between them, when what follows a piece is the separator or `last`. -/
theorem splits_intercalate {α : Type} {pieces : α → List Char} {conditions : α → Prop} {d last : Char}
    (hsep : Splits Q sep True) (hlast : Splits Q [last] True) {as : List α}
    (h : ∀ a ∈ as, ∀ c ∈ [d, last], Splits Q (pieces a ++ [c]) (conditions a)) :
    Splits Q ((d :: sep).intercalate (as.map pieces) ++ [last]) (∀ a ∈ as, conditions a) := by
  induction as with
  | nil => exact hlast.congr ⟨fun _ => nofun, fun _ => trivial⟩
  | cons a rest ih =>
    obtain ⟨ha, hrest⟩ := List.forall_mem_cons.mp h
    cases rest with
    | nil =>
      rw [List.map_singleton, List.intercalate_singleton]
      exact (ha last (by simp)).congr (by simp)
    | cons b more =>
      have htail := ((ha d (by simp)).append hsep).append (ih hrest)
      rw [List.map_cons, List.map_cons, List.intercalate_cons_cons, ← List.map_cons,
        show pieces a ++ d :: sep ++ (d :: sep).intercalate (List.map pieces (b :: more)) ++ [last] =
          pieces a ++ [d] ++ sep ++ ((d :: sep).intercalate (List.map pieces (b :: more)) ++ [last])
          by simp]
      exact htail.congr (by simp)

end Splits

/-! ### Literals in code -/

/-- A character that code can have without a text or a comment. -/
def isPlain (c : Char) : Bool := !isQuote c && c != '#'

/-- A piece of code without docstrings and comments. -/
def Silent (piece : List Char) : Prop :=
  ∀ out, Splits (fun s => remarks? s = some out) piece True

section Silent

variable {s piece piece' : List Char} {c q : Char}

theorem Silent.writes (h : Silent piece) : Writes piece [] True := fun rest out => h out rest

theorem silent_nil : Silent [] := fun _ => splits_nil

theorem Silent.append (h : Silent piece) (h' : Silent piece') : Silent (piece ++ piece') := fun out =>
  ((h out).append (h' out)).congr (and_self_iff)

theorem silent_of_leads (h : Reading.code.Leads s .code) : Silent s := fun out rest => by
  have hall : remarks? (s ++ rest) = some (Reading.code.remarks s ++ out) ↔ remarks? rest = some out :=
    remarks?_append h.after_eq
  rwa [h.remarks_eq, List.nil_append, ← true_and (remarks? rest = some out)] at hall

end Silent

namespace Reading

variable {s : List Char} {c d q : Char} {r : Reading}

theorem leads_plain (h : ∀ c ∈ s, isPlain c = true) : code.Leads s code := by
  induction s with
  | nil => exact leads_nil _
  | cons c rest ih =>
    obtain ⟨hc, hrest⟩ := List.forall_mem_cons.mp h
    simp only [isPlain, Bool.and_eq_true, Bool.not_eq_true', bne_iff_ne, ne_eq] at hc
    refine .cons ?_ rfl (ih hrest)
    rw [next, fromCode, if_neg hc.2, hc.1, if_neg Bool.false_ne_true]

theorem leads_inText (h : ∀ c ∈ s, c ≠ q ∧ c ≠ '\\' ∧ endsLine c = false) :
    (text q false).Leads s (text q false) := by
  induction s with
  | nil => exact leads_nil _
  | cons c rest ih =>
    obtain ⟨⟨hq, hb, hl⟩, hrest⟩ := List.forall_mem_cons.mp h
    refine .cons ?_ rfl (ih hrest)
    simp [next, inText, hq, hb, hl]

theorem leads_escaped (hq : isQuote q = true) (h : (text q false).Leads s r) :
    (text q false).Leads ('\\' :: c :: s) r := by
  have hne : '\\' ≠ q := by
    rintro rfl
    exact absurd hq (by decide)
  have hlast : (text q true).Leads (c :: s) r := .cons rfl rfl h
  refine .cons ?_ rfl hlast
  simp [next, inText, hne, endsLine]

end Reading

namespace Text

variable {s : List Char} {c q : Char}

theorem isWordChar_of_mem_hexDigits {width n : Nat} (h : c ∈ hexDigits width n) :
    Name.isWordChar c = true := by
  have hall : ∀ m, m < 16 → Name.isWordChar (hexDigit m) = true := by decide
  induction width generalizing n with
  | zero => cases h
  | succ width ih =>
    rcases List.mem_append.mp h with h | h
    · exact ih h
    · rw [List.mem_singleton.mp h]
      exact hall _ (Nat.mod_lt _ (by decide))

/-- The digits of an escaped character mean nothing inside quotes. -/
theorem hexDigits_plain {width n : Nat} (hq : isQuote q = true) :
    ∀ c ∈ hexDigits width n, c ≠ q ∧ c ≠ '\\' ∧ endsLine c = false := by
  intro c hc
  have hword := isWordChar_of_mem_hexDigits hc
  refine ⟨?_, ?_, ?_⟩
  · rintro rfl
    simp only [isQuote, Bool.or_eq_true, decide_eq_true_eq] at hq
    rcases hq with rfl | rfl <;> exact absurd hword (by decide)
  · rintro rfl
    exact absurd hword (by decide)
  · by_contra hends
    simp only [endsLine, Bool.not_eq_false, Bool.or_eq_true, decide_eq_true_eq] at hends
    rcases hends with rfl | rfl <;> exact absurd hword (by decide)

theorem endsLine_of_isPrintable (h : isPrintable c = true) : endsLine c = false := by
  by_contra hends
  simp only [endsLine, Bool.not_eq_false, Bool.or_eq_true, decide_eq_true_eq] at hends
  rcases hends with rfl | rfl <;> exact absurd h (by decide)

theorem isPrintable_of_isQuote (h : isQuote q = true) : isPrintable q = true := by
  simp only [isQuote, Bool.or_eq_true, decide_eq_true_eq] at h
  rcases h with rfl | rfl <;> decide

/-- What stands for a character in a literal: the character, or a backslash and another character with
digits. -/
theorem escapeChar_cases (hq : isQuote q = true) (c : Char) :
    (escapeChar q c = [c] ∧ c ≠ q ∧ c ≠ '\\' ∧ isPrintable c = true) ∨
    ∃ d width n, escapeChar q c = '\\' :: d :: hexDigits width n ∧ isPrintable d = true := by
  simp only [escapeChar]
  split
  · next hself =>
    refine .inr ⟨c, 0, 0, rfl, ?_⟩
    simp only [Bool.or_eq_true, decide_eq_true_eq] at hself
    rcases hself with rfl | rfl
    · exact isPrintable_of_isQuote hq
    · decide
  next hno =>
  split
  · next hp =>
    simp only [Bool.or_eq_true, decide_eq_true_eq, not_or] at hno
    exact .inl ⟨rfl, hno.1, hno.2, hp⟩
  · refine .inr ?_
    split
    · exact ⟨'n', 0, 0, rfl, by decide⟩
    · split
      · exact ⟨'r', 0, 0, rfl, by decide⟩
      · split
        · exact ⟨'t', 0, 0, rfl, by decide⟩
        · split
          · exact ⟨'x', 2, _, rfl, by decide⟩
          · split
            · exact ⟨'u', 4, _, rfl, by decide⟩
            · exact ⟨'U', 8, _, rfl, by decide⟩

end Text

section Silent

variable {s : List Char} {c q : Char}

/-- Inside a literal, what stands for a character does not end it. -/
theorem leads_escapeChar (hq : isQuote q = true) (c : Char) :
    (Reading.text q false).Leads (escapeChar q c) (.text q false) := by
  rcases escapeChar_cases hq c with ⟨heq, hne, hb, hp⟩ | ⟨d, width, n, heq, -⟩
  · rw [heq]
    refine Reading.leads_inText (List.forall_mem_singleton.mpr ⟨hne, hb, ?_⟩)
    exact endsLine_of_isPrintable hp
  · rw [heq]
    exact Reading.leads_escaped hq (Reading.leads_inText (hexDigits_plain hq))

theorem leads_escapeChars (hq : isQuote q = true) (s : List Char) :
    (Reading.text q false).Leads (s.flatMap (escapeChar q)) (.text q false) := by
  induction s with
  | nil => exact Reading.leads_nil _
  | cons c rest ih => exact (leads_escapeChar hq c).append ih

theorem isQuote_quoteFor (s : List Char) : isQuote (quoteFor s) = true := by
  unfold quoteFor
  split <;> decide

/-- After its first quote, a text is read as further on, unless the next character is a quote too. -/
theorem leads_opened {s : List Char} {r : Reading} (h : (Reading.text q false).Leads (c :: s) r)
    (hc : c ≠ q) : (Reading.opened q false).Leads (c :: s) r := by
  refine ⟨?_, ?_⟩
  · rw [← h.after_eq, Reading.after_cons, Reading.after_cons, Reading.next, if_neg hc]
    rfl
  · rw [← h.remarks_eq, Reading.remarks_cons, Reading.remarks_cons, Reading.next, if_neg hc]
    rfl

/-- In code, a literal before a plain character has nothing to find in it. -/
theorem leads_quotedChars (hc : isPlain c = true) (s : List Char) :
    Reading.code.Leads (quotedChars s ++ [c]) .code := by
  have hplain : Reading.code.Leads [c] .code := Reading.leads_plain (by simpa using hc)
  have hq := isQuote_quoteFor s
  set q := quoteFor s with hqs
  have hopen : Reading.code.next q = .opened q false := by
    have hno : q ≠ '#' := by
      rintro hno
      rw [hno] at hq
      exact absurd hq (by decide)
    rw [Reading.next, Reading.fromCode, if_neg hno, if_pos hq]
  have hne : c ≠ q := by
    rintro rfl
    simp [isPlain, hq] at hc
  change Reading.code.Leads (q :: (s.flatMap (escapeChar q) ++ [q]) ++ [c]) .code
  rw [List.cons_append]
  refine .cons hopen rfl ?_
  cases s with
  | nil =>
    -- two quotes, and no third one
    have htwice : (Reading.opened q false).next q = .opened q true := by
      rw [Reading.next, if_pos rfl]
    have hlast : (Reading.opened q true).next c = .code := by
      rw [Reading.next, if_neg hne]
      exact hplain.after_eq
    exact .cons htwice rfl (.cons hlast rfl (Reading.leads_nil _))
  | cons d rest =>
    have hbody := leads_escapeChars hq (d :: rest)
    have hclose : (Reading.text q false).Leads [q] .code := by
      refine .cons ?_ rfl (Reading.leads_nil _)
      rw [Reading.next, if_neg Bool.false_ne_true, Reading.inText, if_pos rfl]
    have hall := (hbody.append hclose).append hplain
    rw [List.flatMap_cons] at hall ⊢
    rcases escapeChar_cases hq d with ⟨heq, hd, -⟩ | ⟨x, width, n, heq, -⟩
    · rw [heq] at hall ⊢
      exact leads_opened hall hd
    · rw [heq] at hall ⊢
      refine leads_opened hall ?_
      rintro hb
      rw [← hb] at hq
      exact absurd hq (by decide)

theorem silent_quoted (hc : isPlain c = true) (s : String) : Silent ((quoted s).toList ++ [c]) := by
  rw [quoted, onChars, String.toList_ofList]
  exact silent_of_leads (leads_quotedChars hc s.toList)

end Silent

/-! ### Literals in a docstring -/

section Stays

variable {s piece : List Char} {c : Char} {p : Pending}

/-- The quotes that are missing to three. -/
def Pending.missing : Pending → List Char
  | .clear => ['"', '"', '"']
  | .one => ['"', '"']
  | .two => ['"']
  | .escape => ['"', '"', '"']

/-- The quotes of a text, when nothing else means anything. -/
def Pending.count (p : Pending) (c : Char) : Option Pending := if c = '"' then p.quote else some .clear

theorem Pending.ne_escape_of_count {p' : Pending} (hp : p ≠ .escape) (h : p.count c = some p') :
    p' ≠ .escape := by
  unfold Pending.count at h
  split at h
  · cases p <;> simp_all [Pending.quote] <;> subst h <;> decide
  · cases h
    decide

/-- Three quotes are counted exactly in a text that has three quotes side by side. -/
theorem count_eq_none_iff (hp : p ≠ .escape) : s.foldlM Pending.count p = none ↔
    p.missing <+: s ∨ occurs docstringQuotes s = true := by
  induction s generalizing p with
  | nil => cases p <;> simp [Pending.missing, occurs, docstringQuotes]
  | cons c rest ih =>
    have hshorter : ['"', '"'] <+: rest → ['"'] <+: rest := fun h =>
      (List.prefix_append ['"'] ['"']).trans h
    have hprefix : docstringQuotes <+: rest → occurs docstringQuotes rest = true := by
      rintro ⟨more, rfl⟩
      simp [occurs, docstringQuotes]
    rw [List.foldlM_cons, occurs, Bool.or_eq_true, List.isPrefixOf_iff_prefix]
    by_cases hc : c = '"'
    · subst hc
      cases p with
      | escape => exact absurd rfl hp
      | two => simp [Pending.count, Pending.quote, Pending.missing]
      | one =>
        change rest.foldlM Pending.count .two = none ↔ _
        rw [ih (p := .two) (by decide), Pending.missing, Pending.missing, docstringQuotes,
          List.cons_prefix_cons, List.cons_prefix_cons]
        tauto
      | clear =>
        change rest.foldlM Pending.count .one = none ↔ _
        rw [ih (p := .one) (by decide), Pending.missing, Pending.missing, docstringQuotes,
          List.cons_prefix_cons]
        tauto
    · have hfirst : ¬ p.missing <+: c :: rest := by
        cases p <;> simp [Pending.missing, Ne.symm hc]
      have hthree : ¬ docstringQuotes <+: c :: rest := by
        simp [docstringQuotes, Ne.symm hc]
      have hnext : p.count c = some .clear := if_neg hc
      rw [hnext]
      change rest.foldlM Pending.count .clear = none ↔ _
      rw [ih (p := .clear) (by decide), or_iff_right hfirst, or_iff_right hthree]
      exact or_iff_right_of_imp hprefix

/-- In a docstring, what stands for a character in a literal counts as the character, as long as it is
no quote that ends the literal. -/
theorem after_escapeChar {q : Char} (hq : isQuote q = true) (hc : c = '"' → c ≠ q) (hp : p ≠ .escape) :
    p.after '"' (escapeChar q c) = p.count c := by
  by_cases hquote : c = '"'
  · subst hquote
    have hself : escapeChar q '"' = ['"'] := by
      simp only [isQuote, Bool.or_eq_true, decide_eq_true_eq] at hq
      rcases hq with rfl | rfl
      · exact absurd rfl (hc rfl)
      · decide
    rw [hself, Pending.after_cons, Pending.next_self, Pending.count, if_pos rfl]
    cases p <;> rfl
  · rw [Pending.count, if_neg hquote]
    rcases escapeChar_cases hq c with ⟨heq, hd, hb, -⟩ | ⟨d, width, n, heq, -⟩
    · rw [heq, Pending.after_cons, Pending.next_of_ne hquote hb]
      rfl
    · have hdigits : Pending.clear.after '"' (hexDigits width n) = some .clear :=
        stays_of_forall fun d hd =>
          let h := hexDigits_plain (q := '"') (by decide) d hd
          ⟨h.1, h.2.1⟩
      have hbackslash : p.next '"' '\\' = some .escape := by
        rw [Pending.next, if_neg (by decide), if_neg hp, if_pos rfl]
      have hnext : Pending.escape.next '"' d = some .clear := by
        by_cases hd : d = '"'
        · rw [hd, Pending.next_self, Pending.quote]
        · rw [Pending.next, if_neg hd, if_pos rfl]
      rw [heq, Pending.after_cons, hbackslash, Option.bind_some, Pending.after_cons, hnext,
        Option.bind_some, hdigits]

theorem after_escapeChars {q : Char} (hq : isQuote q = true) (hs : '"' ∈ s → q ≠ '"')
    (hp : p ≠ .escape) :
    p.after '"' (s.flatMap (escapeChar q)) = s.foldlM Pending.count p := by
  induction s generalizing p with
  | nil => rfl
  | cons c rest ih =>
    have hc : c = '"' → c ≠ q := by
      rintro rfl
      exact (hs List.mem_cons_self).symm
    rw [List.flatMap_cons, Pending.after_append, after_escapeChar hq hc hp, List.foldlM_cons]
    cases hcount : p.count c with
    | none => rfl
    | some p' =>
      exact ih (fun hm => hs (List.mem_cons_of_mem _ hm)) (Pending.ne_escape_of_count hp hcount)

theorem count_of_notMem (h : '"' ∉ s) (hs : s ≠ []) : s.foldlM Pending.count p = some .clear := by
  induction s generalizing p with
  | nil => exact absurd rfl hs
  | cons c rest ih =>
    have hc : p.count c = some .clear := by
      refine if_neg ?_
      rintro rfl
      exact h List.mem_cons_self
    rw [List.foldlM_cons, hc]
    cases rest with
    | nil => rfl
    | cons d more => exact ih (fun hm => h (List.mem_cons_of_mem _ hm)) (List.cons_ne_nil _ _)

/-- In a docstring, a literal before a character of no meaning stays inside exactly if its text does
not have three quotes side by side. -/
theorem stays_quotedChars_iff (hq : c ≠ '"') (hb : c ≠ '\\') (s : List Char) :
    Stays (quotedChars s ++ [c]) ↔ occurs docstringQuotes s = false := by
  have hlast : ∀ p : Pending, p.after '"' [c] = some .clear := fun p => by
    rw [Pending.after_cons, Pending.next_of_ne hq hb]
    rfl
  have hcount := count_eq_none_iff (s := s) (p := .clear) (by decide)
  have hoccurs : s.foldlM Pending.count .clear = none ↔ occurs docstringQuotes s = true := by
    rw [hcount, or_iff_right_of_imp]
    rintro ⟨more, rfl⟩
    rfl
  unfold Stays quotedChars
  by_cases hquote : (singleQuote ∈ s && doubleQuote ∉ s) = true
  · -- the text has no double quotes, and stands between two of them
    have hself : quoteFor s = '"' := if_pos hquote
    rw [Bool.and_eq_true, decide_eq_true_iff, decide_eq_true_iff] at hquote
    have hnot : '"' ∉ s := hquote.2
    have hne : s ≠ [] := List.ne_nil_of_mem hquote.1
    have hno : s.foldlM Pending.count .clear ≠ none := by
      rw [count_of_notMem hnot hne]
      nofun
    rw [hself, List.cons_append, Pending.after_cons, Pending.next_self, Pending.quote,
      Option.bind_some, Pending.after_append, Pending.after_append,
      after_escapeChars (by decide) (fun hm => absurd hm hnot) (by decide),
      count_of_notMem hnot hne, Option.bind_some, Pending.after_cons, Pending.next_self,
      Pending.quote, Option.bind_some, Pending.after_nil, Option.bind_some, hlast]
    simpa [← Bool.not_eq_true, ← hoccurs] using hno
  · have hself : quoteFor s = '\'' := if_neg hquote
    rw [hself, List.cons_append, Pending.after_cons, Pending.next_of_ne (by decide) (by decide),
      Option.bind_some, Pending.after_append, Pending.after_append,
      after_escapeChars (by decide) (fun _ => by decide) (by decide), ← Bool.not_eq_true, ← hoccurs]
    cases s.foldlM Pending.count .clear with
    | none => simp
    | some p =>
      rw [Option.bind_some, Pending.after_cons, Pending.next_of_ne (by decide) (by decide),
        Option.bind_some, Pending.after_nil, Option.bind_some, hlast]
      simp

end Stays

end RouteStubs
