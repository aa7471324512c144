import Mathlib.Data.List.TakeWhile
import RouteStubs.Proofs.Pointer
import RouteStubs.Proofs.Resolver

/-!
# The place that a pointer designates

A pointer is a slash before each of its tokens. In a token a tilde stands before a `0` or a `1` and
nowhere else, and the index of a list is a numeral without sign and without leading zeros. A resolver
goes further than that: a tilde that begins no escape stands for itself, and an index is whatever can
be read as an integer, which counts from the end of the list if it is negative. Each reference that is
resolved either designates its target, or it has such a slip on the way.

## Main definitions

* `Pointer.Token`, `Pointer.Numeral`: tokens with what they write, and numerals with their values.
* `Resolver.Enters`, `Resolver.Slips`: a step into a value by a proper token, and by another one.
* `Resolver.Designates`, `Resolver.Strays`: the mapping that a reference leads to by proper tokens
  alone, or after a slip.

## Main statements

* `Resolver.descend_eq_ok_iff`: what one step leads to.
* `Resolver.resolve_designates`: what a reference leads to, and why it leads nowhere.
-/

namespace RouteStubs

open Text

/-! ### Tokens and numerals -/

namespace Pointer

variable {w s t : List Char} {i : Nat}

/-- The token is well formed and writes these characters. -/
inductive Token : List Char → List Char → Prop
  | nil : Token [] []
  | plain {c : Char} {w s : List Char} (hslash : c ≠ '/') (htilde : c ≠ '~') (h : Token w s) :
      Token (c :: w) (c :: s)
  | tilde {w s : List Char} (h : Token w s) : Token ('~' :: '0' :: w) ('~' :: s)
  | slash {w s : List Char} (h : Token w s) : Token ('~' :: '1' :: w) ('/' :: s)

/-- The characters are digits, and they are the numeral of the number. The first digit is a zero only
if there is no other. -/
inductive Numeral : List Char → Nat → Prop
  | digit {d : Nat} (hd : d < 10) : Numeral [d.digitChar] d
  | next {w : List Char} {i d : Nat} (h : Numeral w i) (hi : i ≠ 0) (hd : d < 10) :
      Numeral (w ++ [d.digitChar]) (10 * i + d)

/-- What a token writes if a tilde that begins no escape stands for itself. -/
def decode : List Char → List Char
  | '~' :: '0' :: w => '~' :: decode w
  | '~' :: '1' :: w => '/' :: decode w
  | c :: w => c :: decode w
  | [] => []

theorem replace_tilde {by_ : List Char} {d : Char} (h : s.head? ≠ some d) :
    replace ['~', d] by_ ('~' :: s) = '~' :: replace ['~', d] by_ s := by
  rw [replace, replaceFrom, if_neg]
  · rfl
  · cases s with
    | nil => simp
    | cons c s => simpa using Ne.symm h

theorem head?_replace_slash (h : w.head? ≠ some '0') :
    (replace ['~', '1'] ['/'] w).head? ≠ some '0' := by
  cases w with
  | nil => simp [replace, replaceFrom]
  | cons c w =>
    rw [replace, replaceFrom]
    split
    · simp
    · simpa using h

/-- Slashes are read back first and tildes after them, and still each tilde is read once. -/
theorem unescapeChars_eq_decode (w : List Char) : unescapeChars w = decode w := by
  unfold unescapeChars
  induction w using decode.induct with
  | case1 w ih => simpa [decode, replace, replaceFrom] using ih
  | case2 w ih => simpa [decode, replace, replaceFrom] using ih
  | case3 c w hzero hone ih =>
    rw [decode, ← ih]
    · by_cases hc : c = '~'
      · subst hc
        have hone' : w.head? ≠ some '1' := fun h => by
          obtain ⟨rest, rfl⟩ := List.head?_eq_some_iff.mp h
          exact hone rest rfl rfl
        have hzero' : w.head? ≠ some '0' := fun h => by
          obtain ⟨rest, rfl⟩ := List.head?_eq_some_iff.mp h
          exact hzero rest rfl rfl
        rw [replace_tilde hone', replace_tilde (head?_replace_slash hzero')]
      · rw [replace_cons_of_ne hc, replace_cons_of_ne hc]
    · exact hzero
    · exact hone
  | case4 => rfl

theorem Token.decode_eq (h : Token w s) : decode w = s := by
  induction h with
  | nil => rfl
  | plain _ htilde _ ih =>
    rw [decode, ih]
    · exact fun _ h => absurd h htilde
    · exact fun _ h => absurd h htilde
  | tilde _ ih => rw [decode, ih]
  | slash _ ih => rw [decode, ih]

theorem Numeral.exists_digit {c : Char} (h : Numeral w i) (hc : c ∈ w) :
    ∃ d < 10, c = d.digitChar := by
  induction h with
  | digit hd => exact ⟨_, hd, List.mem_singleton.mp hc⟩
  | next _ _ hd ih =>
    rcases List.mem_append.mp hc with hc | hc
    · exact ih hc
    · exact ⟨_, hd, List.mem_singleton.mp hc⟩

/-- What no digit is, no character of a numeral is. -/
theorem Numeral.forall_mem {p : Char → Prop} (h : Numeral w i) (hp : ∀ d < 10, p (Nat.digitChar d)) :
    ∀ c ∈ w, p c := by
  intro c hc
  obtain ⟨d, hd, rfl⟩ := h.exists_digit hc
  exact hp d hd

theorem decode_of_notMem (h : '~' ∉ w) : decode w = w := by
  induction w with
  | nil => rfl
  | cons c w ih =>
    rw [List.mem_cons, not_or] at h
    rw [decode, ih h.2]
    · exact fun _ hc => absurd hc (Ne.symm h.1)
    · exact fun _ hc => absurd hc (Ne.symm h.1)

/-- A numeral is a token that writes itself. -/
theorem Numeral.decode_eq (h : Numeral w i) : decode w = w :=
  decode_of_notMem fun hw => h.forall_mem (p := (· ≠ '~')) (by decide) _ hw rfl

end Pointer

/-! ### Integers -/

namespace Text

open Pointer

variable {w : List Char} {acc n d i : Nat} {c : Char}

theorem readDigits?_append_digit {open_ : Bool} (h : readDigits? acc open_ w = some n)
    (hd : decimalValue? c = some d) : readDigits? acc open_ (w ++ [c]) = some (10 * n + d) := by
  induction w generalizing acc open_ with
  | nil =>
    cases open_ with
    | true => cases h
    | false =>
      cases h
      simp [readDigits?, hd]
  | cons b w ih =>
    rw [List.cons_append]
    unfold readDigits? at h ⊢
    split
    · next hb =>
      rw [hb] at h
      exact ih h
    · next hb =>
      rw [hb] at h
      split
      · next hunderscore =>
        simp only [if_pos hunderscore] at h
        exact ih h
      · next hunderscore =>
        simp only [if_neg hunderscore] at h
        cases h

theorem readDigits?_numeral (h : Numeral w i) : readDigits? 0 true w = some i := by
  have hdigit : ∀ d < 10, decimalValue? (Nat.digitChar d) = some d := by decide
  induction h with
  | digit hd => simp [readDigits?, hdigit _ hd]
  | next _ _ hd ih => exact readDigits?_append_digit ih (hdigit _ hd)

theorem trim_of_forall {drop : Char → Bool} (h : ∀ c ∈ w, drop c = false) : trim drop w = w :=
  trim_eq_self (fun c hc => h c (List.mem_of_mem_head? hc))
    fun c hc => h c (List.mem_of_getLast? hc)

/-- A numeral is read as its number. -/
theorem readInt?_numeral (h : Numeral w i) : readInt? w = some (i : Int) := by
  have hspace : ∀ c ∈ w, isSpace c = false := h.forall_mem (by decide)
  have hsign : ∀ c ∈ w, c ≠ '-' ∧ c ≠ '+' := h.forall_mem (by decide)
  rw [readInt?, trim_of_forall hspace]
  split
  · exact absurd rfl (hsign '-' List.mem_cons_self).1
  · exact absurd rfl (hsign '+' List.mem_cons_self).2
  · rw [readDigits?_numeral h]
    rfl

end Text

/-! ### Steps into a value -/

namespace Resolver

open Pointer

variable {document v u x : Value} {w : List Char} {ws : List (List Char)} {ref : String}
  {r : Resolver}

/-- A step into a value by a proper token: to an entry of a mapping or to an item of a list. -/
inductive Enters : List Char → Value → Value → Prop
  | entry {w s : List Char} {origin : Nat} {entries : Entries} {v : Value} (h : Token w s)
      (hv : entries.text? (String.ofList s) = some v) : Enters w (.mapping origin entries) v
  | item {w : List Char} {i : Nat} {items : List Value} {v : Value} (h : Numeral w i)
      (hv : items[i]? = some v) : Enters w (.list items) v

/-- A step into a value by something that is no proper token there. -/
inductive Slips : List Char → Value → Value → Prop
  | entry {w : List Char} {origin : Nat} {entries : Entries} {v : Value} (h : ∀ s, ¬ Token w s)
      (hv : entries.text? (String.ofList (decode w)) = some v) : Slips w (.mapping origin entries) v
  | item {w : List Char} {index : Int} {items : List Value} {v : Value} (h : ∀ i, ¬ Numeral w i)
      (hindex : Text.readInt? (decode w) = some index) (hv : item? items index = some v) :
      Slips w (.list items) v

/-- A step into a value by a proper token or by a slip. -/
def Passes (w : List Char) (v u : Value) : Prop := Enters w v u ∨ Slips w v u

theorem item?_natCast (items : List Value) (i : Nat) : item? items i = items[i]? := by
  simp [item?]

/-- A step by what a piece of a reference writes leads on by a proper token or by a slip. -/
theorem descend_eq_ok_iff :
    descend ref (String.ofList (unescapeChars w)) v = .ok u ↔ Passes w v u := by
  rw [unescapeChars_eq_decode, Passes]
  constructor
  · intro h
    cases v with
    | scalar s => cases h
    | list items =>
      rw [descend, String.toList_ofList] at h
      split at h
      · next hv =>
        cases h
        obtain ⟨index, hindex, hv⟩ := Option.bind_eq_some_iff.mp hv
        by_cases hnumeral : ∃ i, Numeral w i
        · obtain ⟨i, hi⟩ := hnumeral
          rw [hi.decode_eq, Text.readInt?_numeral hi] at hindex
          cases hindex
          rw [item?_natCast] at hv
          exact .inl (.item hi hv)
        · exact .inr (.item (not_exists.mp hnumeral) hindex hv)
      · cases h
    | mapping origin entries =>
      rw [descend] at h
      split at h
      · next hv =>
        cases h
        by_cases htoken : ∃ s, Token w s
        · obtain ⟨s, hs⟩ := htoken
          rw [hs.decode_eq] at hv
          exact .inl (.entry hs hv)
        · exact .inr (.entry (not_exists.mp htoken) hv)
      · cases h
  · rintro (h | h)
    · cases h with
      | entry hs hv => rw [descend, hs.decode_eq, hv]
      | item hi hv =>
        rw [descend, String.toList_ofList, hi.decode_eq, Text.readInt?_numeral hi, Option.bind_some,
          item?_natCast, hv]
    · cases h with
      | entry _ hv => rw [descend, hv]
      | item _ hindex hv => rw [descend, String.toList_ofList, hindex, Option.bind_some, hv]

theorem Passes.unique (h : Passes w v u) (h' : Passes w v x) : u = x := by
  have hiff : ∀ u, descend "" (String.ofList (unescapeChars w)) v = .ok u ↔ Passes w v u :=
    fun _ => descend_eq_ok_iff
  rw [← hiff] at h h'
  exact Except.ok.inj (h.symm.trans h')

/-- What enters a value makes no slip there. -/
theorem Enters.not_slips (h : Enters w v u) : ¬ Slips w v x := by
  intro hslips
  cases h with
  | entry h _ => cases hslips with | entry hno _ => exact hno _ h
  | item h _ => cases hslips with | item hno _ _ => exact hno _ h

/-! ### Walks -/

/-- A walk from one value to another, by one step for each of the tokens. -/
inductive Walks (steps : List Char → Value → Value → Prop) : List (List Char) → Value → Value → Prop
  | here {v : Value} : Walks steps [] v v
  | step {w : List Char} {ws : List (List Char)} {v u x : Value} (h : steps w v u)
      (hrest : Walks steps ws u x) : Walks steps (w :: ws) v x

theorem walk_eq_ok_iff :
    walk ref (ws.map fun w => String.ofList (unescapeChars w)) v = .ok x ↔ Walks Passes ws v x := by
  induction ws generalizing v with
  | nil =>
    constructor
    · rintro ⟨⟩
      exact .here
    · rintro ⟨⟩
      rfl
  | cons w ws ih =>
    rw [List.map_cons, walk]
    constructor
    · intro h
      cases hd : descend ref (String.ofList (unescapeChars w)) v with
      | error fault => rw [hd] at h; cases h
      | ok u =>
        rw [hd] at h
        exact .step (descend_eq_ok_iff.mp hd) (ih.mp h)
    · rintro ⟨⟩
      next u hstep hrest =>
      rw [descend_eq_ok_iff.mpr hstep]
      exact ih.mpr hrest

theorem Walks.mono {steps steps' : List Char → Value → Value → Prop} (h : Walks steps ws v x)
    (hsteps : ∀ w v u, steps w v u → steps' w v u) : Walks steps' ws v x := by
  induction h with
  | here => exact .here
  | step h _ ih => exact .step (hsteps _ _ _ h) ih

/-- Before the first slip each step is by a proper token. -/
theorem walks_passes_iff : Walks Passes ws v x ↔ Walks Enters ws v x ∨
    ∃ front w back u y, ws = front ++ w :: back ∧ Walks Enters front v u ∧ Slips w u y ∧
      Walks Passes back y x := by
  constructor
  · intro h
    induction h with
    | here => exact .inl .here
    | @step w ws v u x h hrest ih =>
      rcases h with h | h
      · rcases ih with ih | ⟨front, w', back, u', y, rfl, hfront, hslips, hback⟩
        · exact .inl (.step h ih)
        · exact .inr ⟨w :: front, w', back, u', y, rfl, .step h hfront, hslips, hback⟩
      · exact .inr ⟨[], w, ws, v, u, rfl, .here, h, hrest⟩
  · rintro (h | ⟨front, w, back, u, y, rfl, hfront, hslips, hback⟩)
    · exact h.mono fun _ _ _ => .inl
    · induction hfront with
      | here => exact .step (.inr hslips) hback
      | step h _ ih => exact .step (.inl h) (ih hslips)

/-- Where steps by proper tokens are possible, there are no slips among them. -/
theorem Walks.not_slips {front back : List (List Char)} {y : Value}
    (h : Walks Enters (front ++ w :: back) v x) (hfront : Walks Enters front v u) :
    ¬ Slips w u y := by
  induction hfront with
  | here =>
    cases h with
    | step hstep _ => exact hstep.not_slips
  | step hfirst _ ih =>
    cases h with
    | step hstep hrest =>
      obtain rfl := Passes.unique (.inl hfirst) (.inl hstep)
      exact ih hrest

/-! ### References -/

/-- Tokens as a pointer writes them, with a slash before each of them. -/
def written (ws : List (List Char)) : List Char := ws.flatMap ('/' :: ·)

/-- The reference is a `#` and a well-formed pointer, which leads to the mapping. -/
def Designates (document : Value) (ref : String) (v : Value) : Prop :=
  v.isMapping = true ∧ ∃ ws, (∀ w ∈ ws, '/' ∉ w) ∧ ref.toList = '#' :: written ws ∧
    Walks Enters ws document v

/-- The reference leads to the mapping, and the first slip on the way is at one of its tokens. -/
def Strays (document : Value) (ref : String) (v : Value) : Prop :=
  v.isMapping = true ∧ ∃ front w back u y, (∀ t ∈ front ++ w :: back, '/' ∉ t) ∧
    ref.toList = '#' :: written (front ++ w :: back) ∧ Walks Enters front document u ∧
    Slips w u y ∧ Walks Passes back y v

theorem pieces_written (hw : '/' ∉ w) (hws : ∀ w ∈ ws, '/' ∉ w) :
    written (w :: ws) = '/' :: (w ++ written ws) ∧ pieces '/' (w ++ written ws) = w :: ws :=
  ⟨rfl, Text.pieces_flatMap hw hws⟩

theorem written_injOn {ws' : List (List Char)} (hws : ∀ w ∈ ws, '/' ∉ w)
    (hws' : ∀ w ∈ ws', '/' ∉ w) (h : written ws = written ws') : ws = ws' := by
  cases ws with
  | nil =>
    cases ws' with
    | nil => rfl
    | cons w' ws' => cases h
  | cons w ws =>
    cases ws' with
    | nil => cases h
    | cons w' ws' =>
      rw [List.forall_mem_cons] at hws hws'
      have htail := (List.cons.inj h).2
      rw [← (pieces_written hws.1 hws.2).2, ← (pieces_written hws'.1 hws'.2).2]
      exact congrArg (pieces '/') htail

theorem segments_eq_ok_iff {segments : List String} :
    Pointer.segments ref = .ok segments ↔ ∃ ws, (∀ w ∈ ws, '/' ∉ w) ∧
      ref.toList = '#' :: written ws ∧
      segments = ws.map fun w => String.ofList (unescapeChars w) := by
  constructor
  · intro h
    rw [Pointer.segments] at h
    split at h
    · next hl =>
      cases h
      exact ⟨[], List.forall_mem_nil _, hl, rfl⟩
    · next rest hl =>
      cases h
      refine ⟨pieces '/' rest, fun w => Text.notMem_of_mem_pieces, ?_, rfl⟩
      rw [hl, written, Text.flatMap_pieces]
    · cases h
    · cases h
  · rintro ⟨ws, hws, hl, rfl⟩
    cases ws with
    | nil =>
      rw [Pointer.segments, hl]
      rfl
    | cons w ws =>
      rw [List.forall_mem_cons] at hws
      have hpieces := pieces_written hws.1 hws.2
      rw [hpieces.1] at hl
      rw [Registry.segments_of_toList hl, hpieces.2]

theorem target_eq_ok_iff {v : Value} : target document ref = .ok v ↔
    v.isMapping = true ∧ ∃ ws, (∀ w ∈ ws, '/' ∉ w) ∧ ref.toList = '#' :: written ws ∧
      Walks Passes ws document v := by
  rw [target_eq_ok]
  constructor
  · rintro ⟨segments, hs, hwalk, hv⟩
    obtain ⟨ws, hws, hl, rfl⟩ := segments_eq_ok_iff.mp hs
    exact ⟨hv, ws, hws, hl, walk_eq_ok_iff.mp hwalk⟩
  · rintro ⟨hv, ws, hws, hl, hwalks⟩
    exact ⟨_, segments_eq_ok_iff.mpr ⟨ws, hws, hl, rfl⟩, walk_eq_ok_iff.mpr hwalks, hv⟩

/-- The target of a reference is what it designates, or what it comes to after a slip. -/
theorem target_eq_ok_iff_designates {v : Value} :
    target document ref = .ok v ↔ Designates document ref v ∨ Strays document ref v := by
  rw [target_eq_ok_iff]
  constructor
  · rintro ⟨hv, ws, hws, hl, hwalks⟩
    rcases walks_passes_iff.mp hwalks with h | ⟨front, w, back, u, y, rfl, h⟩
    · exact .inl ⟨hv, ws, hws, hl, h⟩
    · exact .inr ⟨hv, front, w, back, u, y, hws, hl, h⟩
  · rintro (⟨hv, ws, hws, hl, h⟩ | ⟨hv, front, w, back, u, y, hws, hl, h⟩)
    · exact ⟨hv, ws, hws, hl, walks_passes_iff.mpr (.inl h)⟩
    · exact ⟨hv, _, hws, hl, walks_passes_iff.mpr (.inr ⟨front, w, back, u, y, rfl, h⟩)⟩

/-- A reference that designates a mapping does not come to any after a slip. -/
theorem Designates.not_strays (h : Designates document ref v) : ¬ Strays document ref x := by
  rintro ⟨-, front, w, back, u, y, hws', hl', hfront, hslips, -⟩
  obtain ⟨-, ws, hws, hl, hwalks⟩ := h
  obtain rfl := written_injOn hws hws' (List.cons.inj (hl.symm.trans hl')).2
  exact hwalks.not_slips hfront hslips

theorem resolve_answers (hr : r.Recalls document) (ref : Value) :
    ((resolve ref).runFrom r).1.map Resolved.node = answer document ref := by
  have hends : (resolve ref).Ends r (fun resolved _ => answer document ref = .ok resolved.node)
      fun fault _ => answer document ref = .error fault :=
    (resolve_ends hr ref).imp (fun _ _ h => h.1) fun _ _ h => h.1
  unfold Step.Ends at hends
  split at hends
  · next hrun => rw [hrun, hends]; rfl
  · next hrun => rw [hrun, hends]; rfl

/-- A reference is resolved to the mapping that it designates, and to one that it comes to after a
slip, and it has not both. Otherwise it is refused under its own name: as no reference into the
document if it does not start with a `#`, and as broken if it does. -/
theorem resolve_designates (h : Reached document r) (ref : String) :
    (∀ v, ((resolve (.text ref)).runFrom r).1.map Resolved.node = .ok v ↔
      Designates document ref v ∨ Strays document ref v) ∧
    (∀ v x, Designates document ref v → ¬ Strays document ref x) ∧
    ∀ fault, ((resolve (.text ref)).runFrom r).1 = .error fault → Refused ref fault := by
  have hanswers := resolve_answers h.recalls (.text ref)
  rw [answer_text] at hanswers
  refine ⟨fun v => ?_, fun v x hv => hv.not_strays, fun fault hfault => ?_⟩
  · rw [hanswers, target_eq_ok_iff_designates]
  · rw [hfault] at hanswers
    exact target_error hanswers.symm

/-- The item of a list, in a resolver that has been asked for what is not there. -/
theorem resolve_designates_item :
    let item : Value := .mapping 1 [(.text "b", .scalar .null)]
    let document : Value := .mapping 0 [(.text "a~", .list [item])]
    ∃ r, Reached document r ∧ r.chain = [.text "#/b"] ∧ Designates document "#/a~0/0" item ∧
      ((resolve (.text "#/a~0/0")).runFrom r).1.map Resolved.node = .ok item := by
  intro item document
  have hr : Reached document (enter (.text "#/b")
      ((resolve (.text "#/b")).runFrom (ofDocument document)).2) := .entered (.resolved .start _) _
  have hitem : Designates document "#/a~0/0" item :=
    ⟨rfl, ["a~0".toList, "0".toList], by decide, by decide,
      .step (.entry (.plain (by decide) (by decide) (.tilde .nil)) rfl)
        (.step (.item (.digit (d := 0) (by decide)) rfl) .here)⟩
  exact ⟨_, hr, rfl, hitem, ((resolve_designates hr "#/a~0/0").1 item).mpr (.inl hitem)⟩

/-- An index that counts from the end is no part of a pointer, and still it is followed. -/
theorem not_resolve_designates :
    ∃ document r ref v, Reached document r ∧
      ((resolve (.text ref)).runFrom r).1.map Resolved.node = .ok v ∧
      ¬ Designates document ref v := by
  have hslips : Slips "-1".toList (.list [.mapping 1 []]) (.mapping 1 []) := by
    have hindex : Text.readInt? (Pointer.decode "-1".toList) = some (-1) := by decide
    refine .item (fun i hi => ?_) hindex rfl
    exact hi.forall_mem (p := (· ≠ '-')) (by decide) '-' (by decide) rfl
  have hstrays : Strays (.mapping 0 [(.text "a", .list [.mapping 1 []])]) "#/a/-1" (.mapping 1 []) :=
    ⟨rfl, ["a".toList], "-1".toList, [], .list [.mapping 1 []], .mapping 1 [], by decide, by decide,
      .step (.entry (.plain (by decide) (by decide) .nil) rfl) .here, hslips, .here⟩
  exact ⟨_, _, "#/a/-1", .mapping 1 [], .start, by rfl, fun h => h.not_strays hstrays⟩

end Resolver

end RouteStubs
