import RouteStubs.Proofs.Shape.Throughout
import RouteStubs.Proofs.Written

/-!
# Type expressions stay where they are put

A type expression is made of names, brackets and the literals of enumerations. Of these, only the
literals of texts can matter to a reader, and in code they do not.

## Main definitions

* `isTame`: a character that means nothing, neither in code nor in a docstring.
* `Shape.quotedTexts`: the texts that a type expression has literals of.
* `Shape.RefersLegally`: a handle is of a legal name.
* `Shape.Contained`: no text of a type expression has three quotes side by side.

## Main statements

* `Shape.silent_typeText`: in code, there are no docstrings and comments in a type expression.
* `Shape.splits_typeText`: in a docstring, a type expression stays inside exactly if the shape is
  contained.
-/

namespace RouteStubs

open Text

/-! ### Characters of no meaning -/

/-- A character that means nothing, neither in code nor in a docstring. -/
def isTame (c : Char) : Bool := isPlain c && c != '\\'

section Tame

variable {c : Char} {s : List Char} {text text' : String}

theorem Name.IsNameChar.ne {d : Char} (h : Name.IsNameChar c) (hword : Name.isWordChar d = false)
    (hline : d ≠ '_') : c ≠ d := by
  rintro rfl
  rcases h with h | h
  · rw [hword] at h
    cases h
  · exact hline h

theorem isTame_of_isNameChar (h : Name.IsNameChar c) : isTame c = true := by
  have hdouble : c ≠ doubleQuote := h.ne (by decide) (by decide)
  have hsingle : c ≠ singleQuote := h.ne (by decide) (by decide)
  have hnumber : c ≠ '#' := h.ne (by decide) (by decide)
  have hbackslash : c ≠ '\\' := h.ne (by decide) (by decide)
  simp [isTame, isPlain, isQuote, hdouble, hsingle, hnumber, hbackslash]

theorem silent_of_tame (h : ∀ c ∈ s, isTame c = true) : Silent s :=
  silent_of_leads (Reading.leads_plain fun c hc => (Bool.and_eq_true_iff.mp (h c hc)).1)

/-- A text without any meaning of its own. -/
def Tame (text : String) : Prop := ∀ c ∈ text.toList, isTame c = true

instance (text : String) : Decidable (Tame text) :=
  decidable_of_iff (text.toList.all isTame = true) List.all_eq_true

/-- A text that is given with its characters. -/
theorem Tame.of_chars (h : text = String.ofList s) (hs : s.all isTame = true) : Tame text := by
  rwa [Tame, h, String.toList_ofList, ← List.all_eq_true]

theorem Tame.append (h : Tame text) (h' : Tame text') : Tame (text ++ text') := by
  rw [Tame, String.toList_append]
  exact List.forall_mem_append.mpr ⟨h, h'⟩

theorem Tame.silent (h : Tame text) : Silent text.toList := silent_of_tame h

theorem silent_append (h : Silent text.toList) (h' : Silent text'.toList) :
    Silent (text ++ text').toList := by
  rw [String.toList_append]
  exact h.append h'

theorem ne_of_isTame (h : isTame c = true) : c ≠ '"' ∧ c ≠ '\\' := by
  refine ⟨?_, ?_⟩ <;> rintro rfl <;> exact absurd h (by decide)

theorem stays_of_tame (h : ∀ c ∈ s, isTame c = true) : Stays s :=
  stays_of_forall fun c hc => ne_of_isTame (h c hc)

theorem Tame.stays (h : Tame text) : Stays text.toList := stays_of_tame h

theorem stays_append (h : Stays text.toList) (h' : Stays text'.toList) :
    Stays (text ++ text').toList := by
  rw [String.toList_append]
  exact h.append h'

theorem splits_of_stays (h : Stays s) : Splits Stays s True := fun _ => by
  rw [h.append_iff, true_and]

/-! ### Numbers -/

theorem isTame_of_isAsciiDigit (h : isAsciiDigit c = true) : isTame c = true :=
  isTame_of_isNameChar (.inl (by simp [Name.isWordChar, h]))

theorem isTame_decimalText (n : Nat) : ∀ c ∈ decimalText n, isTame c = true := fun _ hc =>
  isTame_of_isAsciiDigit (Name.isAsciiDigit_of_mem_decimalText hc)

theorem isTame_intText (n : Int) : ∀ c ∈ intText n, isTame c = true := by
  unfold intText
  split
  · exact List.forall_mem_cons.mpr ⟨by decide, isTame_decimalText _⟩
  · exact isTame_decimalText _

theorem isTame_exponentText (k : Int) : ∀ c ∈ Binary64.exponentText k, isTame c = true := by
  refine List.forall_mem_cons.mpr ⟨?_, ?_⟩
  · split <;> decide
  · split
    · exact List.forall_mem_cons.mpr ⟨by decide, isTame_decimalText _⟩
    · exact isTame_decimalText _

theorem isTame_replicate (n : Nat) : ∀ c ∈ List.replicate n '0', isTame c = true := by
  intro c hc
  rw [List.eq_of_mem_replicate hc]
  decide

theorem isTame_layout (h : ∀ c ∈ s, isTame c = true) (k : Int) :
    ∀ c ∈ Binary64.layout s k, isTame c = true := by
  have htake : ∀ n, ∀ c ∈ s.take n, isTame c = true := fun n c hc => h c (List.mem_of_mem_take hc)
  have hdrop : ∀ n, ∀ c ∈ s.drop n, isTame c = true := fun n c hc => h c (List.mem_of_mem_drop hc)
  have hpoint : ∀ tail : List Char, (∀ c ∈ tail, isTame c = true) →
      ∀ c ∈ '.' :: tail, isTame c = true := fun _ ht => List.forall_mem_cons.mpr ⟨by decide, ht⟩
  unfold Binary64.layout
  split
  · refine List.forall_mem_append.mpr ⟨List.forall_mem_append.mpr ⟨htake 1, ?_⟩, ?_⟩
    · split
      · exact List.forall_mem_nil _
      · exact hpoint _ (hdrop 1)
    · exact List.forall_mem_cons.mpr ⟨by decide, isTame_exponentText k⟩
  · split
    · refine List.forall_mem_cons.mpr ⟨by decide, hpoint _ ?_⟩
      exact List.forall_mem_append.mpr ⟨isTame_replicate _, h⟩
    · have hshown := List.forall_mem_append.mpr ⟨h, isTame_replicate (k.toNat + 1 - s.length)⟩
      refine List.forall_mem_append.mpr
        ⟨fun c hc => hshown c (List.mem_of_mem_take hc), hpoint _ ?_⟩
      split
      · exact List.all_eq_true.mp (by decide)
      · exact fun c hc => hshown c (List.mem_of_mem_drop hc)

theorem isTame_written (x : Binary64) : ∀ c ∈ x.written, isTame c = true := by
  cases x with
  | finite negative m e =>
    have hmagnitude : ∀ c ∈ if m = 0 then ['0', '.', '0'] else
        Binary64.layout (decimalText (Binary64.shortest m e).1) (Binary64.shortest m e).2,
        isTame c = true := by
      split
      · exact List.all_eq_true.mp (by decide)
      · exact isTame_layout (isTame_decimalText _) _
    simp only [Binary64.written]
    split
    · exact List.forall_mem_cons.mpr ⟨by decide, hmagnitude⟩
    · exact hmagnitude
  | infinite negative => cases negative <;> exact List.all_eq_true.mp (by decide)
  | undefined => exact List.all_eq_true.mp (by decide)

/-- The literals of all scalars but texts. -/
theorem isTame_literal {v : Scalar} (h : ∀ s, v ≠ .text s) :
    ∀ c ∈ v.literal.toList, isTame c = true := by
  cases v with
  | null => exact List.all_eq_true.mp (by decide)
  | bool b => cases b <;> exact List.all_eq_true.mp (by decide)
  | int n =>
    rw [Scalar.literal, String.toList_ofList]
    exact isTame_intText n
  | real x =>
    rw [Scalar.literal, String.toList_ofList]
    exact isTame_written x
  | text s => exact absurd rfl (h s)

end Tame

/-! ### Type expressions -/

namespace Shape

/-- The text that a scalar is, if it is one. -/
def textOf? : Scalar → Option String
  | .text s => some s
  | _ => none

theorem textOf?_eq_some {v : Scalar} {s : String} : textOf? v = some s ↔ v = .text s := by
  cases v <;> simp [textOf?]

mutual

/-- The texts that the type expression of a shape has literals of. -/
def quotedTexts : Shape → List String
  | .record _ trailer _ _ => trailerQuotedTexts trailer
  | .array element => quotedTexts element
  | .union variants _ => variantsQuotedTexts variants
  | .enum values => values.filterMap textOf?
  | .primitive _ _ => []
  | .handle _ => []
  | .unknown => []

/-- The texts that the type expression of a trailer has literals of. -/
def trailerQuotedTexts : Option Shape → List String
  | none => []
  | some node => quotedTexts node

/-- The texts that the type expressions of variants have literals of. -/
def variantsQuotedTexts : List Shape → List String
  | [] => []
  | node :: rest => quotedTexts node ++ variantsQuotedTexts rest

end

/-- If the shape is a handle, then it is one of a legal name. -/
def RefersLegally (node : Shape) : Prop := ∀ id, node = .handle id → Name.Legal id

section Splits

variable {Q : List Char → Prop} {C : String → Prop} {quoteRefs : Bool}

/-- What type expressions are made of may stand in texts with a property, the literals of texts under
a condition. -/
structure Takes (Q : List Char → Prop) (C : String → Prop) (quoteRefs : Bool) : Prop where
  tame : ∀ s, (∀ c ∈ s, isTame c = true) → Splits Q s True
  text : ∀ s c, isTame c = true → Splits Q ((quoted s).toList ++ [c]) (C s)
  handle : ∀ id, Name.Legal id → Splits Q (typeText quoteRefs (.handle id)).toList True

theorem typeTexts_eq_map (nodes : List Shape) :
    typeTexts quoteRefs nodes = nodes.map (typeText quoteRefs) := by
  induction nodes with
  | nil => rfl
  | cons node rest ih => rw [typeTexts, ih, List.map_cons]

theorem variantsQuotedTexts_eq_flatMap (nodes : List Shape) :
    variantsQuotedTexts nodes = nodes.flatMap quotedTexts := by
  induction nodes with
  | nil => rfl
  | cons node rest ih => rw [variantsQuotedTexts, ih, List.flatMap_cons]

/-- What may come after a type expression in a list. -/
theorem isTame_mark {c : Char} (h : c ∈ [',', ']']) : isTame c = true :=
  List.all_eq_true.mp (show [',', ']'].all isTame = true by decide) c h

theorem isTame_kindText (kind : Kind) (format : Value) :
    ∀ c ∈ (kindText kind format).toList, isTame c = true := by
  have hall : ∀ text ∈ ["bytes", "str", "int", "float", "bool", "None", "Any"],
      Tame text := by decide
  apply hall
  cases kind with
  | string => cases hb : format.isText "binary" <;> simp [kindText, hb]
  | _ => simp [kindText]

/-- A literal before a character that means nothing. -/
theorem Takes.literal (h : Takes Q C quoteRefs) (v : Scalar) {c : Char} (hc : isTame c = true) :
    Splits Q (v.literal.toList ++ [c]) (∀ s, v = .text s → C s) := by
  cases v with
  | text s => exact (h.text s c hc).congr (by simp)
  | _ =>
    refine (h.tame _ ?_).congr (by simp)
    exact List.forall_mem_append.mpr ⟨isTame_literal nofun, List.forall_mem_singleton.mpr hc⟩

mutual

/-- A type expression is taken exactly if the literals of its texts are. -/
theorem Takes.splits (h : Takes Q C quoteRefs) : ∀ {node : Shape}, node.Throughout RefersLegally →
    Splits Q (typeText quoteRefs node).toList (∀ s ∈ node.quotedTexts, C s)
  | .primitive kind format, _ => (h.tame _ (isTame_kindText kind format)).congr (by simp [quotedTexts])
  | .record _ trailer _ _, hl => by
    have hopen := h.tame _ (show Tame "dict[str, " by decide)
    have hclose := h.tame _ (show Tame "]" by decide)
    have htrailer : ∀ node, trailer = some node → node.Throughout RefersLegally := by
      rintro node rfl
      exact hl.child .further
    have hinner := h.splitsTrailer htrailer
    rw [typeText, String.toList_append, String.toList_append]
    exact ((hopen.append hinner).append hclose).congr (by simp [quotedTexts])
  | .array element, hl => by
    have hopen := h.tame _ (show Tame "list[" by decide)
    have hclose := h.tame _ (show Tame "]" by decide)
    have hinner := h.splits (hl.child .element)
    rw [typeText, String.toList_append, String.toList_append]
    exact ((hopen.append hinner).append hclose).congr (by simp [quotedTexts])
  | .union variants _, hl => by
    have hopen := h.tame _ (show Tame "Union[" by decide)
    have hinner : Splits Q (", ".toList.intercalate
        (variants.map fun node => (typeText quoteRefs node).toList) ++ [']'])
        (∀ node ∈ variants, ∀ s ∈ node.quotedTexts, C s) := by
      refine splits_intercalate (h.tame [' '] (List.all_eq_true.mp (by decide)))
        (h.tame [']'] (List.all_eq_true.mp (by decide))) fun node hn c hc => ?_
      have hnode := h.splitsEach (fun node hn => hl.child (.variant hn)) node hn
      have hnext := h.tame [c] (List.forall_mem_singleton.mpr (isTame_mark hc))
      exact (hnode.append hnext).congr (by rw [and_true])
    rw [typeText, typeTexts_eq_map, String.toList_append, String.toList_append,
      String.toList_intercalate, List.map_map, List.append_assoc]
    refine (hopen.append hinner).congr ?_
    rw [true_and, quotedTexts, variantsQuotedTexts_eq_flatMap, List.forall_mem_flatMap]
  | .enum values, _ => by
    have hopen := h.tame _ (show Tame "Literal[" by decide)
    have hinner : Splits Q (", ".toList.intercalate (values.map fun v => v.literal.toList) ++ [']'])
        (∀ v ∈ values, ∀ s, v = .text s → C s) := by
      refine splits_intercalate (h.tame [' '] (List.all_eq_true.mp (by decide)))
        (h.tame [']'] (List.all_eq_true.mp (by decide))) fun v _ c hc => ?_
      exact h.literal v (isTame_mark hc)
    rw [typeText, String.toList_append, String.toList_append, String.toList_intercalate,
      List.map_map, List.append_assoc]
    refine (hopen.append hinner).congr ?_
    simp only [true_and, quotedTexts, List.mem_filterMap, textOf?_eq_some]
    grind
  | .handle target, hl => (h.handle target (hl.self target rfl)).congr (by simp [quotedTexts])
  | .unknown, _ => (h.tame _ (show Tame "Any" by decide)).congr (by simp [quotedTexts])

theorem Takes.splitsTrailer (h : Takes Q C quoteRefs) : ∀ {trailer : Option Shape},
    (∀ node, trailer = some node → node.Throughout RefersLegally) →
      Splits Q (trailerText quoteRefs trailer).toList (∀ s ∈ trailerQuotedTexts trailer, C s)
  | none, _ => (h.tame _ (show Tame "Any" by decide)).congr (by simp [trailerQuotedTexts])
  | some node, hl => by
    rw [trailerText]
    exact (h.splits (hl node rfl)).congr (by simp [trailerQuotedTexts])

theorem Takes.splitsEach (h : Takes Q C quoteRefs) : ∀ {variants : List Shape},
    (∀ node ∈ variants, node.Throughout RefersLegally) →
      ∀ node ∈ variants, Splits Q (typeText quoteRefs node).toList (∀ s ∈ node.quotedTexts, C s)
  | [], _ => List.forall_mem_nil _
  | _ :: _, hl => by
    obtain ⟨hfirst, hrest⟩ := List.forall_mem_cons.mp hl
    exact List.forall_mem_cons.mpr ⟨h.splits hfirst, h.splitsEach hrest⟩

end

end Splits

end Shape

/-! ### In code and in docstrings -/

namespace Name

variable {id : String}

theorem Legal.isNameChar (h : Legal id) : ∀ c ∈ id.toList, IsNameChar c := by
  have hall : ∀ c ∈ id.toList, isIdentifierContinue c = true := by
    have hid := h.identifier
    cases hl : id.toList with
    | nil => exact List.forall_mem_nil _
    | cons c rest =>
      rw [hl, isIdentifier, Bool.and_eq_true, List.all_eq_true] at hid
      refine List.forall_mem_cons.mpr ⟨?_, hid.2⟩
      have hstart := hid.1
      unfold isIdentifierStart at hstart
      unfold isIdentifierContinue
      have hascii : c.toNat < 128 := h.ascii c (hl ▸ List.mem_cons_self)
      simp only [hascii, if_true] at hstart ⊢
      grind
  intro c hc
  have hchar := hall c hc
  unfold isIdentifierContinue at hchar
  rw [if_pos (h.ascii c hc)] at hchar
  simpa [IsNameChar, isWordChar] using hchar

theorem Legal.isTame (h : Legal id) : ∀ c ∈ id.toList, isTame c = true := fun c hc =>
  isTame_of_isNameChar (h.isNameChar c hc)

theorem Legal.ne_nil (h : Legal id) : id.toList ≠ [] := by
  intro hnil
  have hid := h.identifier
  rw [hnil] at hid
  cases hid

/-- A legal name between double quotes is a text. -/
theorem Legal.silent_between_quotes (h : Legal id) : Silent ("\"" ++ id ++ "\"").toList := by
  have hopen : Reading.code.next '"' = .opened '"' false := by decide
  have hclose : (Reading.text '"' false).Leads ['"'] .code := .cons rfl rfl (Reading.leads_nil _)
  have hinside : (Reading.text '"' false).Leads id.toList (.text '"' false) := by
    refine Reading.leads_inText fun c hc => ?_
    have hchar := h.isNameChar c hc
    have hfeed : c ≠ '\n' := hchar.ne (by decide) (by decide)
    have hreturn : c ≠ '\r' := hchar.ne (by decide) (by decide)
    exact ⟨hchar.ne (by decide) (by decide), hchar.ne (by decide) (by decide),
      by simp [endsLine, hfeed, hreturn]⟩
  have hall := hinside.append hclose
  rw [String.toList_append, String.toList_append]
  refine silent_of_leads (.cons hopen rfl ?_)
  cases hl : id.toList with
  | nil => exact absurd hl h.ne_nil
  | cons c rest =>
    rw [hl] at hall
    exact leads_opened hall ((h.isNameChar c (hl ▸ List.mem_cons_self)).ne (by decide) (by decide))

end Name

namespace Shape

variable {node : Shape}

theorem takes_code (out : List Remark) (quoteRefs : Bool) :
    Takes (fun s => remarks? s = some out) (fun _ => True) quoteRefs where
  tame _ hs := silent_of_tame hs out
  text s _ hc := silent_quoted (Bool.and_eq_true_iff.mp hc).1 s out
  handle id hl := by
    cases quoteRefs with
    | true => exact hl.silent_between_quotes out
    | false => exact silent_of_tame hl.isTame out

theorem takes_docstring :
    Takes Stays (fun s => occurs docstringQuotes s.toList = false) false where
  tame _ hs := splits_of_stays (stays_of_tame hs)
  text s c hc rest := by
    obtain ⟨hq, hb⟩ := ne_of_isTame hc
    rw [quoted, onChars, String.toList_ofList, List.append_assoc, List.singleton_append,
      stays_append_cons_iff hq hb, stays_quotedChars_iff hq hb]
  handle _ hl := splits_of_stays (stays_of_tame hl.isTame)

/-- In code, there are no docstrings and comments in a type expression. -/
theorem silent_typeText (h : node.Throughout RefersLegally) (quoteRefs : Bool) :
    Silent (typeText quoteRefs node).toList := fun out =>
  ((takes_code out quoteRefs).splits h).congr (by simp)

/-- In code, there are no docstrings and comments in a literal with something after it. -/
theorem silent_literal {before after : String} (hb : Silent before.toList) (v : Scalar)
    (ha : Tame after) (hne : after.toList ≠ []) : Silent (before ++ v.literal ++ after).toList := by
  rw [Tame] at ha
  rw [String.toList_append, String.toList_append]
  cases hl : after.toList with
  | nil => exact absurd hl hne
  | cons c rest =>
    rw [hl] at ha
    obtain ⟨hc, hrest⟩ := List.forall_mem_cons.mp ha
    have hliteral : Silent (v.literal.toList ++ [c]) := fun out =>
      ((takes_code out false).literal v hc).congr (by simp)
    have hall := (hb.append hliteral).append (silent_of_tame hrest)
    simpa using hall

/-- No text that the type expression of the shape has a literal of has three quotes side by side. -/
def Contained (node : Shape) : Prop :=
  ∀ s ∈ node.quotedTexts, occurs docstringQuotes s.toList = false

instance (node : Shape) : Decidable node.Contained :=
  inferInstanceAs (Decidable (∀ s ∈ node.quotedTexts, _))

/-- In a docstring, a type expression stays inside exactly if the shape is contained. -/
theorem splits_typeText (h : node.Throughout RefersLegally) :
    Splits Stays (typeText false node).toList node.Contained :=
  takes_docstring.splits h

end Shape

end RouteStubs
