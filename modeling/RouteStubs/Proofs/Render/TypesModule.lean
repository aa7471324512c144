import RouteStubs.Proofs.Render.Lines
import RouteStubs.Render.TypesModule

/-!
# What the module of declarations has beside its code

The module starts with a docstring. The documentation of a record is a docstring, that of a union or an
alias is comments, and descriptions of fields are comments. Descriptions and keys are made ready for
where they stand; the type expression for further fields and the name of the field that tells variants
apart are not.

## Main definitions

* `TypesModule.remarks`: the docstrings and the comments that the module is written with.
* `Declaration.Contained`: what of a declaration is not made ready does not have to be.

## Main statements

* `TypesModule.remarks?_render`: the module has these docstrings and comments, and no others, exactly
  if all declarations are contained.
-/

namespace RouteStubs

open Text

namespace TypesModule

/-! ### The docstrings and comments -/

/-- The docstring of the module. -/
def moduleDoc (title version : String) : List String :=
  ["Type declarations for " ++ Prose.docstring title ++ " " ++ Prose.docstring version ++ ".",
    "",
    "Generated by apistub from the OpenAPI document. Do not edit by hand;",
    "regenerating overwrites this file."]

/-- The comment of a field. -/
def FieldText.remarks (f : FieldText) : List Remark :=
  if f.comment == "" then [] else [.comment (" " ++ f.comment).toList]

/-- The docstring of a record. -/
def docRemarks (doc : List String) (between : String) : List Remark :=
  if doc.isEmpty then [] else [.docstring (between.intercalate doc).toList]

/-- The docstrings and the comments of a declaration. -/
def Item.remarks : Item → List Remark
  | .classRecord _ fields doc => docRemarks doc "\n\n    " ++ fields.flatMap FieldText.remarks
  | .callRecord _ fields doc => fields.flatMap FieldText.remarks ++ docRemarks doc "\n\n"
  | .tagged _ _ _ _ _ doc => doc.map fun line => .comment (" " ++ line).toList
  | .alias _ _ doc => doc.map fun line => .comment (" " ++ line).toList

/-- The docstrings and the comments of the module. -/
def remarks (title version : String) (items : List Item) : List Remark :=
  [.docstring (linesChars (moduleDoc title version)), .comment " noqa: F401".toList] ++
    items.flatMap Item.remarks

end TypesModule

/-- The type expression for further fields of a record does not end the docstring that it stands in, and
the name of the field that tells variants apart does not end the comment. -/
def Declaration.Contained (d : Declaration) : Prop :=
  match d.node with
  | .record (_ :: _) (some trailer) _ _ => trailer.Contained
  | .union _ (some discriminator) => ∀ c ∈ discriminator.toList, endsLine c = false
  | _ => True

instance Declaration.decidableContained (d : Declaration) : Decidable d.Contained := by
  unfold Declaration.Contained
  split
  · infer_instance
  · exact List.decidableBAll ..
  · infer_instance

/-- The names that are written for a declaration are legal. -/
structure Declaration.Legal (d : Declaration) : Prop where
  id : Name.Legal d.id
  node : d.node.Throughout Shape.RefersLegally

namespace TypesModule

variable {d : Declaration} {table : Declarations} {constants doc : List String}
  {name type title version : String} {fields : List FieldText} {f : FieldText}

/-! ### Fields -/

/-- A field can be written without a docstring or a comment that is not its own. -/
structure FieldText.Sound (f : FieldText) : Prop where
  type : Silent f.type.toList
  comment : ∀ c ∈ f.comment.toList, endsLine c = false

theorem isTame_of_continues {c : Char} (h : isIdentifierContinue c = true ∨
    isIdentifierStart c = true) : isTame c = true := by
  have hne : ∀ d, isIdentifierContinue d = false → isIdentifierStart d = false → c ≠ d := by
    rintro d hcontinue hstart rfl
    rcases h with h | h
    · rw [hcontinue] at h
      cases h
    · rw [hstart] at h
      cases h
  have hdouble : c ≠ doubleQuote := hne _ (by decide) (by decide)
  have hsingle : c ≠ singleQuote := hne _ (by decide) (by decide)
  have hnumber : c ≠ '#' := hne _ (by decide) (by decide)
  have hbackslash : c ≠ '\\' := hne _ (by decide) (by decide)
  simp [isTame, isPlain, isQuote, hdouble, hsingle, hnumber, hbackslash]

theorem tame_of_isFieldName (h : isFieldName name = true) : Tame name := by
  unfold Tame
  simp only [isFieldName, Bool.and_eq_true] at h
  have hid := h.1.1
  cases hl : name.toList with
  | nil => exact List.forall_mem_nil _
  | cons c rest =>
    rw [hl, isIdentifier, Bool.and_eq_true, List.all_eq_true] at hid
    exact List.forall_mem_cons.mpr ⟨isTame_of_continues (.inr hid.1),
      fun c hc => isTame_of_continues (.inl (hid.2 c hc))⟩

theorem sound_fieldText {quoteRefs : Bool} {g : Field Shape}
    (h : g.node.Throughout Shape.RefersLegally) : (fieldText quoteRefs g).Sound where
  type := by
    have htype := Shape.silent_typeText h quoteRefs
    simp only [fieldText]
    split
    · exact htype
    · exact silent_append (silent_append (Tame.silent (.of_chars rfl (by decide))) htype)
        (Tame.silent (.of_chars rfl (by decide)))
  comment := Prose.endsLine_clean g.description

/-- The comment above a field. -/
theorem FieldText.Sound.writes (h : f.Sound) {margin : String} (hm : Tame margin) :
    WritesLines (commentLines margin f) f.remarks True := by
  unfold commentLines FieldText.remarks
  split
  · exact writesLines_nil
  · exact (writesLines_comment hm f.comment).congr (iff_true_intro h.comment)

/-- The fields of a record, each under its own comment. -/
theorem writesLines_fields {margin : String} {line : FieldText → String} (hm : Tame margin)
    (hf : ∀ f ∈ fields, f.Sound) (hl : ∀ f ∈ fields, Silent (line f).toList) :
    WritesLines (fields.flatMap fun f => commentLines margin f ++ [line f])
      (fields.flatMap fun f => f.remarks) True := by
  have hfield : ∀ f ∈ fields, WritesLines (commentLines margin f ++ [line f]) f.remarks True := by
    intro f hmem
    have hall := ((hf f hmem).writes hm).append (writesLines_of_silent (hl f hmem))
    rw [List.append_nil] at hall
    exact hall.congr (by simp)
  exact (writesLines_flatMap hfield).congr (by simp)

/-! ### Declarations -/

/-- The docstring of a record, if it has one. -/
theorem writesLines_doc {margin between : String} {after : List String} (hm : Tame margin)
    (ha : WritesLines after [] True) :
    WritesLines ((docstringOf doc between).flatMap fun text => [margin ++ text] ++ after)
      (docRemarks doc between) (Stays (between.intercalate doc).toList) := by
  unfold docstringOf docRemarks
  cases doc with
  | nil => exact writesLines_nil.congr (iff_of_true trivial stays_nil)
  | cons first rest =>
    have hdoc : WritesLines [margin ++ ("\"\"\"" ++ between.intercalate (first :: rest) ++ "\"\"\"")]
        [.docstring (between.intercalate (first :: rest)).toList] _ :=
      writesLines_docstring hm (by simp [linesChars, docstringQuotes])
    have hall := hdoc.append ha
    simpa using hall

/-- The documentation of a union or an alias. -/
theorem writesLines_comments (doc : List String) :
    WritesLines (doc.map ("# " ++ ·)) (doc.map fun line => .comment (" " ++ line).toList)
      (∀ line ∈ doc, ∀ c ∈ line.toList, endsLine c = false) := by
  have hline : ∀ line : String, WritesLines ["# " ++ line] [.comment (" " ++ line).toList]
      (∀ c ∈ line.toList, endsLine c = false) := fun line => by
    have hall := writesLines_comment (show Tame "" by decide) line
    rwa [String.empty_append] at hall
  rw [List.map_eq_flatMap, List.map_eq_flatMap]
  exact writesLines_flatMap fun line _ => hline line

theorem writesLines_classRecord (hn : Tame name) (hf : ∀ f ∈ fields, f.Sound ∧ Tame f.name) :
    WritesLines (Item.classRecord name fields doc).lines (Item.classRecord name fields doc).remarks
      (Stays ("\n\n    ".intercalate doc).toList) := by
  have hhead : WritesLines ["class " ++ name ++ "(TypedDict):"] [] True :=
    writesLines_of_silent (Tame.silent
      ((Tame.append (.of_chars rfl (by decide)) hn).append (.of_chars rfl (by decide))))
  have hdoc : WritesLines ((docstringOf doc "\n\n    ").flatMap fun text => ["    " ++ text] ++ [""])
      (docRemarks doc "\n\n    ") (Stays ("\n\n    ".intercalate doc).toList) :=
    writesLines_doc (by decide) (writesLines_of_silent (Tame.silent (by decide)))
  have hfields : WritesLines
      (fields.flatMap fun f => commentLines "    " f ++ ["    " ++ f.name ++ ": " ++ f.type])
      (fields.flatMap fun f => f.remarks) True := by
    refine writesLines_fields (by decide) (fun f hmem => (hf f hmem).1) fun f hmem => ?_
    obtain ⟨hsound, hname⟩ := hf f hmem
    exact silent_append (Tame.silent ((Tame.append (by decide) hname).append (by decide))) hsound.type
  have hall := (hhead.append hdoc).append hfields
  simp only [List.nil_append] at hall
  exact hall.congr (by simp)

theorem writesLines_callRecord (hn : Tame name) (hf : ∀ f ∈ fields, f.Sound) :
    WritesLines (Item.callRecord name fields doc).lines (Item.callRecord name fields doc).remarks
      (Stays ("\n\n".intercalate doc).toList) := by
  have hquoted : ∀ (margin text after : String), Tame margin → Tame after → after.toList ≠ [] →
      Silent (margin ++ quoted text ++ after).toList := fun margin text after hm ha hne =>
    Shape.silent_literal hm.silent (.text text) ha hne
  have hhead : WritesLines [name ++ " = TypedDict(", "    " ++ quoted name ++ ",", "    \x7b"] []
      True :=
    ((writesLines_of_silent (Tame.silent (by decide))).cons
      (hquoted _ _ _ (by decide) (by decide) (by decide))).cons
      (Tame.silent (hn.append (.of_chars rfl (by decide))))
  have hfields : WritesLines
      (fields.flatMap fun f =>
        commentLines "        " f ++ ["        " ++ quoted f.name ++ ": " ++ f.type ++ ","])
      (fields.flatMap fun f => f.remarks) True := by
    refine writesLines_fields (by decide) hf fun f hmem => ?_
    refine silent_append (silent_append ?_ (hf f hmem).type) (Tame.silent (by decide))
    exact hquoted _ _ _ (by decide) (by decide) (by decide)
  have hclose : WritesLines ["    \x7d,", ")"] [] True :=
    (writesLines_of_silent (Tame.silent (by decide))).cons (Tame.silent (by decide))
  have hdoc : WritesLines
      ((docstringOf doc "\n\n").flatMap fun text => [name ++ ".__doc__ = " ++ text] ++ [])
      (docRemarks doc "\n\n") (Stays ("\n\n".intercalate doc).toList) :=
    writesLines_doc (hn.append (.of_chars rfl (by decide))) writesLines_nil
  have hall := ((hhead.append hfields).append hclose).append hdoc
  simp only [List.append_nil, List.nil_append, ← List.map_eq_flatMap] at hall
  exact hall.congr (by simp)

theorem writesLines_tagged {constant discriminator : String} {variants : List (Scalar × String)}
    (hn : Tame name) (ht : Silent type.toList) (hc : Tame constant) :
    WritesLines (Item.tagged name type constant discriminator variants doc).lines
      (Item.tagged name type constant discriminator variants doc).remarks
      (∀ line ∈ doc, ∀ c ∈ line.toList, endsLine c = false) := by
  have hhead : WritesLines [name ++ ": TypeAlias = " ++ type] [] True :=
    writesLines_of_silent (silent_append (Tame.silent (hn.append (.of_chars rfl (by decide)))) ht)
  have hconstants : WritesLines [constant ++ "_DISCRIMINATOR: Final = " ++ quoted discriminator,
      constant ++ "_VARIANTS: Final[dict[Any, str]] = \x7b"] [] True := by
    have hfirst := writesLines_literal (Tame.silent (hc.append
      (show Tame "_DISCRIMINATOR: Final = " from .of_chars rfl (by decide)))) (.text discriminator)
    have hsecond : WritesLines [constant ++ "_VARIANTS: Final[dict[Any, str]] = \x7b"] [] True :=
      writesLines_of_silent (Tame.silent (hc.append (.of_chars rfl (by decide))))
    exact (hfirst.append hsecond).congr (by rw [true_and])
  have hvariants : WritesLines (variants.map fun v =>
      "    " ++ v.1.literal ++ ": " ++ quoted v.2 ++ ",") [] True := by
    refine writesLines_map fun v _ => ?_
    have htag : Silent ("    " ++ v.1.literal ++ ": ").toList :=
      Shape.silent_literal (Tame.silent (by decide)) v.1 (by decide) (by decide)
    exact Shape.silent_literal htag (.text v.2) (by decide) (by decide)
  have hclose : WritesLines ["\x7d"] [] True := writesLines_of_silent (Tame.silent (by decide))
  have hall := (((hhead.append (writesLines_comments doc)).append hconstants).append hvariants).append
    hclose
  simp only [List.append_nil, List.nil_append] at hall
  exact hall.congr (by simp)

theorem writesLines_alias (hn : Tame name) (ht : Silent type.toList) :
    WritesLines (Item.alias name type doc).lines (Item.alias name type doc).remarks
      (∀ line ∈ doc, ∀ c ∈ line.toList, endsLine c = false) := by
  have htype : WritesLines [name ++ ": TypeAlias = " ++ type] [] True :=
    writesLines_of_silent (silent_append (Tame.silent (hn.append (.of_chars rfl (by decide)))) ht)
  have hall := (writesLines_comments doc).append htype
  rw [List.append_nil] at hall
  exact hall.congr (by rw [and_true])

/-! ### Names of constants -/

theorem isWordChar_lower {c : Char} (h : isCapital c = true) :
    Name.isWordChar (Char.ofNat (c.toNat + 32)) = true := by
  simp only [isCapital, Bool.and_eq_true, decide_eq_true_eq, Char.le_def,
    UInt32.le_iff_toNat_le] at h
  have hA : ('A' : Char).val.toNat = 65 := rfl
  have hZ : ('Z' : Char).val.toNat = 90 := rfl
  have hall : ∀ n, n < 26 → Name.isWordChar (Char.ofNat (n + 97)) = true := by decide
  have hn : c.toNat + 32 = (c.toNat - 65) + 97 := by
    change c.val.toNat + 32 = (c.val.toNat - 65) + 97
    omega
  rw [hn]
  refine hall _ ?_
  change c.val.toNat - 65 < 26
  omega

theorem isNameChar_lower {s : List Char} (before : List Char) (h : ∀ c ∈ s, Name.IsNameChar c) :
    ∀ c ∈ lowerFrom before s, Name.IsNameChar c := by
  induction s generalizing before with
  | nil => exact List.forall_mem_nil _
  | cons c rest ih =>
    obtain ⟨hc, hrest⟩ := List.forall_mem_cons.mp h
    refine List.forall_mem_append.mpr ⟨?_, ih _ hrest⟩
    simp only [lowerChar, if_pos hc.toNat_lt, List.forall_mem_singleton]
    split
    · next hcapital => exact .inl (isWordChar_lower hcapital)
    · exact hc

theorem isNameChar_upper {s : List Char} (h : ∀ c ∈ s, Name.IsNameChar c) :
    ∀ c ∈ upper s, Name.IsNameChar c := by
  rw [upper, List.forall_mem_flatMap]
  intro c hc
  simp only [upperChar, if_pos (h c hc).toNat_lt, List.forall_mem_singleton]
  split
  · next hsmall => exact .inl (Name.isWordChar_upper hsmall)
  · exact h c hc

theorem isNameChar_boundaries {s : List Char} (h : ∀ c ∈ s, Name.IsNameChar c) :
    ∀ c ∈ Name.boundaries s, Name.IsNameChar c := by
  induction s using Name.boundaries.induct with
  | case1 => exact h
  | case2 x => exact h
  | case3 x y rest hstart ih =>
    obtain ⟨hx, hrest⟩ := List.forall_mem_cons.mp h
    rw [Name.boundaries, if_pos hstart]
    exact List.forall_mem_cons.mpr ⟨hx, List.forall_mem_cons.mpr ⟨.inr rfl, ih hrest⟩⟩
  | case4 x y rest hstart ih =>
    obtain ⟨hx, hrest⟩ := List.forall_mem_cons.mp h
    rw [Name.boundaries, if_neg hstart]
    exact List.forall_mem_cons.mpr ⟨hx, ih hrest⟩

/-- The name of a constant is made of letters and digits, as the name that it is for. -/
theorem isNameChar_constantFor (h : Name.Legal name) (constants : List String) :
    ∀ c ∈ (constantFor name constants).toList, Name.IsNameChar c := by
  have hbase : ∀ c ∈ (upperCase (Name.snake name)).toList, Name.IsNameChar c := by
    rw [upperCase, onChars, String.toList_ofList, Name.snake, onChars, String.toList_ofList]
    exact isNameChar_upper (isNameChar_lower [] (isNameChar_boundaries h.isNameChar))
  intro c hc
  rw [constantFor, Name.fresh] at hc
  split at hc
  · rw [Name.numbered, String.toList_append, String.toList_ofList] at hc
    rcases List.mem_append.mp hc with hc | hc
    · exact hbase c hc
    · exact .inl (by simp [Name.isWordChar, Name.isAsciiDigit_of_mem_decimalText hc])
  · exact hbase c hc

theorem tame_constantFor (h : Name.Legal name) (constants : List String) :
    Tame (constantFor name constants) := fun c hc =>
  isTame_of_isNameChar (isNameChar_constantFor h constants c hc)

/-! ### The documentation of declarations -/

/-- The lines that every documentation has: what the document says, and where it says it. -/
def aboutLines (d : Declaration) : List String :=
  (if d.description == "" then [] else [Prose.docstring d.description]) ++
    if d.origin == .schema then ["Source: " ++ Prose.docstring d.key] else []

/-- The line about further fields, if a record with fields may have some. -/
def furtherLines : Shape → List String
  | .record (_ :: _) (some trailer) _ _ =>
    ["Additional properties: " ++ trailer.typeText false ++ "."]
  | _ => []

theorem docLines_eq (d : Declaration) : docLines d = aboutLines d ++ furtherLines d.node := rfl

theorem forall_mem_aboutLines {P : String → Prop} (h : ∀ text, P (Prose.docstring text))
    (hs : ∀ text, P ("Source: " ++ Prose.docstring text)) : ∀ line ∈ aboutLines d, P line := by
  unfold aboutLines
  refine List.forall_mem_append.mpr ⟨?_, ?_⟩
  · split
    · exact List.forall_mem_nil _
    · exact List.forall_mem_singleton.mpr (h _)
  · split
    · exact List.forall_mem_singleton.mpr (hs _)
    · exact List.forall_mem_nil _

theorem stays_aboutLines : ∀ line ∈ aboutLines d, Stays line.toList := by
  refine forall_mem_aboutLines Prose.stays_docstring fun text => ?_
  exact stays_append (Tame.stays (.of_chars rfl (by decide))) (Prose.stays_docstring text)

theorem endsLine_aboutLines : ∀ line ∈ aboutLines d, ∀ c ∈ line.toList, endsLine c = false := by
  refine forall_mem_aboutLines Prose.endsLine_docstring fun text => ?_
  rw [String.toList_append, List.forall_mem_append]
  exact ⟨forall_eq_false_of_any (by decide), Prose.endsLine_docstring text⟩

/-- The documentation of a record stays inside its docstring exactly if the type expression for its
further fields does. -/
theorem stays_docLines_iff (h : d.Legal) {between : String} (hb : Tame between)
    {first : Field Shape} {rest : List (Field Shape)} {trailer : Option Shape} {description : String}
    {source : Option Source} (hn : d.node = .record (first :: rest) trailer description source) :
    Stays (between.intercalate (docLines d)).toList ↔ d.Contained := by
  have habout : ∀ line ∈ aboutLines d, Splits Stays line.toList (Stays line.toList) :=
    fun line hm => (splits_of_stays (stays_aboutLines line hm)).self
  cases trailer with
  | none =>
    have hdoc : docLines d = aboutLines d := by simp [docLines_eq, hn, furtherLines]
    rw [hdoc, stays_intercalate_iff hb habout, Declaration.Contained, hn]
    exact iff_true_intro stays_aboutLines
  | some tail =>
    have hdoc : docLines d = aboutLines d ++
        ["Additional properties: " ++ tail.typeText false ++ "."] := by
      rw [docLines_eq, hn, furtherLines]
    have htail : Splits Stays ("Additional properties: " ++ tail.typeText false ++ ".").toList
        tail.Contained := by
      have hnode := h.node
      rw [hn] at hnode
      have hbefore : Splits Stays "Additional properties: ".toList True :=
        splits_of_stays (Tame.stays (.of_chars rfl (by decide)))
      have hafter : Splits Stays ".".toList True := splits_of_stays (Tame.stays (by decide))
      rw [String.toList_append, String.toList_append]
      exact ((hbefore.append (Shape.splits_typeText (hnode.child .further))).append hafter).congr
        (by rw [true_and, and_true])
    have hall : ∀ line ∈ docLines d, Splits Stays line.toList (Stays line.toList) := by
      rw [hdoc]
      exact List.forall_mem_append.mpr ⟨habout, List.forall_mem_singleton.mpr htail.self⟩
    rw [stays_intercalate_iff hb hall, hdoc, List.forall_mem_append, List.forall_mem_singleton,
      and_iff_right stays_aboutLines, htail.stays_iff, Declaration.Contained, hn]

/-- A declaration is written with its docstrings and comments exactly if it is contained. -/
theorem writesLines_itemOf (h : d.Legal) :
    WritesLines (itemOf table constants d).1.lines (itemOf table constants d).1.remarks
      d.Contained := by
  have hname : Tame d.id := h.id.isTame
  have htype : Silent (d.node.typeText true).toList := Shape.silent_typeText h.node true
  unfold itemOf
  split
  · next first rest trailer description source hn =>
    have hnode := h.node
    rw [hn] at hnode
    have hsound : ∀ quoteRefs, ∀ f ∈ (first :: rest).map (fieldText quoteRefs), f.Sound :=
      fun quoteRefs => List.forall_mem_map.mpr fun g hg => sound_fieldText (hnode.child (.field hg))
    simp only
    split
    · next hall =>
      have hnames : ∀ f ∈ (first :: rest).map (fieldText false), Tame f.name :=
        List.forall_mem_map.mpr fun g hg => tame_of_isFieldName (List.all_eq_true.mp hall g hg)
      exact (writesLines_classRecord hname fun f hf => ⟨hsound false f hf, hnames f hf⟩).congr
        (stays_docLines_iff h (by decide) hn)
    · exact (writesLines_callRecord hname (hsound true)).congr (stays_docLines_iff h (by decide) hn)
  · next variants discriminator hn =>
    have hdoc : docLines d = aboutLines d := by simp [docLines_eq, hn, furtherLines]
    have hbefore : ∀ c ∈ "Tagged union discriminated by ``".toList, endsLine c = false :=
      forall_eq_false_of_any (by decide)
    have hafter : ∀ c ∈ "``.".toList, endsLine c = false :=
      forall_eq_false_of_any (by decide)
    refine (writesLines_tagged hname htype (tame_constantFor h.id constants)).congr ?_
    rw [hdoc, List.forall_mem_append, List.forall_mem_singleton, and_iff_right endsLine_aboutLines,
      String.toList_append, String.toList_append, List.forall_mem_append, List.forall_mem_append,
      and_iff_left hafter, and_iff_right hbefore, Declaration.Contained, hn]
  · next hrecord hunion =>
    have hdoc : docLines d = aboutLines d := by
      rw [docLines_eq, furtherLines, List.append_nil]
      exact fun _ _ _ _ _ hn => hrecord _ _ _ _ _ hn
    have hcontained : d.Contained := by
      unfold Declaration.Contained
      split
      · next hn => exact absurd hn (hrecord _ _ _ _ _)
      · next hn => exact absurd hn (hunion _ _)
      · trivial
    refine (writesLines_alias hname htype).congr (iff_of_true ?_ hcontained)
    rw [hdoc]
    exact endsLine_aboutLines

theorem writesLines_itemsOf {ds : List Declaration} (h : ∀ d ∈ ds, d.Legal) :
    WritesLines ((itemsOf table constants ds).flatMap fun item => ["", ""] ++ item.lines)
      ((itemsOf table constants ds).flatMap Item.remarks) (∀ d ∈ ds, d.Contained) := by
  induction ds generalizing constants with
  | nil => exact writesLines_nil.congr (by simp)
  | cons d rest ih =>
    obtain ⟨hd, hrest⟩ := List.forall_mem_cons.mp h
    have hempty : Silent "".toList := Tame.silent (by decide)
    have hitem : WritesLines (itemOf table constants d).1.lines (itemOf table constants d).1.remarks
        d.Contained := writesLines_itemOf hd
    have hfirst := (hitem.cons hempty).cons hempty
    exact (hfirst.append (ih hrest)).congr List.forall_mem_cons.symm

/-! ### The module -/

/-- The module has the docstrings and the comments that it is written with, and no others, exactly if
all declarations are contained. -/
theorem remarks?_render (h : ∀ d ∈ table.types, d.Legal) (title version path : String) :
    remarks? (render table title version path).content.toList =
        some (remarks title version (itemsOf table [] table.types)) ↔
      ∀ d ∈ table.types, d.Contained := by
  set items := itemsOf table [] table.types
  have hinner : ∀ l ∈ ["", "Generated by apistub from the OpenAPI document. Do not edit by hand;",
      "regenerating overwrites this file."], Tame l :=
    List.forall_mem_cons.mpr ⟨by decide, List.forall_mem_cons.mpr ⟨.of_chars rfl (by decide),
      List.forall_mem_singleton.mpr (.of_chars rfl (by decide))⟩⟩
  have hline : "\"\"\"Type declarations for " = "\"\"\"" ++ "Type declarations for " := rfl
  have hdoc := writesLines_titled hline (.of_chars rfl (by decide)) hinner title version
  have himports : WritesLines ["", "from __future__ import annotations", "",
      "from typing import Any, Final, Literal, NotRequired, TypeAlias, TypedDict, Union  # noqa: F401",
      "", "__all__ = ["] [.comment " noqa: F401".toList] True :=
    writesLines_static (by repeat constructor) (by decide +kernel)
  have hexports : WritesLines (items.map fun item => "    " ++ quoted item.name ++ ",") [] True :=
    writesLines_map fun item _ => Shape.silent_literal (Tame.silent (by decide)) (.text item.name)
      (by decide) (by decide)
  have hclose : WritesLines ["]"] [] True := writesLines_of_silent (Tame.silent (by decide))
  have hitems : WritesLines (items.flatMap fun item => ["", ""] ++ item.lines)
      (items.flatMap Item.remarks) (∀ d ∈ table.types, d.Contained) := writesLines_itemsOf h
  have hall := (((hdoc.append himports).append hexports).append hclose).append hitems
  rw [render, Artifact.toList_lines, moduleLines]
  refine WritesLines.iff ?_
  simpa [moduleDoc, remarks, items] using hall

end TypesModule

end RouteStubs
