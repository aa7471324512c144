import RouteStubs.Proofs.HandlerName
import RouteStubs.Proofs.Render.Lines
import RouteStubs.Render.HandlerModule

/-!
# What a module of handlers has beside its code

The documentation of an operation is the docstring of its handler. Names, paths, tags and descriptions
are made ready for it; the locations of parameters and the type expressions are not. A handler that is
not filled in has only code besides.

## Main definitions

* `HandlerModule.remarks`: the docstrings and the comments that the module is written with.
* `Operation.Contained`: what of an operation is not made ready does not have to be.

## Main statements

* `HandlerModule.silent_bodyInside_placeholder`: the body of a handler that is not filled in.
* `HandlerModule.remarks?_render`: the module has these docstrings and comments, and no others, exactly
  if all its operations are contained.
-/

namespace RouteStubs

open Text

namespace HandlerModule

/-! ### The docstrings and comments -/

/-- The docstring of the module. -/
def moduleDoc (key title version : String) : List String :=
  ["Request handlers for the " ++ Prose.docstring key ++ " route group.",
    "",
    Prose.docstring title ++ " " ++ Prose.docstring version ++
      ". Generated by apistub: fill in the handler bodies;",
    "routing below them is regenerated from the OpenAPI document."]

/-- The docstring of a handler. -/
def handlerDoc (op : Operation) : String := docstringOf op ++ "\n    "

/-- The docstrings and the comments of the module. -/
def remarks (g : RouteGroup) (title version : String) : List Remark :=
  [.docstring (linesChars (moduleDoc g.key title version)), .comment " noqa: F401".toList] ++
  (g.operations.map fun op => .docstring (handlerDoc op).toList) ++
  [.comment " Literal segments are listed before parameters at the same position.".toList,
    .docstring "Return the handler and path parameters for a request, if any.".toList,
    .docstring "Route ``request`` to its handler, or answer 404.".toList]

end HandlerModule

/-- The locations of the parameters, each before a comma, and the type expressions do not end the
docstring that they stand in. -/
structure Operation.Contained (op : Operation) : Prop where
  locations : ∀ p ∈ op.parameters, Stays (p.location.display ++ ",").toList
  parameters : ∀ p ∈ op.parameters, p.node.Contained
  requestBody : ∀ node, op.requestBody = some node → node.Contained
  responses : ∀ response ∈ op.responses, ∀ node, response.2 = some node → node.Contained

theorem Operation.contained_iff (op : Operation) : op.Contained ↔
    ((∀ p ∈ op.parameters, Stays (p.location.display ++ ",").toList ∧ p.node.Contained) ∧
      (∀ node ∈ op.requestBody.toList, node.Contained)) ∧
    ∀ node ∈ op.responses.filterMap (·.2), node.Contained := by
  constructor
  · intro h
    refine ⟨⟨fun p hp => ⟨h.locations p hp, h.parameters p hp⟩, fun node hn => ?_⟩, fun node hn => ?_⟩
    · exact h.requestBody node (Option.mem_toList.mp hn)
    · obtain ⟨response, hr, heq⟩ := List.mem_filterMap.mp hn
      exact h.responses response hr node heq
  · rintro ⟨⟨hparameters, hbody⟩, hresponses⟩
    exact ⟨fun p hp => (hparameters p hp).1, fun p hp => (hparameters p hp).2,
      fun node hn => hbody node (Option.mem_toList.mpr hn),
      fun response hr node hn => hresponses node (List.mem_filterMap.mpr ⟨response, hr, hn⟩)⟩

instance Operation.decidableContained (op : Operation) : Decidable op.Contained := decidable_of_iff' _ op.contained_iff

/-- The names that are written for an operation mean nothing else. -/
structure Operation.Legal (op : Operation) : Prop where
  handler : Tame op.handler
  verb : Tame op.verb
  parametersType : ∀ type, op.parametersType = some type → Tame type
  parameters : ∀ p ∈ op.parameters, p.node.Throughout Shape.RefersLegally
  requestBody : ∀ node, op.requestBody = some node → node.Throughout Shape.RefersLegally
  responses : ∀ response ∈ op.responses, ∀ node, response.2 = some node →
    node.Throughout Shape.RefersLegally

namespace HandlerModule

variable {op : Operation} {g : RouteGroup} {title version : String}

/-! ### Documentation -/

theorem tame_requirement (required : Bool) : Tame (requirement required) := by
  cases required <;> decide

theorem stays_list (texts : List String) :
    Stays (", ".intercalate (texts.map Prose.docstring)).toList := by
  have hall : ∀ text ∈ texts.map Prose.docstring, Stays text.toList :=
    List.forall_mem_map.mpr fun text _ => Prose.stays_docstring text
  exact (stays_intercalate_iff (by decide) fun text hm => (splits_of_stays (hall text hm)).self).mpr
    hall

theorem stays_aboutLines (h : op.Legal) : ∀ line ∈ aboutLines op, Stays line.toList := by
  have hfirst : Stays (op.verb ++ " " ++ Prose.docstring op.path).toList :=
    stays_append (stays_append h.verb.stays (Tame.stays (by decide))) (Prose.stays_docstring op.path)
  have hstep : ∀ (lines : List String) (text : String), (∀ line ∈ lines, Stays line.toList) →
      ∀ line ∈ if text == "" || lines.contains (Prose.docstring text) then lines
        else lines ++ [Prose.docstring text], Stays line.toList := by
    intro lines text hlines
    split
    · exact hlines
    · exact List.forall_mem_append.mpr
        ⟨hlines, List.forall_mem_singleton.mpr (Prose.stays_docstring text)⟩
  exact hstep _ _ (hstep _ _ (List.forall_mem_singleton.mpr hfirst))

/-- The line of a parameter. -/
def parameterLine (p : Parameter) : String :=
  "  " ++ Prose.docstring p.name ++ " (" ++ p.location.display ++ ", " ++ requirement p.required ++
    "): " ++ p.node.typeText false

/-- The line of a request body. -/
def requestBodyLine (required : Bool) (node : Shape) : String :=
  "Request body (" ++ requirement required ++ "): " ++ node.typeText false

/-- The line of a response. -/
def responseLine (status : String) (node : Option Shape) : String :=
  "  " ++ Prose.docstring status ++ ": " ++ bodyText node

theorem splits_parameterLine {p : Parameter} (h : p.node.Throughout Shape.RefersLegally) :
    Splits Stays (parameterLine p).toList
      (Stays (p.location.display ++ ",").toList ∧ p.node.Contained) := by
  have hbefore : Splits Stays ("  " ++ Prose.docstring p.name ++ " (").toList True :=
    splits_of_stays (stays_append (stays_append (Tame.stays (by decide))
      (Prose.stays_docstring p.name)) (Tame.stays (by decide)))
  have hlocation : Splits Stays (p.location.display ++ ",").toList
      (Stays (p.location.display ++ ",").toList) := by
    intro rest
    rw [String.toList_append, List.append_assoc]
    exact stays_append_cons_iff (by decide) (by decide)
  have hbetween : Splits Stays (" " ++ requirement p.required ++ "): ").toList True :=
    splits_of_stays (stays_append (stays_append (Tame.stays (by decide))
      (tame_requirement p.required).stays) (Tame.stays (by decide)))
  have hall := ((hbefore.append hlocation).append hbetween).append (Shape.splits_typeText h)
  have hcomma : ", " = "," ++ " " := by decide
  rw [parameterLine, hcomma]
  simpa [String.append_assoc] using hall

theorem splits_requestBodyLine {node : Shape} (required : Bool)
    (h : node.Throughout Shape.RefersLegally) :
    Splits Stays (requestBodyLine required node).toList node.Contained := by
  have hbefore : Splits Stays ("Request body (" ++ requirement required ++ "): ").toList True :=
    splits_of_stays (stays_append (stays_append (Tame.stays (.of_chars rfl (by decide)))
      (tame_requirement required).stays) (Tame.stays (by decide)))
  rw [requestBodyLine, String.toList_append]
  exact (hbefore.append (Shape.splits_typeText h)).congr (by rw [true_and])

theorem splits_responseLine (status : String) {node : Option Shape}
    (h : ∀ inner, node = some inner → inner.Throughout Shape.RefersLegally) :
    Splits Stays (responseLine status node).toList
      (∀ inner, node = some inner → inner.Contained) := by
  have hbefore : Splits Stays ("  " ++ Prose.docstring status ++ ": ").toList True :=
    splits_of_stays (stays_append (stays_append (Tame.stays (by decide))
      (Prose.stays_docstring status)) (Tame.stays (by decide)))
  have hbody : Splits Stays (bodyText node).toList (∀ inner, node = some inner → inner.Contained) := by
    cases node with
    | none => exact (splits_of_stays (Tame.stays (.of_chars rfl (by decide)))).congr (by simp)
    | some inner => exact (Shape.splits_typeText (h inner rfl)).congr (by simp)
  rw [responseLine, String.toList_append]
  exact (hbefore.append hbody).congr (by rw [true_and])

/-- What holds of the lines of parameters, of the body and of responses, and of all lines that stay
inside a docstring, holds of all lines. -/
theorem forall_mem_detailLines {P : String → Prop} (h : op.Legal)
    (hstays : ∀ text : String, Stays text.toList → P text)
    (hparameters : ∀ p ∈ op.parameters, P (parameterLine p))
    (hbody : ∀ node, op.requestBody = some node → P (requestBodyLine op.requestBodyRequired node))
    (hresponses : ∀ response ∈ op.responses, P (responseLine response.1 response.2)) :
    ∀ line ∈ detailLines op, P line := by
  have hready : ∀ before text : String, Tame before → Stays text.toList → P (before ++ text) :=
    fun _ _ hb ht => hstays _ (stays_append hb.stays ht)
  unfold detailLines
  simp only [List.forall_mem_append]
  refine ⟨⟨⟨⟨⟨⟨?_, ?_⟩, ?_⟩, ?_⟩, ?_⟩, ?_⟩, ?_⟩
  · exact List.forall_mem_singleton.mpr (hready _ _ (.of_chars rfl (by decide))
      (Prose.stays_docstring _))
  · split
    · exact List.forall_mem_nil _
    · exact List.forall_mem_singleton.mpr (hready _ _ (by decide) (stays_list _))
  · split
    · next type htype =>
      split
      · exact List.forall_mem_nil _
      · exact List.forall_mem_singleton.mpr (hready _ _ (.of_chars rfl (by decide))
          (h.parametersType type htype).stays)
    · exact List.forall_mem_nil _
  · exact List.forall_mem_map.mpr hparameters
  · split
    · next node hnode => exact List.forall_mem_singleton.mpr (hbody node hnode)
    · exact List.forall_mem_nil _
  · split
    · exact List.forall_mem_nil _
    · exact List.forall_mem_cons.mpr ⟨hstays _ (Tame.stays (by decide)),
        List.forall_mem_map.mpr hresponses⟩
  · split
    · exact List.forall_mem_nil _
    · exact List.forall_mem_singleton.mpr (hready _ _ (by decide) (stays_list _))

theorem parameterLine_mem {p : Parameter} (h : p ∈ op.parameters) :
    parameterLine p ∈ detailLines op := by
  unfold detailLines
  simp only [List.mem_append]
  exact .inl (.inl (.inl (.inr (List.mem_map_of_mem h))))

theorem requestBodyLine_mem {node : Shape} (h : op.requestBody = some node) :
    requestBodyLine op.requestBodyRequired node ∈ detailLines op := by
  unfold detailLines
  simp only [List.mem_append, h]
  exact .inl (.inl (.inr (List.mem_singleton_self _)))

theorem responseLine_mem {response : String × Option Shape} (h : response ∈ op.responses) :
    responseLine response.1 response.2 ∈ detailLines op := by
  have hne : op.responses.isEmpty = false := by
    rw [List.isEmpty_eq_false_iff]
    exact List.ne_nil_of_mem h
  unfold detailLines
  simp only [List.mem_append, hne, Bool.false_eq_true, if_false]
  exact .inl (.inr (List.mem_cons_of_mem _ (List.mem_map_of_mem h)))

theorem splits_detailLines (h : op.Legal) :
    ∀ line ∈ detailLines op, Splits Stays line.toList (Stays line.toList) :=
  forall_mem_detailLines h (fun _ hs => (splits_of_stays hs).self)
    (fun p hp => (splits_parameterLine (h.parameters p hp)).self)
    (fun node hn => (splits_requestBodyLine _ (h.requestBody node hn)).self)
    fun response hr => (splits_responseLine response.1 (h.responses response hr)).self

/-- The facts about an operation stay inside a docstring exactly if it is contained. -/
theorem stays_detailLines_iff (h : op.Legal) :
    (∀ line ∈ detailLines op, Stays line.toList) ↔ op.Contained := by
  have hparameter := fun p hp => (splits_parameterLine (h.parameters p hp)).stays_iff
  have hbody := fun node hn =>
    (splits_requestBodyLine op.requestBodyRequired (h.requestBody node hn)).stays_iff
  have hresponse := fun response hr =>
    (splits_responseLine response.1 (h.responses response hr)).stays_iff
  constructor
  · intro hall
    have hparameters := fun p hp => (hparameter p hp).mp (hall _ (parameterLine_mem hp))
    exact ⟨fun p hp => (hparameters p hp).1, fun p hp => (hparameters p hp).2,
      fun node hn => (hbody node hn).mp (hall _ (requestBodyLine_mem hn)),
      fun response hr => (hresponse response hr).mp (hall _ (responseLine_mem hr))⟩
  · intro hc
    exact forall_mem_detailLines h (fun _ hs => hs)
      (fun p hp => (hparameter p hp).mpr ⟨hc.locations p hp, hc.parameters p hp⟩)
      (fun node hn => (hbody node hn).mpr (hc.requestBody node hn))
      fun response hr => (hresponse response hr).mpr (hc.responses response hr)

/-- The documentation of an operation stays inside its docstring exactly if the operation is
contained. -/
theorem stays_handlerDoc_iff (h : op.Legal) : Stays (handlerDoc op).toList ↔ op.Contained := by
  have hdetails := splits_join (show Tame "\n    " by decide) (splits_detailLines h)
  have habout : ∀ line ∈ aboutLines op ++ if op.deprecated then ["Deprecated."] else [],
      Stays line.toList := by
    refine List.forall_mem_append.mpr ⟨stays_aboutLines h, ?_⟩
    split
    · exact List.forall_mem_singleton.mpr (Tame.stays (by decide))
    · exact List.forall_mem_nil _
  have hall : Splits Stays (docstringOf op).toList _ :=
    splits_join (show Tame "\n\n    " by decide) (List.forall_mem_append.mpr
      ⟨fun line hl => (splits_of_stays (habout line hl)).self,
        List.forall_mem_singleton.mpr hdetails.self⟩)
  rw [handlerDoc, String.toList_append, hall, List.forall_mem_append, List.forall_mem_singleton,
    and_iff_right habout, hdetails.stays_iff, stays_detailLines_iff h, and_iff_left]
  exact Tame.stays (by decide)

end HandlerModule

/-! ### Bodies -/

namespace Text

variable {c : Char} {s line rest margin : List Char}

theorem isPrintable_of_isWordChar (h : Name.isWordChar c = true) : isPrintable c = true := by
  have hlt := Name.toNat_lt_of_isWordChar h
  simp only [Name.isWordChar, isCapital, isSmall, isAsciiDigit, Bool.or_eq_true, Bool.and_eq_true,
    decide_eq_true_eq, Char.le_def, UInt32.le_iff_toNat_le] at h
  have h0 : ('0' : Char).val.toNat = 48 := rfl
  have hA : ('A' : Char).val.toNat = 65 := rfl
  have ha : ('a' : Char).val.toNat = 97 := rfl
  have hZ : ('Z' : Char).val.toNat = 90 := rfl
  have hz : ('z' : Char).val.toNat = 122 := rfl
  have h9 : ('9' : Char).val.toNat = 57 := rfl
  have hrange : 32 ≤ c.toNat ∧ c.toNat < 127 := by
    change 32 ≤ c.val.toNat ∧ c.val.toNat < 127
    omega
  simp only [isPrintable, hlt, if_true, Bool.and_eq_true, decide_eq_true_eq]
  exact hrange

/-- A literal has printable characters only, so it is on one line. -/
theorem isPrintable_of_mem_quotedChars (h : c ∈ quotedChars s) : isPrintable c = true := by
  have hq := isQuote_quoteFor s
  rcases List.mem_cons.mp h with rfl | h
  · exact isPrintable_of_isQuote hq
  · rcases List.mem_append.mp h with h | h
    · obtain ⟨d, -, hd⟩ := List.mem_flatMap.mp h
      rcases escapeChar_cases hq d with ⟨heq, -, -, hp⟩ | ⟨e, width, n, heq, hp⟩
      · rw [heq] at hd
        rwa [List.mem_singleton.mp hd]
      · rw [heq] at hd
        rcases List.mem_cons.mp hd with rfl | hd
        · decide
        · rcases List.mem_cons.mp hd with rfl | hd
          · exact hp
          · exact isPrintable_of_isWordChar (isWordChar_of_mem_hexDigits hd)
    · rw [List.mem_singleton.mp h]
      exact isPrintable_of_isQuote hq

theorem isLineEnd_of_isPrintable (h : isPrintable c = true) : isLineEnd c = false := by
  have hranges : ∀ n ∈ [0x85, 0x2028, 0x2029], inRanges printableRanges n = false := by
    decide +kernel
  by_contra hends
  simp only [isLineEnd, Bool.not_eq_false, Bool.or_eq_true, Bool.and_eq_true, decide_eq_true_eq,
    beq_iff_eq] at hends
  unfold isPrintable at h
  by_cases hlt : c.toNat < 128
  · simp only [hlt, if_true, Bool.and_eq_true, decide_eq_true_eq] at h
    omega
  · simp only [hlt, if_false] at h
    have hmem : c.toNat ∈ [0x85, 0x2028, 0x2029] := by
      simp only [List.mem_cons, List.not_mem_nil, or_false]
      omega
    rw [hranges _ hmem] at h
    cases h

theorem splitLines_cons {others : List (List Char)} (hc : isLineEnd c = false)
    (h : splitLines s = line :: others) : splitLines (c :: s) = (c :: line) :: others := by
  cases s with
  | nil => cases h
  | cons d rest =>
    rw [splitLines, hc, Bool.false_and, if_neg Bool.false_ne_true, h]

theorem splitLines_line (h : ∀ c ∈ line, isLineEnd c = false) :
    splitLines (line ++ '\n' :: rest) = (line ++ ['\n']) :: splitLines rest := by
  induction line with
  | nil => cases rest <;> rfl
  | cons c more ih =>
    obtain ⟨hc, hmore⟩ := List.forall_mem_cons.mp h
    exact splitLines_cons hc (ih hmore)

theorem splitLines_last (h : ∀ c ∈ line, isLineEnd c = false) (hne : line ≠ []) :
    splitLines line = [line] := by
  induction line with
  | nil => exact absurd rfl hne
  | cons c more ih =>
    obtain ⟨hc, hmore⟩ := List.forall_mem_cons.mp h
    cases more with
    | nil => rfl
    | cons d others => exact splitLines_cons hc (ih hmore (List.cons_ne_nil _ _))

/-- A line that is not blank gets its margin. -/
theorem indent_line (h : ∀ c ∈ line, isLineEnd c = false) (hb : isBlankText line = false) :
    indent margin (line ++ '\n' :: rest) = margin ++ line ++ '\n' :: indent margin rest := by
  have hblank : isBlankText (line ++ ['\n']) = false := by
    rw [isBlankText] at hb
    rw [isBlankText, List.all_append, hb, Bool.false_and]
  rw [indent, splitLines_line h, List.flatMap_cons, hblank, if_neg Bool.false_ne_true]
  simp [indent]

theorem indent_last (h : ∀ c ∈ line, isLineEnd c = false) (hb : isBlankText line = false) :
    indent margin line = margin ++ line := by
  have hne : line ≠ [] := by
    rintro rfl
    cases hb
  rw [indent, splitLines_last h hne, List.flatMap_singleton, hb, if_neg Bool.false_ne_true]

end Text

namespace HandlerModule

/-- What comes before the name of the operation in a body that is not filled in, line by line. -/
theorem placeholder_start :
    ("return httpx.Response(\n    501,\n    json=\x7b\"error\": \"Not implemented\", " ++
      "\"operationId\": ").toList = "return httpx.Response(".toList ++ '\n' :: ("    501,".toList ++
    '\n' :: "    json=\x7b\"error\": \"Not implemented\", \"operationId\": ".toList) := by
  refine String.toList_append.trans ?_
  rw [String.toList_ofList, String.toList_ofList, String.toList_ofList, String.toList_ofList,
    String.toList_ofList]
  rfl

/-- What comes after it. -/
theorem placeholder_end : "\x7d,\n)".toList = "\x7d,".toList ++ '\n' :: ")".toList := by
  rw [String.toList_ofList, String.toList_ofList, String.toList_ofList]
  rfl

/-- The line with the name of the operation. -/
def answerLine (op : Operation) : List Char :=
  "    json=\x7b\"error\": \"Not implemented\", \"operationId\": ".toList ++
    quotedChars op.operationId.toList ++ "\x7d,".toList

theorem toList_quoted (s : String) : (quoted s).toList = quotedChars s.toList := by
  rw [quoted, onChars, String.toList_ofList]

theorem toList_placeholder (op : Operation) :
    (placeholder op).toList = "return httpx.Response(".toList ++ '\n' :: ("    501,".toList ++
      '\n' :: (answerLine op ++ '\n' :: ")".toList)) := by
  have hparts : ∀ first second third : String, (first ++ second ++ third).toList =
      first.toList ++ second.toList ++ third.toList := fun first second third => by
    rw [String.toList_append, String.toList_append]
  have hlines : ∀ a b c s d e : List Char,
      (a ++ '\n' :: (b ++ '\n' :: c)) ++ s ++ (d ++ '\n' :: e) =
        a ++ '\n' :: (b ++ '\n' :: ((c ++ s ++ d) ++ '\n' :: e)) := by
    simp
  unfold placeholder
  refine (hparts _ _ _).trans ?_
  refine (congrArg₂ (· ++ (quoted op.operationId).toList ++ ·) placeholder_start
    placeholder_end).trans ?_
  rw [toList_quoted]
  exact hlines _ _ _ _ _ _

theorem trim_placeholder (op : Operation) :
    trim (· == '\n') (placeholder op).toList = (placeholder op).toList := by
  have hends : ∀ a b c : List Char,
      trim (· == '\n') (('r' :: a) ++ '\n' :: (b ++ '\n' :: (c ++ '\n' :: [')']))) =
        ('r' :: a) ++ '\n' :: (b ++ '\n' :: (c ++ '\n' :: [')'])) := by
    intro a b c
    refine trim_eq_self (fun d hd => ?_) fun d hd => ?_
    · cases hd
      rfl
    · obtain rfl : ')' = d := by simpa [List.getLast?_cons] using hd
      rfl
  rw [toList_placeholder]
  exact hends "eturn httpx.Response(".toList _ _

theorem isLineEnd_answerLine : ∀ c ∈ answerLine op, isLineEnd c = false := by
  refine List.forall_mem_append.mpr ⟨List.forall_mem_append.mpr ⟨?_, ?_⟩,
    forall_eq_false_of_any (by decide)⟩
  · rw [String.toList_ofList]
    exact forall_eq_false_of_any (by decide)
  · exact fun c hc => isLineEnd_of_isPrintable (isPrintable_of_mem_quotedChars hc)

theorem isBlankText_answerLine (op : Operation) : isBlankText (answerLine op) = false := by
  refine List.all_eq_false.mpr ⟨'j', ?_, by decide⟩
  refine List.mem_append_left _ (List.mem_append_left _ ?_)
  rw [String.toList_ofList]
  decide

/-- The body of a handler that is not filled in, with its margin. -/
theorem toList_bodyInside_placeholder (op : Operation) :
    (bodyInside (placeholder op)).toList =
      "    ".toList ++ "return httpx.Response(".toList ++ '\n' :: ("    ".toList ++ "    501,".toList ++
      '\n' :: ("    ".toList ++ answerLine op ++ '\n' :: ("    ".toList ++ ")".toList))) := by
  have hmargin : [' ', ' ', ' ', ' '] = "    ".toList := by decide
  rw [bodyInside, onChars, String.toList_ofList, trim_placeholder, toList_placeholder, hmargin,
    indent_line, indent_line, indent_line isLineEnd_answerLine (isBlankText_answerLine op), indent_last]
  · exact forall_eq_false_of_any (by decide)
  · decide
  · exact forall_eq_false_of_any (by decide)
  · decide
  · rw [String.toList_ofList]
    exact forall_eq_false_of_any (by decide)
  · rw [String.toList_ofList]
    decide

theorem silent_cons {s : List Char} {c : Char} (hc : isTame c = true) (h : Silent s) :
    Silent (c :: s) := (silent_of_tame (List.forall_mem_singleton.mpr hc)).append h

theorem silent_answerLine (op : Operation) : Silent (answerLine op) := by
  have hbefore : Silent "    json=\x7b\"error\": \"Not implemented\", \"operationId\": ".toList := by
    rw [String.toList_ofList]
    exact silent_of_leads ⟨by decide, by decide⟩
  have hquoted : Silent (quotedChars op.operationId.toList ++ ['\x7d']) := by
    rw [← toList_quoted]
    exact silent_quoted (by decide) op.operationId
  have hall := (hbefore.append hquoted).append (silent_of_tame (s := [',']) (List.all_eq_true.mp (by decide)))
  have hparts : ∀ a b : List Char, a ++ b ++ ['\x7d', ','] = a ++ (b ++ ['\x7d']) ++ [','] := by
    simp
  have hline : answerLine op = _ := hparts _ _
  rwa [hline]

/-- In a body that is not filled in, there are no docstrings and comments. -/
theorem silent_bodyInside_placeholder (op : Operation) :
    Silent (bodyInside (placeholder op)).toList := by
  have hmargin : Silent "    ".toList := Tame.silent (by decide)
  have hnext : ∀ s, Silent s → Silent ('\n' :: s) := fun s hs => silent_cons (by decide) hs
  rw [toList_bodyInside_placeholder]
  exact (hmargin.append (Tame.silent (.of_chars rfl (by decide)))).append
    (hnext _ ((hmargin.append (Tame.silent (by decide))).append
      (hnext _ ((hmargin.append (silent_answerLine op)).append
        (hnext _ (hmargin.append (Tame.silent (by decide))))))))

/-! ### The module -/

/-- A handler that is not filled in has its documentation besides. -/
theorem writesLines_handlerLines (h : op.Legal) :
    WritesLines (handlerLines [] op) [.docstring (handlerDoc op).toList] op.Contained := by
  have hname : Silent ("def " ++ op.handler ++ "(").toList :=
    silent_append (silent_append (Tame.silent (by decide)) h.handler.silent)
      (Tame.silent (by decide))
  have hrest : WritesLines
      ["    request: httpx.Request, env: Mapping[str, Any], params: dict[str, str]",
        ") -> httpx.Response:"] [] True :=
    writesLines_static (by repeat constructor) (by decide +kernel)
  have hblank : WritesLines ["", ""] [] True :=
    writesLines_static (by repeat constructor) (by decide)
  have hbefore := hblank.append (hrest.cons hname)
  have hdoc : WritesLines ["    \"\"\"" ++ docstringOf op, "    \"\"\""]
      [.docstring (handlerDoc op).toList] (Stays (handlerDoc op).toList) := by
    refine writesLines_docstring (show Tame "    " by decide) ?_
    simp [linesChars, docstringQuotes, handlerDoc]
  have hbody := writesLines_of_silent (silent_bodyInside_placeholder op)
  exact ((hbefore.append hdoc).append hbody).congr (by simp [stays_handlerDoc_iff h])

theorem silent_tupleText (texts : List String) : Silent (tupleText texts).toList := by
  have hopen : Silent "(".toList := Tame.silent (by decide)
  have hone : ∀ text : String, Silent ("(" ++ quoted text ++ ",)").toList := fun text =>
    Shape.silent_literal hopen (.text text) (by decide) (by decide)
  have hseveral : ∀ before : String, Silent before.toList → ∀ texts : List String,
      Silent (before ++ ", ".intercalate (texts.map quoted) ++ ")").toList := by
    intro before hbefore texts
    induction texts generalizing before with
    | nil =>
      rw [List.map_nil, String.intercalate_nil]
      exact silent_append (silent_append hbefore silent_nil) (Tame.silent (by decide))
    | cons first rest ih =>
      cases rest with
      | nil =>
        rw [List.map_singleton, String.intercalate_singleton]
        exact Shape.silent_literal hbefore (.text first) (by decide) (by decide)
      | cons second more =>
        have hfirst := Shape.silent_literal hbefore (.text first) (show Tame ", " by decide) (by decide)
        have hrest := ih _ hfirst
        rw [List.map_cons, List.map_cons, String.intercalate_cons_cons]
        simpa [Scalar.literal, String.append_assoc] using hrest
  unfold tupleText
  split
  · exact hone _
  · exact hseveral _ hopen _

theorem silent_routeLine (h : op.Legal) : Silent (routeLine op).toList := by
  have hverb : Silent ("    (" ++ quoted op.verb ++ ", ").toList :=
    Shape.silent_literal (Tame.silent (by decide)) (.text op.verb) (by decide) (by decide)
  exact silent_append (silent_append (silent_append (silent_append hverb (silent_tupleText _))
    (Tame.silent (by decide))) h.handler.silent) (Tame.silent (by decide))

/-- The docstring of the module stays what it is. -/
theorem stays_moduleDoc (key title version : String) :
    ∀ l ∈ moduleDoc key title version, Stays l.toList := by
  refine List.forall_mem_cons.mpr ⟨?_, List.forall_mem_cons.mpr ⟨stays_nil,
    List.forall_mem_cons.mpr ⟨?_, List.forall_mem_singleton.mpr ?_⟩⟩⟩
  · exact stays_append (stays_append (Tame.stays (.of_chars rfl (by decide)))
      (Prose.stays_docstring key)) (Tame.stays (.of_chars rfl (by decide)))
  · exact stays_append (stays_append (stays_append (Prose.stays_docstring title)
      (Tame.stays (by decide))) (Prose.stays_docstring version)) (Tame.stays (.of_chars rfl (by decide)))
  · exact Tame.stays (.of_chars rfl (by decide))

/-- The lines before the handlers have one docstring and one comment. -/
theorem writesLines_headLines {typesModule : String} (ht : Tame typesModule)
    (key title version : String) :
    WritesLines (headLines key title version typesModule)
      [.docstring (linesChars (moduleDoc key title version)), .comment " noqa: F401".toList] True := by
  have hfirst : "\"\"\"Request handlers for the " ++ Prose.docstring key ++ " route group." =
      "\"\"\"" ++ ("Request handlers for the " ++ Prose.docstring key ++ " route group.") := by
    rw [← String.append_assoc, ← String.append_assoc]
    rfl
  have hdoc := writesLines_moduleDoc hfirst (stays_moduleDoc key title version)
  have himports : WritesLines ["", "from __future__ import annotations", "",
      "from collections.abc import Callable, Mapping", "from typing import TYPE_CHECKING, Any", "",
      "import httpx", "", "if TYPE_CHECKING:"] [] True :=
    writesLines_static (by repeat constructor) (by decide +kernel)
  have hmargin : Tame ("    from . import " ++ typesModule ++ " as models  ") :=
    Tame.append (Tame.append (.of_chars rfl (by decide)) ht) (.of_chars rfl (by decide))
  have hcomment : "    from . import " ++ typesModule ++ " as models  # noqa: F401" =
      "    from . import " ++ typesModule ++ " as models  " ++ "# " ++ "noqa: F401" := by
    have hsplit : " as models  # noqa: F401" = " as models  " ++ ("# " ++ "noqa: F401") := by decide
    rw [hsplit, ← String.append_assoc, ← String.append_assoc]
  have htypes := ((writesLines_comment hmargin "noqa: F401").congr
    (iff_true_intro (forall_eq_false_of_any (by decide)))).of_eq (congrArg (fun l => [l]) hcomment)
  have hkey : WritesLines ["GROUP = " ++ quoted key] [] True :=
    writesLines_literal (Tame.silent (by decide)) (.text key)
  have hblank : WritesLines [""] [] True := writesLines_static (by repeat constructor) (by decide)
  have hhandler : WritesLines ["",
      "Handler = Callable[[httpx.Request, Mapping[str, Any], dict[str, str]], httpx.Response]"] []
      True := writesLines_static (by repeat constructor) (by decide +kernel)
  have hremark : " " ++ "noqa: F401" = " noqa: F401" := by decide
  rw [hremark] at htypes
  exact (((((hdoc.append himports).append htypes).append hblank).append hkey).append hhandler).congr
    (by simp)

/-- The module has the docstrings and the comments that it is written with, and no others, exactly if
all its operations are contained. -/
theorem remarks?_render {typesPath : String} (ht : Tame (Artifact.moduleName typesPath))
    (h : ∀ op ∈ g.operations, op.Legal) (title version directory : String) :
    remarks? (render g title version typesPath directory []).content.toList =
        some (remarks g title version) ↔
      ∀ op ∈ g.operations, op.Contained := by
  have hhandlers : WritesLines (g.operations.flatMap (handlerLines []))
      (g.operations.map fun op => .docstring (handlerDoc op).toList)
      (∀ op ∈ g.operations, op.Contained) := by
    rw [List.map_eq_flatMap]
    exact writesLines_flatMap fun op hop => writesLines_handlerLines (h op hop)
  have hroutes : WritesLines (g.routes.map routeLine) [] True :=
    writesLines_map fun op hop => silent_routeLine (h op (List.mem_mergeSort.mp hop))
  have hall : WritesLines (moduleLines g title version (Artifact.moduleName typesPath) [])
      ([.docstring (linesChars (moduleDoc g.key title version)), .comment " noqa: F401".toList] ++
        (g.operations.map fun op => .docstring (handlerDoc op).toList) ++
        [.comment " Literal segments are listed before parameters at the same position.".toList] ++
        [] ++ [.docstring "Return the handler and path parameters for a request, if any.".toList,
          .docstring "Route ``request`` to its handler, or answer 404.".toList]) _ :=
    ((((writesLines_headLines ht g.key title version).append hhandlers).append
      (writesLines_static (by repeat constructor) (by decide +kernel))).append hroutes).append
      (writesLines_static (by repeat constructor) (by decide +kernel))
  rw [render, Artifact.toList_lines]
  refine Iff.trans ?_ (hall.congr (by simp)).iff
  simp [remarks]

end HandlerModule

end RouteStubs
