import Mathlib.Data.List.Chain
import RouteStubs.Proofs.Render.TypesModule

/-!
# Names that the module of declarations binds

The module binds names where a line at its margin imports them, starts a class or assigns to one. They
come from three places that know nothing of each other: what is imported, the names of declarations,
and the names of constants, each made distinct among themselves. That no name comes from two of them is
a matter of underscores: in the name of a declaration one stands before a digit or at the end, and in
that of a constant one stands before a letter.

## Main definitions

* `Name.Unjoined`: a name in which underscores join no words.
* `TypesModule.boundBy`: the names that a line binds.
* `TypesModule.Item.bound`: the names that are bound for a declaration.

## Main statements

* `Name.Styled.unjoined`: names of declarations.
* `TypesModule.boundBy_moduleLines`: the names that the module binds.
* `TypesModule.nodup_bound`: no name is bound twice.
-/

namespace RouteStubs

open Text

/-! ### Underscores -/

namespace Name

variable {name : String} {s : List Char}

/-- What may come after an underscore if that joins no words. -/
def Unjoins (c d : Char) : Prop := c = '_' → isDigit d = true

/-- In the name underscores join no words: one stands before a digit or at the end. -/
def Unjoined (name : String) : Prop := name.toList.IsChain Unjoins

theorem isDigit_of_isAsciiDigit {c : Char} (h : isAsciiDigit c = true) : isDigit c = true := by
  simp [isDigit, isDecimal_of_isAsciiDigit h]

/-- Where there is no underscore, none joins words. -/
theorem isChain_of_isWordChar (h : ∀ c ∈ s, isWordChar c = true) : s.IsChain Unjoins := by
  refine (List.pairwise_of_forall_mem_list fun c hc d _ => ?_).isChain
  rintro rfl
  exact absurd (h '_' hc) (by decide)

theorem isChain_append_digits {digits : List Char} (h : s.IsChain Unjoins)
    (hd : ∀ c ∈ digits, isAsciiDigit c = true) : (s ++ digits).IsChain Unjoins := by
  refine h.append (isChain_of_isWordChar fun c hc => by simp [isWordChar, hd c hc]) ?_
  intro _ _ c hc _
  exact isDigit_of_isAsciiDigit (hd c (List.mem_of_mem_head? hc))

/-- An underscore comes before a name in the style of declarations only if that starts with a digit, and
after it only if it is a keyword. -/
theorem unjoined_typeStyle {base fallback : String}
    (hf : ∀ c ∈ fallback.toList, isWordChar c = true) (h : typeStyle base fallback = .ok name) :
    Unjoined name := by
  obtain ⟨kept, result, hw, hresult, rfl⟩ := exists_of_typeStyle hf h
  have hchain : result.IsChain Unjoins := by
    cases kept with
    | nil => cases hresult
    | cons c rest =>
      rw [withoutLeadingDigit, Except.ok.injEq] at hresult
      split at hresult
      · next hdigit =>
        rw [← hresult]
        exact List.isChain_cons_cons.mpr ⟨fun _ => hdigit, isChain_of_isWordChar hw⟩
      · rw [← hresult]
        exact isChain_of_isWordChar hw
  rw [Unjoined, String.toList_ofList, avoiding]
  split
  · next hkeyword =>
    refine hchain.append (List.isChain_singleton _) ?_
    rintro _ hlast _ _ rfl
    -- no keyword ends in an underscore
    rw [Option.mem_def, List.getLast?_eq_some_iff] at hlast
    obtain ⟨before, hbefore⟩ := hlast
    rw [hbefore] at hkeyword
    have hno : String.ofList (before ++ ['_']) ∉ keywords := ofList_notMem_keywords (.inl rfl)
    exact absurd (by simpa using hkeyword) hno
  · exact hchain

/-- In the names of declarations underscores join no words. -/
theorem Styled.unjoined (h : Styled name) : Unjoined name := by
  obtain ⟨base, styled, taken, hs, rfl⟩ := h
  have hfallback : "Model".toList.all isWordChar = true := by decide
  have hstyled := unjoined_typeStyle (List.all_eq_true.mp hfallback) hs
  unfold fresh
  split
  · rw [Unjoined, numbered, String.toList_append, String.toList_ofList]
    exact isChain_append_digits hstyled fun c hc => isAsciiDigit_of_mem_decimalText hc
  · exact hstyled

/-- No name ends in a word that an underscore joins to it. -/
theorem Unjoined.ne_append (h : Unjoined name) (before : String) {after : String} {d : Char}
    {rest : List Char} (ha : after.toList = '_' :: d :: rest) (hd : isDigit d = false) :
    before ++ after ≠ name := by
  rintro rfl
  rw [Unjoined, String.toList_append, ha] at h
  have hjoin := (List.isChain_cons_cons.mp (List.isChain_append.mp h).2.1).1 rfl
  rw [hd] at hjoin
  cases hjoin

end Name

namespace TypesModule

variable {name title version : String} {table : Declarations} {items : List Item} {item : Item}
  {line : String} {constants : List String} {d : Declaration}

/-! ### What a line binds -/

/-- The names that a line at the margin of a module binds, if it imports names, starts a class or
assigns to a name. -/
def boundBy (line : String) : List String :=
  let word := line.toList.takeWhile isIdentifierContinue
  let after := line.toList.dropWhile isIdentifierContinue
  if word.isEmpty then []
  else if [':'].isPrefixOf after || " = ".toList.isPrefixOf after then [String.ofList word]
  else if word = "class".toList then
    [String.ofList ((after.drop 1).takeWhile isIdentifierContinue)]
  else if word = "from".toList then
    (((runs isIdentifierContinue (after.takeWhile (· != '#'))).dropWhile
      (· != "import".toList)).drop 1).map String.ofList
  else []

/-- The name of the constants of a declaration, if it is a union that a field tells apart. -/
def Item.constant? : Item → Option String
  | .tagged _ _ constant _ _ _ => some constant
  | _ => none

/-- The names that are bound for a declaration: its own, and those of its constants. -/
def Item.bound (item : Item) : List String :=
  item.name :: match item.constant? with
    | some constant => [constant ++ "_DISCRIMINATOR", constant ++ "_VARIANTS"]
    | none => []

/-- The names that the module imports. -/
def imported : List String :=
  ["annotations", "Any", "Final", "Literal", "NotRequired", "TypeAlias", "TypedDict", "Union"]

/-- The names that the module binds. -/
def bound (items : List Item) : List String :=
  imported ++ "__all__" :: items.flatMap Item.bound

theorem boundBy_of_head {c : Char} (h : line.toList.head? = some c)
    (hc : isIdentifierContinue c = false) : boundBy line = [] := by
  obtain ⟨rest, hl⟩ := List.head?_eq_some_iff.mp h
  simp [boundBy, hl, hc]

/-- Where a word ends. -/
theorem takeWhile_word {word : List Char} {c : Char}
    (hw : ∀ d ∈ word, isIdentifierContinue d = true) (hc : isIdentifierContinue c = false)
    (after : List Char) :
    (word ++ c :: after).takeWhile isIdentifierContinue = word ∧
      (word ++ c :: after).dropWhile isIdentifierContinue = c :: after := by
  rw [List.takeWhile_append_of_pos hw, List.dropWhile_append_of_pos hw]
  simp [hc]

theorem continues (h : Name.Legal name) : ∀ c ∈ name.toList, isIdentifierContinue c = true :=
  fun c hc => (h.isNameChar c hc).continues

/-- A line that starts with a name and a colon assigns to the name. -/
theorem boundBy_colon (after : List Char) (hl : line.toList = name.toList ++ ':' :: after)
    (hn : ∀ c ∈ name.toList, Name.IsNameChar c) (hne : name ≠ "") : boundBy line = [name] := by
  obtain ⟨hword, hafter⟩ := takeWhile_word (fun c hc => (hn c hc).continues)
    (show isIdentifierContinue ':' = false by decide) after
  simp only [boundBy, hl, hword, hafter]
  simp [hne]

/-- A line that starts with a legal name and an equals sign assigns to the name. -/
theorem boundBy_equals (after : List Char)
    (hl : line.toList = name.toList ++ ' ' :: '=' :: ' ' :: after) (h : Name.Legal name) :
    boundBy line = [name] := by
  obtain ⟨hword, hafter⟩ := takeWhile_word (continues h)
    (show isIdentifierContinue ' ' = false by decide) ('=' :: ' ' :: after)
  simp only [boundBy, hl, hword, hafter]
  simp [h.ne_nil]

/-- A line that starts with an attribute of a name binds none. -/
theorem boundBy_attribute (after : List Char) (hl : line.toList = name.toList ++ '.' :: after)
    (h : Name.Legal name) : boundBy line = [] := by
  obtain ⟨hword, hafter⟩ := takeWhile_word (continues h)
    (show isIdentifierContinue '.' = false by decide) after
  have hkeyword : ∀ word ∈ keywords, name.toList ≠ word.toList := by
    rintro word hw heq
    exact h.keyword (String.toList_inj.mp heq ▸ hw)
  simp only [boundBy, hl, hword, hafter, hkeyword "class" (by decide), hkeyword "from" (by decide)]
  simp

/-- A line that starts a class binds its name. -/
theorem boundBy_class (h : Name.Legal name) : boundBy ("class " ++ name ++ "(TypedDict):") = [name] := by
  have hl : ("class " ++ name ++ "(TypedDict):").toList =
      "class".toList ++ ' ' :: (name.toList ++ '(' :: "TypedDict):".toList) := by
    simp [String.toList_append]
  obtain ⟨hword, hafter⟩ := takeWhile_word
    (List.all_eq_true.mp (show "class".toList.all isIdentifierContinue = true by decide))
    (show isIdentifierContinue ' ' = false by decide) (name.toList ++ '(' :: "TypedDict):".toList)
  obtain ⟨hname, -⟩ := takeWhile_word (continues h)
    (show isIdentifierContinue '(' = false by decide) "TypedDict):".toList
  -- there is a name after the blank, so nothing is assigned to
  obtain ⟨c, rest, hcons⟩ := List.exists_cons_of_ne_nil h.ne_nil
  have hne : c ≠ '=' := by
    rintro rfl
    exact absurd (continues h '=' (hcons ▸ List.mem_cons_self)) (by decide)
  have hassigns : ([':'].isPrefixOf (' ' :: (name.toList ++ '(' :: "TypedDict):".toList)) ||
      " = ".toList.isPrefixOf (' ' :: (name.toList ++ '(' :: "TypedDict):".toList))) = false := by
    simp [hcons, List.isPrefixOf, Ne.symm hne]
  simp only [boundBy, hl, hword, hafter, hassigns, List.drop_succ_cons, List.drop_zero, hname]
  simp

theorem boundBy_comment (text : String) : boundBy ("# " ++ text) = [] :=
  boundBy_of_head (c := '#') (by simp [String.toList_append]) (by decide)

/-! ### What a declaration binds -/

section Lines

variable {fields : List FieldText} {doc : List String} {type : String}

/-- Lines that start with a blank bind no names. -/
theorem flatMap_boundBy_eq_nil {lines : List String}
    (h : ∀ line ∈ lines, line = "" ∨ line.toList.head? = some ' ') : lines.flatMap boundBy = [] := by
  rw [List.flatMap_eq_nil_iff]
  intro line hline
  rcases h line hline with rfl | hblank
  · rfl
  · exact boundBy_of_head hblank (by decide)

theorem boundBy_comments (doc : List String) : (doc.map ("# " ++ ·)).flatMap boundBy = [] := by
  rw [List.flatMap_map, List.flatMap_eq_nil_iff]
  exact fun line _ => boundBy_comment line

theorem boundBy_annotated (h : Name.Legal name) (type : String) :
    boundBy (name ++ ": TypeAlias = " ++ type) = [name] := by
  refine boundBy_colon (" TypeAlias = ".toList ++ type.toList) ?_ h.isNameChar ?_
  · simp [String.toList_append]
  · rintro rfl
    exact h.ne_nil rfl

theorem head?_commentLines {margin : String} (hm : margin.toList.head? = some ' ') (f : FieldText) :
    ∀ line ∈ commentLines margin f, line.toList.head? = some ' ' := by
  unfold commentLines
  split
  · exact List.forall_mem_nil _
  · simp [String.toList_append, List.head?_append, hm]

/-- The fields of a record, with their comments, bind no names. -/
theorem boundBy_fields {margin : String} {line : FieldText → String}
    (hm : margin.toList.head? = some ' ') (hl : ∀ f, (line f).toList.head? = some ' ')
    (fields : List FieldText) :
    (fields.flatMap fun f => commentLines margin f ++ [line f]).flatMap boundBy = [] := by
  refine flatMap_boundBy_eq_nil (List.forall_mem_flatMap.mpr fun f _ => ?_)
  refine List.forall_mem_append.mpr ⟨fun comment hc => .inr (head?_commentLines hm f comment hc), ?_⟩
  exact List.forall_mem_singleton.mpr (.inr (hl f))

theorem boundBy_classRecord (h : Name.Legal name) :
    (Item.classRecord name fields doc).lines.flatMap boundBy = [name] := by
  have hdoc : ((docstringOf doc "\n\n    ").flatMap fun text => ["    " ++ text, ""]).flatMap
      boundBy = [] := by
    refine flatMap_boundBy_eq_nil (List.forall_mem_flatMap.mpr fun text _ => ?_)
    simp [String.toList_append]
  have hfields : (fields.flatMap fun f =>
      commentLines "    " f ++ ["    " ++ f.name ++ ": " ++ f.type]).flatMap boundBy = [] :=
    boundBy_fields rfl (by simp [String.toList_append]) fields
  rw [Item.lines, List.flatMap_append, List.flatMap_append, hdoc, hfields, List.flatMap_singleton,
    boundBy_class h]
  rfl

theorem boundBy_callRecord (h : Name.Legal name) :
    (Item.callRecord name fields doc).lines.flatMap boundBy = [name] := by
  have hhead : [name ++ " = TypedDict(", "    " ++ quoted name ++ ",", "    \x7b"].flatMap boundBy =
      [name] := by
    have htail : ["    " ++ quoted name ++ ",", "    \x7b"].flatMap boundBy = [] :=
      flatMap_boundBy_eq_nil (by simp [String.toList_append])
    rw [List.flatMap_cons, htail,
      boundBy_equals "TypedDict(".toList (by simp [String.toList_append]) h]
    rfl
  have hfields : (fields.flatMap fun f =>
      commentLines "        " f ++ ["        " ++ quoted f.name ++ ": " ++ f.type ++ ","]).flatMap
        boundBy = [] := boundBy_fields rfl (by simp [String.toList_append]) fields
  have hclose : ["    \x7d,", ")"].flatMap boundBy = [] := by decide
  have hdoc : ((docstringOf doc "\n\n").map fun text => name ++ ".__doc__ = " ++ text).flatMap
      boundBy = [] := by
    rw [List.flatMap_map, List.flatMap_eq_nil_iff]
    intro text _
    refine boundBy_attribute ("__doc__ = ".toList ++ text.toList) ?_ h
    simp [String.toList_append]
  rw [Item.lines, List.flatMap_append, List.flatMap_append, List.flatMap_append, hhead, hfields,
    hclose, hdoc]
  rfl

theorem boundBy_tagged {constant discriminator : String} {variants : List (Scalar × String)}
    (h : Name.Legal name) (hc : ∀ c ∈ constant.toList, Name.IsNameChar c) :
    (Item.tagged name type constant discriminator variants doc).lines.flatMap boundBy =
      [name, constant ++ "_DISCRIMINATOR", constant ++ "_VARIANTS"] := by
  have hconstant : ∀ suffix : String,
      (suffix.toList.all fun c => Name.isWordChar c || c == '_') = true →
        ∀ c ∈ (constant ++ suffix).toList, Name.IsNameChar c := by
    intro suffix hs
    rw [String.toList_append]
    refine List.forall_mem_append.mpr ⟨hc, fun c hm => ?_⟩
    simpa [Name.IsNameChar] using List.all_eq_true.mp hs c hm
  have hfirst : boundBy (constant ++ "_DISCRIMINATOR: Final = " ++ quoted discriminator) =
      [constant ++ "_DISCRIMINATOR"] := by
    refine boundBy_colon (" Final = ".toList ++ (quoted discriminator).toList) ?_
      (hconstant _ (by decide)) (by simp)
    simp [String.toList_append]
  have hsecond : boundBy (constant ++ "_VARIANTS: Final[dict[Any, str]] = \x7b") =
      [constant ++ "_VARIANTS"] := by
    refine boundBy_colon " Final[dict[Any, str]] = \x7b".toList ?_
      (hconstant _ (by decide)) (by simp)
    simp [String.toList_append]
  have hvariants : ∀ line : Scalar × String → String, (∀ v, (line v).toList.head? = some ' ') →
      (variants.map line).flatMap boundBy = [] := fun line hline =>
    flatMap_boundBy_eq_nil (List.forall_mem_map.mpr fun v _ => .inr (hline v))
  have hclose : ["\x7d"].flatMap boundBy = [] := by decide
  rw [Item.lines, List.flatMap_append, List.flatMap_append, List.flatMap_append, List.flatMap_append,
    boundBy_comments, hvariants _ (by simp [String.toList_append]), hclose,
    List.flatMap_singleton, List.flatMap_cons, hfirst, List.flatMap_singleton, hsecond,
    boundBy_annotated h type]
  rfl

theorem boundBy_alias (h : Name.Legal name) :
    (Item.alias name type doc).lines.flatMap boundBy = [name] := by
  rw [Item.lines, List.flatMap_append, boundBy_comments, List.flatMap_singleton,
    boundBy_annotated h type]
  rfl

end Lines

theorem itemsOf_cons (table : Declarations) (constants : List String) (d : Declaration)
    (rest : List Declaration) : itemsOf table constants (d :: rest) =
      (itemOf table constants d).1 :: itemsOf table (itemOf table constants d).2 rest := rfl

/-- The lines of a declaration bind its name, and those of its constants. -/
theorem boundBy_itemOf (h : Name.Legal d.id) :
    (itemOf table constants d).1.lines.flatMap boundBy = (itemOf table constants d).1.bound := by
  unfold itemOf
  split
  · simp only
    split
    · exact boundBy_classRecord h
    · exact boundBy_callRecord h
  · exact boundBy_tagged h (isNameChar_constantFor h constants)
  · exact boundBy_alias h

theorem boundBy_itemsOf {ds : List Declaration} (h : ∀ d ∈ ds, Name.Legal d.id) :
    ((itemsOf table constants ds).flatMap fun item => ["", ""] ++ item.lines).flatMap boundBy =
      (itemsOf table constants ds).flatMap Item.bound := by
  induction ds generalizing constants with
  | nil => rfl
  | cons d rest ih =>
    obtain ⟨hd, hrest⟩ := List.forall_mem_cons.mp h
    have hempty : ["", ""].flatMap boundBy = [] := rfl
    rw [itemsOf_cons, List.flatMap_cons, List.flatMap_append, List.flatMap_append, hempty,
      List.nil_append, boundBy_itemOf hd, ih hrest, List.flatMap_cons]

/-- The lines of the module bind what is imported, the list of what it exports, and what is bound for
each declaration. -/
theorem boundBy_moduleLines {ds : List Declaration} (h : ∀ d ∈ ds, Name.Legal d.id)
    (table : Declarations) (constants : List String) (title version : String) :
    (moduleLines title version (itemsOf table constants ds)).flatMap boundBy =
      bound (itemsOf table constants ds) := by
  have htitle : boundBy ("\"\"\"Type declarations for " ++ Prose.docstring title ++ " " ++
      Prose.docstring version ++ ".") = [] :=
    boundBy_of_head (c := '"') (by simp [String.toList_append]) (by decide)
  have himports : ["",
      "Generated by apistub from the OpenAPI document. Do not edit by hand;",
      "regenerating overwrites this file.", "\"\"\"", "",
      "from __future__ import annotations", "",
      "from typing import Any, Final, Literal, NotRequired, TypeAlias, TypedDict, Union" ++
        "  # noqa: F401",
      "", "__all__ = ["].flatMap boundBy = imported ++ ["__all__"] := by decide +kernel
  have hexports : ((itemsOf table constants ds).map fun item =>
      "    " ++ quoted item.name ++ ",").flatMap boundBy = [] := by
    refine flatMap_boundBy_eq_nil (List.forall_mem_map.mpr fun item _ => ?_)
    simp [String.toList_append]
  have hclose : ["]"].flatMap boundBy = [] := rfl
  rw [moduleLines, List.flatMap_append, List.flatMap_append, List.flatMap_append, hexports, hclose,
    boundBy_itemsOf h, List.flatMap_cons, htitle, himports, bound]
  simp

/-! ### No name is bound twice -/

/-- What is written for a declaration has its name. It has a name for constants exactly if it is a union
that a field tells apart, which was free, and is taken from then on. -/
theorem itemOf_cases (table : Declarations) (constants : List String) (d : Declaration) :
    (itemOf table constants d).1.name = d.id ∧
      (((itemOf table constants d).1.constant? = none ∧ (itemOf table constants d).2 = constants ∧
          ∀ variants discriminator, d.node ≠ .union variants (some discriminator)) ∨
        ∃ constant, (itemOf table constants d).1.constant? = some constant ∧ constant ∉ constants ∧
          (itemOf table constants d).2 = constant :: constants ∧
          ∃ variants discriminator, d.node = .union variants (some discriminator)) := by
  unfold itemOf
  split
  · next hn =>
    simp only
    split <;> exact ⟨rfl, .inl ⟨rfl, rfl, by simp [hn]⟩⟩
  · next variants discriminator hn =>
    exact ⟨rfl, .inr ⟨_, rfl, Name.fresh_notMem _ _, rfl, variants, discriminator, hn⟩⟩
  · next hunion => exact ⟨rfl, .inl ⟨rfl, rfl, hunion⟩⟩

/-- The declarations are written one by one, with constants for the unions that a field tells apart. -/
theorem forall₂_itemsOf (table : Declarations) (constants : List String) (ds : List Declaration) :
    List.Forall₂ (fun (d : Declaration) item => item.name = d.id ∧ (item.constant?.isSome ↔
      ∃ variants discriminator, d.node = .union variants (some discriminator))) ds
        (itemsOf table constants ds) := by
  induction ds generalizing constants with
  | nil => exact .nil
  | cons d rest ih =>
    obtain ⟨hname, hconstant⟩ := itemOf_cases table constants d
    rw [itemsOf_cons]
    refine .cons ⟨hname, ?_⟩ (ih _)
    rcases hconstant with ⟨hnone, -, hno⟩ | ⟨constant, hsome, -, -, hunion⟩
    · simp [hnone, hno]
    · exact iff_of_true (by simp [hsome]) hunion

theorem map_name_itemsOf (table : Declarations) (constants : List String) (ds : List Declaration) :
    (itemsOf table constants ds).map Item.name = ds.map (·.id) := by
  induction ds generalizing constants with
  | nil => rfl
  | cons d rest ih =>
    rw [itemsOf_cons, List.map_cons, List.map_cons, ih, (itemOf_cases table constants d).1]

/-- No name for constants is used twice. -/
theorem pairwise_constants (table : Declarations) (constants : List String) (ds : List Declaration) :
    (itemsOf table constants ds).Pairwise (fun item other => ∀ constant,
        item.constant? = some constant → other.constant? ≠ some constant) ∧
      ∀ item ∈ itemsOf table constants ds, ∀ constant, item.constant? = some constant →
        constant ∉ constants := by
  induction ds generalizing constants with
  | nil => exact ⟨.nil, List.forall_mem_nil _⟩
  | cons d rest ih =>
    obtain ⟨-, hfirst⟩ := itemOf_cases table constants d
    obtain ⟨hpairwise, hnew⟩ := ih (itemOf table constants d).2
    rw [itemsOf_cons, List.pairwise_cons, List.forall_mem_cons]
    rcases hfirst with ⟨hnone, htaken, -⟩ | ⟨constant, hsome, hfree, htaken, -⟩
    · rw [htaken] at hpairwise hnew ⊢
      simp only [hnone]
      exact ⟨⟨fun _ _ => nofun, hpairwise⟩, nofun, hnew⟩
    · rw [htaken] at hpairwise hnew ⊢
      simp only [hsome, Option.some.injEq, forall_eq']
      refine ⟨⟨fun other hother hc => ?_, hpairwise⟩, hfree, fun item hitem constant' hc hm => ?_⟩
      · exact hnew other hother constant hc List.mem_cons_self
      · exact hnew item hitem constant' hc (List.mem_cons_of_mem _ hm)

theorem mem_bound_iff : name ∈ item.bound ↔ name = item.name ∨ ∃ constant,
    item.constant? = some constant ∧
      (name = constant ++ "_DISCRIMINATOR" ∨ name = constant ++ "_VARIANTS") := by
  unfold Item.bound
  cases item.constant? <;> simp

/-- A name of a constant tells what it is for and which constant it is. -/
theorem discriminator_ne_variants (constant other : String) :
    constant ++ "_DISCRIMINATOR" ≠ other ++ "_VARIANTS" := by
  intro h
  have hlast := congrArg (fun s : String => s.toList.getLast?) h
  simp [String.toList_append, List.getLast?_append] at hlast

theorem eq_of_append_eq {constant other suffix : String}
    (h : constant ++ suffix = other ++ suffix) : constant = other := by
  have hl := congrArg String.toList h
  rw [String.toList_append, String.toList_append] at hl
  exact String.toList_inj.mp (List.append_cancel_right hl)

/-- The name of a constant is not that of a declaration, and is not imported. -/
theorem ne_of_unjoined (h : Name.Unjoined name) (constant : String) {other : String}
    (hc : other = constant ++ "_DISCRIMINATOR" ∨ other = constant ++ "_VARIANTS") : other ≠ name := by
  rcases hc with rfl | rfl
  · exact h.ne_append constant rfl (by decide)
  · exact h.ne_append constant rfl (by decide)

theorem nodup_item_bound (h : Name.Unjoined item.name) : item.bound.Nodup := by
  unfold Item.bound
  cases item.constant? with
  | none => exact List.nodup_singleton _
  | some constant =>
    have hfirst := (ne_of_unjoined h constant (.inl rfl)).symm
    have hsecond := (ne_of_unjoined h constant (.inr rfl)).symm
    simp [hfirst, hsecond]

/-- What is bound for two declarations of different names and constants. -/
theorem disjoint_bound {other : Item} (h : Name.Unjoined item.name) (h' : Name.Unjoined other.name)
    (hname : item.name ≠ other.name)
    (hconstant : ∀ constant, item.constant? = some constant → other.constant? ≠ some constant) :
    item.bound.Disjoint other.bound := by
  intro bound hb hb'
  rcases mem_bound_iff.mp hb with rfl | ⟨constant, hc, hbound⟩
  · rcases mem_bound_iff.mp hb' with heq | ⟨constant', -, hbound'⟩
    · exact hname heq
    · exact ne_of_unjoined h constant' hbound' rfl
  · rcases mem_bound_iff.mp hb' with rfl | ⟨constant', hc', hbound'⟩
    · exact ne_of_unjoined h' constant hbound rfl
    · -- both are constants, for the same purpose or for different ones
      have hne : constant ≠ constant' := by
        rintro rfl
        exact hconstant constant hc hc'
      rcases hbound with rfl | rfl <;> rcases hbound' with heq | heq
      · exact hne (eq_of_append_eq heq)
      · exact discriminator_ne_variants _ _ heq
      · exact discriminator_ne_variants _ _ heq.symm
      · exact hne (eq_of_append_eq heq)

/-- The module binds no name twice if its declarations have different names and constants, and their
names are not reserved and join no words. -/
theorem nodup_bound (hnames : (items.map Item.name).Nodup)
    (hunjoined : ∀ item ∈ items, Name.Unjoined item.name)
    (hfree : ∀ item ∈ items, item.name ∉ reservedNames)
    (hconstants : items.Pairwise fun item other => ∀ constant,
      item.constant? = some constant → other.constant? ≠ some constant) : (bound items).Nodup := by
  have himported : imported ⊆ reservedNames := by decide
  have hjoined : ∀ name ∈ imported, Name.Unjoined name := by
    unfold Name.Unjoined Name.Unjoins
    decide
  have hitems : (items.flatMap Item.bound).Nodup := by
    refine List.nodup_flatMap.mpr ⟨fun item hitem => nodup_item_bound (hunjoined item hitem), ?_⟩
    have hpairs := (List.pairwise_map.mp hnames).and hconstants
    refine hpairs.imp_of_mem fun hitem hother h => ?_
    exact disjoint_bound (hunjoined _ hitem) (hunjoined _ hother) h.1 h.2
  have hall : "__all__" ∉ items.flatMap Item.bound := by
    intro hm
    obtain ⟨item, hitem, hm⟩ := List.mem_flatMap.mp hm
    rcases mem_bound_iff.mp hm with heq | ⟨constant, -, heq⟩
    · have hunjoins := hunjoined item hitem
      rw [← heq] at hunjoins
      revert hunjoins
      unfold Name.Unjoined Name.Unjoins
      decide
    · -- it ends in an underscore, and no constant does
      have hlast := fun other (h : "__all__" = other) =>
        congrArg (fun s : String => s.toList.getLast?) h
      rcases heq with heq | heq
      · simpa [String.toList_append, List.getLast?_append] using hlast _ heq
      · simpa [String.toList_append, List.getLast?_append] using hlast _ heq
  rw [bound, List.nodup_append]
  refine ⟨by decide, List.nodup_cons.mpr ⟨hall, hitems⟩, ?_⟩
  rintro name hname _ hm rfl
  rcases List.mem_cons.mp hm with rfl | hm
  · revert hname
    decide
  · obtain ⟨item, hitem, hm⟩ := List.mem_flatMap.mp hm
    rcases mem_bound_iff.mp hm with rfl | ⟨constant, -, heq⟩
    · exact hfree item hitem (himported hname)
    · exact ne_of_unjoined (hjoined name hname) constant heq rfl

end TypesModule

end RouteStubs
