import RouteStubs.Operation.Collect
import RouteStubs.Proofs.Renamed.Draft

/-!
# Collecting operations with other identities

The operations of a document are read off its mappings by their keys. With other identities the same
operations are collected, and their shapes are those with other identities.

## Main definitions

* `Operation.rename f`, `Parameter.rename f`: operations and parameters with other identities.

## Main statements

* `Collect.addOperation_matches`: one operation.
* `Collect.operations_matches`: all operations.
-/

namespace RouteStubs

/-- A parameter with other identities in its shape. -/
def Parameter.rename (f : Nat → Nat) (p : Parameter) : Parameter := { p with node := p.node.rename f }

/-- The bodies of responses with other identities in their shapes. -/
def renameResponses (f : Nat → Nat) (responses : List (String × Option Shape)) :
    List (String × Option Shape) :=
  responses.map fun r => (r.1, r.2.map (Shape.rename f))

/-- An operation with other identities in its shapes. -/
def Operation.rename (f : Nat → Nat) (op : Operation) : Operation :=
  { op with
    parameters := op.parameters.map (Parameter.rename f)
    requestBody := op.requestBody.map (Shape.rename f)
    responses := renameResponses f op.responses }

namespace Collect

open Shape Step

variable {f : Nat → Nat}

/-! ### What is read off mappings -/

theorem mediaType_rename (v : Value) : mediaType (v.rename f) = (mediaType v).rename f := by
  cases v with
  | scalar s => rfl
  | list items => rw [Value.rename_list]; rfl
  | mapping origin entries =>
    rw [Value.rename_mapping]
    cases entries with
    | nil => rfl
    | cons first rest =>
      obtain ⟨key, first⟩ := first
      have hjson := Entries.text?_rename (f := f) ((key, first) :: rest) "application/json"
      have hfind : List.find? (fun e => Text.occurs "json".toList e.1.display.toList)
          (Entries.rename f ((key, first) :: rest)) =
          (List.find? (fun e => Text.occurs "json".toList e.1.display.toList)
            ((key, first) :: rest)).map fun e => (e.1, e.2.rename f) := List.find?_map
      simp only [Entries.rename, List.map_cons] at hjson hfind ⊢
      unfold mediaType
      dsimp only
      rw [hjson, hfind]
      cases Entries.text? ((key, first) :: rest) "application/json" with
      | some media => rfl
      | none => cases List.find? _ ((key, first) :: rest) <;> rfl

theorem memberOrNull_rename (v : Value) (key : String) :
    memberOrNull (v.rename f) key = (memberOrNull v key).rename f := by
  unfold memberOrNull
  rw [Value.member?_rename]
  cases v.member? key <;> rfl

theorem getD_text?_rename (entries : Entries) (key : String) :
    (Entries.text? (entries.rename f) key).getD .null =
      ((Entries.text? entries key).getD .null).rename f := by
  rw [Entries.text?_rename]
  cases Entries.text? entries key <;> rfl

theorem schemaOf_rename (v : Value) :
    schemaOf (v.rename f) = (schemaOf v).map (Value.rename f) := by
  cases v with
  | scalar s => rfl
  | list items => rw [Value.rename_list]; rfl
  | mapping origin entries =>
    rw [Value.rename_mapping, schemaOf, schemaOf, getD_text?_rename]
    rfl

theorem itemsOf_rename (v : Value) :
    itemsOf (v.rename f) = (itemsOf v).map (List.map (Value.rename f)) := by
  cases v with
  | scalar s =>
    cases s with
    | text s => simp [itemsOf, Except.map]
    | _ => rfl
  | list items => rw [Value.rename_list]; rfl
  | mapping origin entries => simp [itemsOf, Except.map]

theorem itemsOrNone_rename (v : Value) :
    itemsOrNone (v.rename f) = (itemsOrNone v).map (List.map (Value.rename f)) := by
  unfold itemsOrNone
  rw [Value.isTrue_rename]
  split
  · exact itemsOf_rename v
  · rfl

theorem isGiven_rename (entries : Entries) (key : String) :
    isGiven (entries.rename f) key = isGiven entries key := by
  unfold isGiven
  rw [Entries.text?_rename]
  cases entries.text? key with
  | none => rfl
  | some v => exact congrArg (fun b => (some b).getD false) (Value.isTrue_rename v)

/-! ### Parameters -/

/-- A parameter as the document writes it, with other identities. -/
def RawParameter.rename (f : Nat → Nat) (p : RawParameter) : RawParameter :=
  { p with entries := p.entries.rename f }

theorem putParameter_rename (parameters : List RawParameter) (p : RawParameter) :
    putParameter (parameters.map (RawParameter.rename f)) (p.rename f) =
      (putParameter parameters p).map (RawParameter.rename f) := by
  induction parameters with
  | nil => rfl
  | cons q rest ih =>
    rw [List.map_cons, putParameter, putParameter, ih]
    change (if (q.name == p.name && q.location.same p.location) = true then _ else _) = _
    split <;> rfl

theorem rawParameter?_rename (entries : Entries) :
    rawParameter? (entries.rename f) =
      (rawParameter? entries).map (Option.map (RawParameter.rename f)) := by
  unfold rawParameter?
  rw [Entries.text?_rename, Entries.text?_rename]
  rcases entries.text? "name" with _ | name
  · rfl
  · rcases entries.text? "in" with _ | location
    · simp only [Option.map_some, Value.display_rename]
      rfl
    · simp only [Option.map_some, Value.display_rename, Option.getD_some]
      cases location with
      | scalar s => rfl
      | list items => rw [Value.rename_list]; rfl
      | mapping origin entries => rw [Value.rename_mapping]; rfl

variable {document : Value}

theorem mergeParameters_matches (merged : List RawParameter) (raws : List Value) :
    Matches (Draft.Together f document) (fun x y => y = x.map (RawParameter.rename f)) (fun _ => True)
      (mergeParameters merged raws)
      (mergeParameters (merged.map (RawParameter.rename f)) (raws.map (Value.rename f))) := by
  induction raws generalizing merged with
  | nil => exact matches_pure rfl
  | cons raw rest ih =>
    refine (Draft.onResolver_matches raw).bind ?_
    rintro found _ rfl
    cases found with
    | mapping origin entries =>
      rw [Value.rename_mapping]
      refine Matches.bind (Q := fun x y => y = x.map (RawParameter.rename f))
        (matches_ofExcept (rawParameter?_rename entries) (fun _ _ => rfl) fun _ _ => trivial) ?_
      rintro p _ rfl
      cases p with
      | none => exact ih merged
      | some p =>
        dsimp only [Option.map_some]
        rw [putParameter_rename]
        exact ih _
    | scalar s => exact ih merged
    | list items =>
      rw [Value.rename_list]
      exact ih merged

theorem effectiveParameters_matches (pathItem operation : Entries) :
    Matches (Draft.Together f document) (fun x y => y = x.map (RawParameter.rename f)) (fun _ => True)
      (effectiveParameters pathItem operation)
      (effectiveParameters (pathItem.rename f) (operation.rename f)) := by
  have hitems : ∀ entries : Entries,
      itemsOrNone ((Entries.text? (entries.rename f) "parameters").getD .null) =
        (itemsOrNone ((entries.text? "parameters").getD .null)).map (List.map (Value.rename f)) := by
    intro entries
    rw [getD_text?_rename, itemsOrNone_rename]
  refine Matches.bind (Q := fun x y => y = x.map (Value.rename f))
    (matches_ofExcept (hitems pathItem) (fun _ _ => rfl) fun _ _ => trivial) ?_
  rintro shared _ rfl
  refine Matches.bind (Q := fun x y => y = x.map (Value.rename f))
    (matches_ofExcept (hitems operation) (fun _ _ => rfl) fun _ _ => trivial) ?_
  rintro own _ rfl
  rw [← List.map_append]
  exact mergeParameters_matches [] (shared ++ own)

theorem parameterSchema_rename (entries : Entries) :
    parameterSchema (entries.rename f) = (parameterSchema entries).rename f := by
  unfold parameterSchema
  rw [getD_text?_rename, getD_text?_rename, mediaType_rename, memberOrNull_rename]
  cases (entries.text? "schema").getD .null with
  | scalar s => cases s <;> rfl
  | list items => rw [Value.rename_list]
  | mapping origin entries => rw [Value.rename_mapping]

section

variable (hf : Function.Injective f)
include hf

theorem addParameters_matches (typeName key : String) (raws : List RawParameter) :
    Matches (Draft.Together f document) (fun x y => y = x.map (Parameter.rename f)) (fun _ => True)
      (addParameters typeName key raws)
      (addParameters typeName key (raws.map (RawParameter.rename f))) := by
  induction raws with
  | nil => exact matches_pure rfl
  | cons p rest ih =>
    refine (matches_ofExcept_same rfl fun _ _ => trivial).bind ?_
    rintro _ word rfl
    refine Matches.bind (Q := fun x y => y = x.rename f) ?_ ?_
    · rw [RawParameter.rename, parameterSchema_rename]
      exact Draft.addInline_matches hf _ _ _
    rintro node _ rfl
    refine (matches_ofExcept_same (Prose.ofMember_rename p.entries _) fun _ _ => trivial).bind ?_
    rintro _ description rfl
    refine ih.bind ?_
    rintro others _ rfl
    refine matches_pure ?_
    rw [RawParameter.rename, isGiven_rename, List.map_cons]
    rfl

/-! ### Bodies -/

theorem addRequestBody_matches (operation : Entries) (typeName key : String) :
    Matches (Draft.Together f document) (fun x y => y = (x.1.map (Shape.rename f), x.2))
      (fun _ => True) (addRequestBody operation typeName key)
      (addRequestBody (operation.rename f) typeName key) := by
  unfold addRequestBody
  rw [getD_text?_rename]
  refine (Draft.onResolver_matches _).bind ?_
  rintro body _ rfl
  cases body with
  | scalar s => exact matches_pure rfl
  | list items =>
    rw [Value.rename_list]
    exact matches_pure rfl
  | mapping origin body =>
    rw [Value.rename_mapping]
    dsimp only
    rw [getD_text?_rename, mediaType_rename, isGiven_rename]
    generalize mediaType ((Entries.text? body "content").getD .null) = media
    have hmedia : Matches (Draft.Together f document) (fun x y => y = (x.1.map (Shape.rename f), x.2))
        (fun _ => True)
        (do
          let schema ← Step.ofExcept (schemaOf media)
          let node ← Draft.addInline schema (typeName ++ "Request") (key ++ "/requestBody")
          pure (some node, isGiven body "required"))
        (do
          let schema ← Step.ofExcept (schemaOf (media.rename f))
          let node ← Draft.addInline schema (typeName ++ "Request") (key ++ "/requestBody")
          pure (some node, isGiven body "required")) := by
      refine Matches.bind (Q := fun x y => y = x.rename f)
        (matches_ofExcept (schemaOf_rename media) (fun _ _ => rfl) fun _ _ => trivial) ?_
      rintro schema _ rfl
      refine (Draft.addInline_matches hf schema _ _).bind ?_
      rintro node _ rfl
      exact matches_pure rfl
    cases media with
    | scalar s =>
      cases s with
      | null => exact matches_pure rfl
      | _ => exact hmedia
    | list items =>
      rw [Value.rename_list] at hmedia ⊢
      exact hmedia
    | mapping origin entries =>
      rw [Value.rename_mapping] at hmedia ⊢
      exact hmedia

theorem addResponses_matches (typeName key : String) (raws : List (Scalar × Value)) :
    Matches (Draft.Together f document) (fun x y => y = renameResponses f x) (fun _ => True)
      (addResponses typeName key raws) (addResponses typeName key (Entries.rename f raws)) := by
  induction raws with
  | nil => exact matches_pure rfl
  | cons raw rest ih =>
    obtain ⟨code, raw⟩ := raw
    refine (Draft.onResolver_matches raw).bind ?_
    rintro response _ rfl
    rw [memberOrNull_rename, mediaType_rename]
    generalize mediaType (memberOrNull response "content") = media
    -- what comes after the body of the response, which may be missing
    have hrest : ∀ node : Option Shape, Matches (Draft.Together f document)
        (fun x y => y = renameResponses f x) (fun _ => True)
        (do
          let others ← addResponses typeName key rest
          pure ((code.display, node) :: others))
        (do
          let others ← addResponses typeName key (Entries.rename f rest)
          pure ((code.display, node.map (Shape.rename f)) :: others)) := by
      intro node
      refine ih.bind ?_
      rintro others _ rfl
      exact matches_pure rfl
    have hmedia : Matches (Draft.Together f document) (fun x y => y = renameResponses f x)
        (fun _ => True)
        (do
          let schema ← Step.ofExcept (schemaOf media)
          let word ← Step.ofExcept (if code.display == "default" then .ok "Default"
            else Name.typeStyle code.display "Model")
          let node ← some <$> Draft.addInline schema (typeName ++ word ++ "Response")
            (key ++ "/responses/" ++ code.display)
          let others ← addResponses typeName key rest
          pure ((code.display, node) :: others))
        (do
          let schema ← Step.ofExcept (schemaOf (media.rename f))
          let word ← Step.ofExcept (if code.display == "default" then .ok "Default"
            else Name.typeStyle code.display "Model")
          let node ← some <$> Draft.addInline schema (typeName ++ word ++ "Response")
            (key ++ "/responses/" ++ code.display)
          let others ← addResponses typeName key (Entries.rename f rest)
          pure ((code.display, node) :: others)) := by
      refine Matches.bind (Q := fun x y => y = x.rename f)
        (matches_ofExcept (schemaOf_rename media) (fun _ _ => rfl) fun _ _ => trivial) ?_
      rintro schema _ rfl
      refine (matches_ofExcept_same rfl fun _ _ => trivial).bind ?_
      rintro _ word rfl
      refine Matches.bind (Q := fun x y => y = x.map (Shape.rename f)) ?_ ?_
      · refine (Draft.addInline_matches hf schema _ _).map ?_
        rintro node _ rfl
        rfl
      · rintro node _ rfl
        exact hrest node
    cases media with
    | scalar s =>
      cases s with
      | null => exact hrest none
      | _ => exact hmedia
    | list items =>
      rw [Value.rename_list] at hmedia ⊢
      exact hmedia
    | mapping origin entries =>
      rw [Value.rename_mapping] at hmedia ⊢
      exact hmedia

omit hf in
theorem responsesOf_rename (operation : Entries) :
    responsesOf (operation.rename f) = (responsesOf operation).map (Entries.rename f) := by
  unfold responsesOf
  rw [Entries.text?_rename]
  rcases operation.text? "responses" with _ | responses
  · rfl
  cases responses with
  | mapping origin entries => rw [Option.map_some, Value.rename_mapping]; rfl
  | scalar s =>
    simp only [Option.map_some, Value.rename_scalar]
    split <;> rfl
  | list items =>
    have htrue : (Value.list (items.map (Value.rename f))).isTrue = (Value.list items).isTrue := by
      rw [← Value.rename_list, Value.isTrue_rename]
    simp only [Option.map_some, Value.rename_list, htrue]
    split <;> rfl

/-! ### Security -/

omit hf in
theorem schemeLabel_rename (name : String) (scheme : Value) :
    schemeLabel name (scheme.rename f) = schemeLabel name scheme := by
  cases scheme with
  | scalar s => rfl
  | list items => rw [Value.rename_list]; rfl
  | mapping origin entries =>
    rw [Value.rename_mapping]
    simp only [schemeLabel, isGiven_rename, getD_text?_rename, Value.display_rename]
    split
    · have hdetail : (if isGiven entries "scheme" = true then
            ((Entries.text? entries "scheme").getD .null).rename f
          else if isGiven entries "in" = true then ((Entries.text? entries "in").getD .null).rename f
          else .null) =
          (if isGiven entries "scheme" = true then (Entries.text? entries "scheme").getD .null
          else if isGiven entries "in" = true then (Entries.text? entries "in").getD .null
          else .null).rename f := by
        split
        · rfl
        · split <;> rfl
      rw [hdetail]
      generalize (if isGiven entries "scheme" = true then (Entries.text? entries "scheme").getD .null
        else if isGiven entries "in" = true then (Entries.text? entries "in").getD .null
        else .null) = detail
      cases detail with
      | scalar s => rfl
      | list items => rw [Value.rename_list]
      | mapping origin inner => rw [Value.rename_mapping]
    · rfl

omit hf in
theorem schemeNamed_rename (schemes : Value) (name : Scalar) :
    schemeNamed (schemes.renameGiven f) name = (schemeNamed schemes name).map (Value.rename f) := by
  cases schemes with
  | mapping origin entries =>
    obtain ⟨origin', heq⟩ := Value.exists_renameGiven f origin entries
    rw [heq, schemeNamed, schemeNamed, Entries.find?_rename]
    cases Entries.find? entries name <;> rfl
  | scalar s => rfl
  | list items =>
    rw [Value.renameGiven, Value.rename_list]
    · rfl
    · intro _ h
      cases h

omit hf in
theorem addLabels_matches (schemes : Value) (labels : List String) (names : List Scalar) :
    Matches (Draft.Together f document) (fun x y => y = x) (fun _ => True)
      (addLabels schemes labels names) (addLabels (schemes.renameGiven f) labels names) := by
  induction names generalizing labels with
  | nil => exact matches_pure rfl
  | cons name rest ih =>
    refine Matches.bind (Q := fun x y => y = x.rename f)
      (matches_ofExcept (schemeNamed_rename schemes name) (fun _ _ => rfl) fun _ _ => trivial) ?_
    rintro raw _ rfl
    refine (Draft.onResolver_matches raw).bind ?_
    rintro scheme _ rfl
    refine (matches_ofExcept_same (schemeLabel_rename _ scheme) fun _ _ => trivial).bind ?_
    rintro _ label rfl
    exact ih _

omit hf in
theorem keysOfItems_rename (items : List Value) :
    (items.map (Value.rename f)).flatMap (fun
      | .mapping _ entries => entries.map Prod.fst
      | _ => []) = items.flatMap fun
      | .mapping _ entries => entries.map Prod.fst
      | _ => [] := by
  rw [List.flatMap_map]
  congr 1
  funext v
  cases v with
  | scalar s => rfl
  | list items => rw [Value.rename_list]
  | mapping origin entries =>
    rw [Value.rename_mapping]
    simp

omit hf in
/-- The labels of what is required, wherever that was found. -/
theorem requiredLabels_matches (source requirements : Value) :
    Matches (Draft.Together f document) (fun x y => y = x) (fun _ => True)
      (do
        let schemes ← Step.ofExcept (Document.securitySchemes source)
        let items ← Step.ofExcept (itemsOrNone requirements)
        addLabels schemes [] (items.flatMap fun
          | .mapping _ entries => entries.map Prod.fst
          | _ => []))
      (do
        let schemes ← Step.ofExcept (Document.securitySchemes (source.rename f))
        let items ← Step.ofExcept (itemsOrNone (requirements.rename f))
        addLabels schemes [] (items.flatMap fun
          | .mapping _ entries => entries.map Prod.fst
          | _ => [])) := by
  refine Matches.bind (Q := fun x y => y = x.renameGiven f)
    (matches_ofExcept (Document.component_rename source "securitySchemes") (fun _ _ => rfl)
      fun _ _ => trivial) ?_
  rintro schemes _ rfl
  refine Matches.bind (Q := fun x y => y = x.map (Value.rename f))
    (matches_ofExcept (itemsOrNone_rename requirements) (fun _ _ => rfl) fun _ _ => trivial) ?_
  rintro items _ rfl
  rw [keysOfItems_rename]
  exact addLabels_matches schemes [] _

omit hf in
theorem securityLabels_matches (operation : Entries) :
    Matches (Draft.Together f document) (fun x y => y = x) (fun _ => True)
      (securityLabels operation) (securityLabels (operation.rename f)) := by
  refine matches_get fun d d' hd => ?_
  have hdocument : d'.document = d.document.rename f := by
    rw [hd.renamed]
    rfl
  rw [hdocument]
  -- what is required is looked up in the operation first, and then in the document
  have hown := Entries.text?_rename (f := f) operation "security"
  dsimp only
  rw [hown, memberOrNull_rename]
  cases operation.text? "security" with
  | none => exact requiredLabels_matches d.document _
  | some own => exact requiredLabels_matches d.document own

/-! ### Operations -/

/-- An operation as the document writes it, with other identities. -/
def RawOperation.rename (f : Nat → Nat) (raw : RawOperation) : RawOperation :=
  { raw with pathItem := raw.pathItem.rename f, entries := raw.entries.rename f }

omit hf in
theorem operationsOfPath_rename (path : String) (item : Value) :
    operationsOfPath path (item.rename f) =
      (operationsOfPath path item).map (RawOperation.rename f) := by
  cases item with
  | scalar s => rfl
  | list items => rw [Value.rename_list]; rfl
  | mapping origin pathItem =>
    rw [Value.rename_mapping, operationsOfPath, operationsOfPath, List.map_filterMap]
    congr 1
    funext method
    rw [Entries.text?_rename]
    rcases Entries.text? pathItem method with _ | operation
    · rfl
    cases operation with
    | scalar s => rfl
    | list items => rw [Option.map_some, Value.rename_list]; rfl
    | mapping origin entries => rw [Option.map_some, Value.rename_mapping]; rfl

omit hf in
theorem rawOperations_rename (paths : Value) :
    rawOperations (paths.renameGiven f) =
      (rawOperations paths).map (List.map (RawOperation.rename f)) := by
  cases paths with
  | scalar s => rfl
  | list items =>
    rw [Value.renameGiven, Value.rename_list]
    · rfl
    · intro _ h
      cases h
  | mapping origin entries =>
    obtain ⟨origin', heq⟩ := Value.exists_renameGiven f origin entries
    rw [heq, rawOperations, rawOperations, Except.map, List.map_flatMap, Entries.rename,
      List.flatMap_map]
    congr 2
    funext e
    exact operationsOfPath_rename e.1.display e.2

omit hf in
theorem operationId_rename (raw : RawOperation) : (raw.rename f).operationId = raw.operationId := by
  unfold RawOperation.operationId RawOperation.rename
  rw [Entries.text?_rename]
  cases raw.entries.text? "operationId" with
  | none => rfl
  | some id =>
    rw [Option.map_some, Option.filter_some, Option.filter_some, Value.isTrue_rename]
    by_cases htrue : id.isTrue = true
    · rw [if_pos htrue, if_pos htrue]
      exact Value.display_rename id
    · rw [if_neg htrue, if_neg htrue]

omit hf in
theorem parametersRecord_rename (parameters : List Parameter) :
    parametersRecord (parameters.map (Parameter.rename f)) =
      (parametersRecord parameters).rename f := by
  have hfields : ∀ kept : List (Field Shape),
      (parameters.map (Parameter.rename f)).foldl (fun kept p =>
        if kept.any fun f => f.name == p.name then kept
        else kept ++ [(⟨p.name, p.node, p.required, p.description⟩ : Field Shape)])
        (kept.map (renameField f)) =
      (parameters.foldl (fun kept p =>
        if kept.any fun f => f.name == p.name then kept
        else kept ++ [(⟨p.name, p.node, p.required, p.description⟩ : Field Shape)])
        kept).map (renameField f) := by
    induction parameters with
    | nil => exact fun _ => rfl
    | cons p rest ih =>
      intro kept
      have hany : (kept.map (renameField f)).any (fun g => g.name == (p.rename f).name) =
          kept.any fun g => g.name == p.name := List.any_map
      rw [List.map_cons, List.foldl_cons, List.foldl_cons, ← ih, hany]
      split
      · rfl
      · rw [List.map_append]
        rfl
  rw [parametersRecord, parametersRecord, rename_record, ← hfields []]
  rfl

omit hf in
theorem responsesRecord_rename (responses : List (String × Option Shape)) :
    responsesRecord (renameResponses f responses) = (responsesRecord responses).rename f := by
  rw [responsesRecord, responsesRecord, rename_record, renameResponses, List.map_map, List.map_map]
  congr 1
  apply List.map_congr_left
  rintro ⟨status, node⟩ _
  cases node <;> rfl

omit hf in
theorem addIf_matches (condition : Bool) {add add' : Step Draft String}
    (h : Matches (Draft.Together f document) (fun x y => y = x) (fun _ => True) add add') :
    Matches (Draft.Together f document) (fun x y => y = x) (fun _ => True) (addIf condition add)
      (addIf condition add') := by
  unfold addIf
  split
  · refine h.map ?_
    rintro _ id rfl
    rfl
  · exact matches_pure rfl

theorem addOperation_matches (raw : RawOperation) (operationId handler : String) :
    Matches (Draft.Together f document) (fun x y => y = x.rename f) (fun _ => True)
      (addOperation raw operationId handler) (addOperation (raw.rename f) operationId handler) := by
  unfold addOperation
  refine (matches_ofExcept_same rfl fun _ _ => trivial).bind ?_
  rintro _ typeName rfl
  refine (effectiveParameters_matches raw.pathItem raw.entries).bind ?_
  rintro rawParameters _ rfl
  refine (addParameters_matches hf typeName _ rawParameters).bind ?_
  rintro parameters _ rfl
  refine (addRequestBody_matches hf raw.entries typeName _).bind ?_
  rintro ⟨body, bodyRequired⟩ _ rfl
  refine Matches.bind (Q := fun x y => y = Entries.rename f x)
    (matches_ofExcept (responsesOf_rename raw.entries) (fun _ _ => rfl) fun _ _ => trivial) ?_
  rintro rawResponses _ rfl
  refine (addResponses_matches hf typeName _ rawResponses).bind ?_
  rintro responses _ rfl
  have hparameters : (parameters.map (Parameter.rename f)).isEmpty = parameters.isEmpty :=
    List.isEmpty_map
  have hresponses : (renameResponses f responses).isEmpty = responses.isEmpty := List.isEmpty_map
  rw [hparameters, hresponses, parametersRecord_rename, responsesRecord_rename]
  refine (addIf_matches _ (Draft.addEnvelope_matches _ _ _ _)).bind ?_
  rintro _ parametersType rfl
  refine (addIf_matches _ (Draft.addEnvelope_matches _ _ _ _)).bind ?_
  rintro _ responsesType rfl
  refine Matches.bind (Q := fun x y => y = x.map (Value.rename f)) ?_ ?_
  · refine matches_ofExcept (g := List.map (Value.rename f)) ?_ (fun _ _ => rfl) fun _ _ => trivial
    rw [RawOperation.rename, getD_text?_rename, itemsOrNone_rename]
  rintro tags _ rfl
  refine (matches_ofExcept_same (Prose.ofMember_rename raw.entries _) fun _ _ => trivial).bind ?_
  rintro _ summary rfl
  refine (matches_ofExcept_same (Prose.ofMember_rename raw.entries _) fun _ _ => trivial).bind ?_
  rintro _ description rfl
  refine (securityLabels_matches raw.entries).bind ?_
  rintro _ security rfl
  have htags : (tags.map (Value.rename f)).map Value.display = tags.map Value.display := by
    rw [List.map_map]
    exact List.map_congr_left fun v _ => Value.display_rename v
  refine matches_pure ?_
  rw [htags, RawOperation.rename, isGiven_rename]
  rfl

theorem addOperations_matches (raws : List (RawOperation × String × String)) :
    Matches (Draft.Together f document) (fun x y => y = x.map (Operation.rename f)) (fun _ => True)
      (addOperations raws) (addOperations (raws.map fun r => (r.1.rename f, r.2))) := by
  induction raws with
  | nil => exact matches_pure rfl
  | cons raw rest ih =>
    obtain ⟨raw, operationId, handler⟩ := raw
    refine (addOperation_matches hf raw operationId handler).bind ?_
    rintro op _ rfl
    refine ih.bind ?_
    rintro others _ rfl
    exact matches_pure rfl

/-- All operations are collected alike. -/
theorem operations_matches :
    Matches (Draft.Together f document) (fun x y => y = x.map (Operation.rename f)) (fun _ => True)
      operations operations := by
  refine matches_get fun d d' hd => ?_
  have hpaths : Document.paths d'.document =
      (Document.paths d.document).map (Value.renameGiven f) := by
    rw [hd.renamed]
    exact Document.paths_rename d.document
  refine Matches.bind (Q := fun v v' => v' = v.renameGiven f)
    (matches_ofExcept hpaths (fun _ _ => rfl) fun _ _ => trivial) ?_
  rintro paths _ rfl
  refine Matches.bind (Q := fun x y => y = x.map (RawOperation.rename f))
    (matches_ofExcept (rawOperations_rename paths) (fun _ _ => rfl) fun _ _ => trivial) ?_
  rintro raws _ rfl
  have hids : (raws.map (RawOperation.rename f)).map RawOperation.operationId =
      raws.map RawOperation.operationId := by
    rw [List.map_map]
    exact List.map_congr_left fun raw _ => operationId_rename raw
  have hmethods : (raws.map (RawOperation.rename f)).map (·.method) = raws.map (·.method) := by
    rw [List.map_map]
    rfl
  dsimp only
  rw [hids, hmethods]
  refine (matches_ofExcept_same rfl fun _ _ => trivial).bind ?_
  rintro _ names rfl
  generalize (raws.map RawOperation.operationId).zip _ = named
  have hzip : (raws.map (RawOperation.rename f)).zip named =
      (raws.zip named).map fun r => (r.1.rename f, r.2) := List.zip_map_left
  rw [hzip]
  exact addOperations_matches hf _

end

end Collect

end RouteStubs
