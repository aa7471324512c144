import RouteStubs.Declaration.Draft
import RouteStubs.Name.Operation
import RouteStubs.Operation.Basic
import RouteStubs.Operation.HandlerName

/-!
# Collecting operations

The operations under the paths of a document, in its order and, on one path, in the order of the
methods below. The shapes of parameters, bodies and responses are added to the declarations, and so
are two records for each operation: its parameters and its responses.

## Main definitions

* `Collect.mediaType`: the media type that stands for a body.
* `Collect.effectiveParameters`: the parameters of an operation, those of its path included.
* `Collect.securityLabels`: how a request is authorised.
* `Collect.operations`: all operations of a document.
-/

namespace RouteStubs.Collect

/-- The methods, in the order in which operations on one path are listed. -/
def methods : List String :=
  ["get", "put", "post", "delete", "options", "head", "patch", "trace"]

/-- The media type that stands for a body: JSON, or the first with JSON in its name, or the first.
Without media types it is null. -/
def mediaType : Value → Value
  | .mapping _ entries =>
    match entries with
    | [] => .null
    | (_, first) :: _ =>
      match Entries.text? entries "application/json" with
      | some media => media
      | none =>
        match entries.find? fun e => Text.occurs "json".toList e.1.display.toList with
        | some (_, media) => media
        | none => first
  | _ => .null

/-- The member of a mapping at a key; null if it is not there. -/
def memberOrNull (v : Value) (key : String) : Value := (v.member? key).getD .null

/-- The schema of a media type, which has to be a mapping. -/
def schemaOf : Value → Except Fault Value
  | .mapping _ entries => .ok ((Entries.text? entries "schema").getD .null)
  | _ => .error (.defect .noMembers)

/-- What a value holds when it is gone through: the items of a list, the keys of a mapping, the
characters of a text. -/
def itemsOf : Value → Except Fault (List Value)
  | .list items => .ok items
  | .mapping _ entries => .ok (entries.map fun e => .scalar e.1)
  | .scalar (.text s) => .ok (s.toList.map fun c => .text (String.ofList [c]))
  | .scalar _ => .error (.defect .wrongKind)

/-- What an optional value holds when it is gone through: nothing if it does not count as given. -/
def itemsOrNone (v : Value) : Except Fault (List Value) :=
  if v.isTrue then itemsOf v else .ok []

/-! ### Parameters -/

/-- A parameter as the document writes it. -/
structure RawParameter where
  /-- The name. -/
  name : String
  /-- Where in a request it stands. -/
  location : Scalar
  /-- The mapping that describes it. -/
  entries : Entries

/-- Puts a parameter among others. One with the same name and location is replaced at its place. -/
def putParameter : List RawParameter → RawParameter → List RawParameter
  | [], p => [p]
  | q :: rest, p =>
    if q.name == p.name && q.location.same p.location then p :: rest
    else q :: putParameter rest p

/-- The parameter that a mapping describes. Its location is `query` if it says nothing; a mapping
without a name describes none. -/
def rawParameter? (entries : Entries) : Except Fault (Option RawParameter) :=
  match entries.text? "name" with
  | none => .ok none
  | some name =>
    match (entries.text? "in").getD (.text "query") with
    | .scalar location => .ok (some ⟨name.display, location, entries⟩)
    | _ => .error (.defect .wrongKind)

/-- The parameters that values describe, put among others. -/
def mergeParameters (merged : List RawParameter) : List Value → Step Draft (List RawParameter)
  | [] => pure merged
  | raw :: rest => do
    match ← Draft.onResolver (Resolver.resolveNode raw) with
    | .mapping _ entries =>
      match ← Step.ofExcept (rawParameter? entries) with
      | some p => mergeParameters (putParameter merged p) rest
      | none => mergeParameters merged rest
    | _ => mergeParameters merged rest

/-- The parameters of an operation: those of its path, and its own, which replace them. -/
def effectiveParameters (pathItem operation : Entries) : Step Draft (List RawParameter) := do
  let shared ← Step.ofExcept (itemsOrNone ((pathItem.text? "parameters").getD .null))
  let own ← Step.ofExcept (itemsOrNone ((operation.text? "parameters").getD .null))
  mergeParameters [] (shared ++ own)

/-- The schema of a parameter, which may stand in its content. -/
def parameterSchema (entries : Entries) : Value :=
  match (entries.text? "schema").getD .null with
  | .scalar .null => memberOrNull (mediaType ((entries.text? "content").getD .null)) "schema"
  | schema => schema

/-- Whether an entry counts as given. -/
def isGiven (entries : Entries) (key : String) : Bool :=
  ((entries.text? key).map Value.isTrue).getD false

/-- Adds the shapes of parameters. -/
def addParameters (typeName key : String) : List RawParameter → Step Draft (List Parameter)
  | [] => pure []
  | p :: rest => do
    let word ← Step.ofExcept (Name.typeStyle p.name "Param")
    let node ← Draft.addInline (parameterSchema p.entries) (typeName ++ word)
      (key ++ "/parameters/" ++ p.location.display ++ "/" ++ p.name)
    let description ← Step.ofExcept (Prose.ofMember p.entries "description")
    let others ← addParameters typeName key rest
    let required := p.location == .text "path" || isGiven p.entries "required"
    pure (⟨p.name, p.location, required, node, description⟩ :: others)

/-! ### Bodies -/

/-- Adds the shape of the body of a request, and says whether every request has one. -/
def addRequestBody (operation : Entries) (typeName key : String) :
    Step Draft (Option Shape × Bool) := do
  match ← Draft.onResolver (Resolver.resolveNode ((operation.text? "requestBody").getD .null)) with
  | .mapping _ body =>
    match mediaType ((Entries.text? body "content").getD .null) with
    | .scalar .null => pure (none, false)
    | media => do
      let schema ← Step.ofExcept (schemaOf media)
      let node ← Draft.addInline schema (typeName ++ "Request") (key ++ "/requestBody")
      pure (some node, isGiven body "required")
  | _ => pure (none, false)

/-- Adds the shapes of the bodies of responses. -/
def addResponses (typeName key : String) :
    List (Scalar × Value) → Step Draft (List (String × Option Shape))
  | [] => pure []
  | (code, raw) :: rest => do
    let status := code.display
    let response ← Draft.onResolver (Resolver.resolveNode raw)
    let node ← match mediaType (memberOrNull response "content") with
      | .scalar .null => pure none
      | media => do
        let schema ← Step.ofExcept (schemaOf media)
        let word ← Step.ofExcept
          (if status == "default" then .ok "Default" else Name.typeStyle status "Model")
        some <$> Draft.addInline schema (typeName ++ word ++ "Response")
          (key ++ "/responses/" ++ status)
    let others ← addResponses typeName key rest
    pure ((status, node) :: others)

/-- The responses of an operation, by status. -/
def responsesOf (operation : Entries) : Except Fault (List (Scalar × Value)) :=
  match operation.text? "responses" with
  | none => .ok []
  | some (.mapping _ entries) => .ok entries
  | some other => if other.isTrue then .error (.defect .noMembers) else .ok []

/-! ### Security -/

/-- The label of a security scheme: its name and, if it has one, its type with a detail, which has
to be a text. -/
def schemeLabel (name : String) : Value → Except Fault String
  | .mapping _ entries =>
    if isGiven entries "type" then
      let type := ((Entries.text? entries "type").getD .null).display
      let detail :=
        if isGiven entries "scheme" then (Entries.text? entries "scheme").getD .null
        else if isGiven entries "in" then (Entries.text? entries "in").getD .null
        else .null
      match detail with
      | .scalar .null => .ok (name ++ " (" ++ type ++ ")")
      | .scalar (.text d) => .ok (name ++ " (" ++ type ++ " " ++ d ++ ")")
      | _ => .error (.defect .wrongKind)
    else .ok name
  | _ => .ok name

/-- The security scheme of a name. The schemes have to be a mapping. -/
def schemeNamed (schemes : Value) (name : Scalar) : Except Fault Value :=
  match schemes with
  | .mapping _ entries => .ok ((Entries.find? entries name).getD .null)
  | _ => .error (.defect .noMembers)

/-- The labels of named schemes, each that is new put after the others. -/
def addLabels (schemes : Value) (labels : List String) : List Scalar → Step Draft (List String)
  | [] => pure labels
  | name :: rest => do
    let raw ← Step.ofExcept (schemeNamed schemes name)
    let scheme ← Draft.onResolver (Resolver.resolveNode raw)
    let label ← Step.ofExcept (schemeLabel name.display scheme)
    addLabels schemes (if labels.contains label then labels else labels ++ [label]) rest

/-- How a request is authorised: by what the operation requires or, if it says nothing, by what the
document requires. -/
def securityLabels (operation : Entries) : Step Draft (List String) := do
  let document := (← get).document
  let requirements := match operation.text? "security" with
    | some own => own
    | none => memberOrNull document "security"
  let schemes ← Step.ofExcept (Document.securitySchemes document)
  let items ← Step.ofExcept (itemsOrNone requirements)
  let names := items.flatMap fun
    | .mapping _ entries => entries.map Prod.fst
    | _ => []
  addLabels schemes [] names

/-! ### Operations -/

/-- An operation as the document writes it. -/
structure RawOperation where
  /-- The path template. -/
  path : String
  /-- The mapping of the path. -/
  pathItem : Entries
  /-- The method. -/
  method : String
  /-- The mapping of the operation. -/
  entries : Entries

/-- The operations of one path. -/
def operationsOfPath (path : String) : Value → List RawOperation
  | .mapping _ pathItem =>
    methods.filterMap fun method =>
      match Entries.text? pathItem method with
      | some (.mapping _ entries) => some ⟨path, pathItem, method, entries⟩
      | _ => none
  | _ => []

/-- The operations under the paths of a document, which have to be a mapping. -/
def rawOperations : Value → Except Fault (List RawOperation)
  | .mapping _ paths => .ok (paths.flatMap fun (path, item) => operationsOfPath path.display item)
  | _ => .error (.defect .noMembers)

/-- The name of an operation: the one it has, or the one that its method and path suggest. -/
def RawOperation.operationId (raw : RawOperation) : String :=
  match (raw.entries.text? "operationId").filter Value.isTrue with
  | some id => id.display
  | none => Name.ofOperation raw.method raw.path

/-- The parameters of an operation as a record: of several with one name the first is kept. -/
def parametersRecord (parameters : List Parameter) : Shape :=
  let fields := parameters.foldl (fun kept p =>
    if kept.any fun f => f.name == p.name then kept
    else kept ++ [(⟨p.name, p.node, p.required, p.description⟩ : Field Shape)]) []
  .record fields none "" none

/-- The responses of an operation as a record, in which no body is null. -/
def responsesRecord (responses : List (String × Option Shape)) : Shape :=
  .record (responses.map fun (status, node) => ⟨status, node.getD Shape.nullShape, false, ""⟩)
    none "" none

/-- Adds a declaration on a condition. -/
def addIf (condition : Bool) (add : Step Draft String) : Step Draft (Option String) :=
  if condition then some <$> add else pure none

/-- Adds an operation. -/
def addOperation (raw : RawOperation) (operationId handler : String) : Step Draft Operation := do
  let typeName ← Step.ofExcept (Name.typeStyle operationId "Operation")
  let key := "paths." ++ raw.path ++ "." ++ raw.method
  let route := Text.upperCase raw.method ++ " " ++ raw.path
  let rawParameters ← effectiveParameters raw.pathItem raw.entries
  let parameters ← addParameters typeName key rawParameters
  let (body, bodyRequired) ← addRequestBody raw.entries typeName key
  let rawResponses ← Step.ofExcept (responsesOf raw.entries)
  let responses ← addResponses typeName key rawResponses
  let parametersType ← addIf (!parameters.isEmpty) <|
    Draft.addEnvelope (typeName ++ "Parameters") (parametersRecord parameters)
      (key ++ "/parameters") ("Parameters of " ++ route ++ ".")
  let responsesType ← addIf (!responses.isEmpty) <|
    Draft.addEnvelope (typeName ++ "Responses") (responsesRecord responses)
      (key ++ "/responses") ("Response bodies of " ++ route ++ " by status code.")
  let tags ← Step.ofExcept (itemsOrNone ((raw.entries.text? "tags").getD .null))
  let summary ← Step.ofExcept (Prose.ofMember raw.entries "summary")
  let description ← Step.ofExcept (Prose.ofMember raw.entries "description")
  let security ← securityLabels raw.entries
  pure
    { operationId := operationId
      method := raw.method
      path := raw.path
      parameters := parameters
      requestBody := body
      requestBodyRequired := bodyRequired
      responses := responses
      tags := tags.map Value.display
      summary := summary
      description := description
      deprecated := isGiven raw.entries "deprecated"
      security := security
      handler := handler
      parametersType := parametersType
      responsesType := responsesType }

/-- Adds operations, each with its name and its handler. -/
def addOperations : List (RawOperation × String × String) → Step Draft (List Operation)
  | [] => pure []
  | (raw, operationId, handler) :: rest => do
    let op ← addOperation raw operationId handler
    let others ← addOperations rest
    pure (op :: others)

/-- Adds all operations of the document. -/
def operations : Step Draft (List Operation) := do
  let paths ← Step.ofExcept (Document.paths (← get).document)
  let raws ← Step.ofExcept (rawOperations paths)
  let ids := raws.map RawOperation.operationId
  let names ← Step.ofExcept (ids.mapM fun id => Name.handlerStyle id "handler")
  let handlers := HandlerName.distinct (names.zip (raws.map (·.method)))
  addOperations (raws.zip (ids.zip handlers))

end RouteStubs.Collect
