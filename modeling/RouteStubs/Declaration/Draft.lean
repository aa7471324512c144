import RouteStubs.Declaration.Table
import RouteStubs.Document.Basic
import RouteStubs.Name.Fresh
import RouteStubs.Name.Style

/-!
# Collecting declarations

Each schema under the components of a document gets a declaration, named after its entry, and so
does each record that stands inside another shape, named after where it stands. Names are given
before shapes are known, since a shape may refer to a name before that is filled in; a record that
is reached again as the same mapping shares its declaration.

## Main definitions

* `Registry`: the names given so far, `Registry.nameFor` the name of a reference.
* `Draft`: the table while it is being collected.
* `Draft.hoist`: a shape with each record inside it replaced by a handle to a declaration.
* `Draft.addComponents`, `Draft.addInline`, `Draft.addEnvelope`, `Draft.build`: the steps of the
  collection.
-/

namespace RouteStubs

/-! ### Names -/

/-- A name that has been given. -/
structure Given where
  /-- The name. -/
  id : String
  /-- The reference or place it was given for. -/
  key : String
  /-- What asked for it. -/
  origin : Origin

/-- The names given so far. -/
structure Registry where
  /-- Names that no declaration may have. -/
  reserved : List String
  /-- The names given, in order. -/
  given : List Given
  /-- The names by reference or place; a later name for a place replaces an earlier one. -/
  index : List (String × String)

namespace Registry

/-- The names that are no longer free. -/
def taken (r : Registry) : List String := r.reserved ++ r.given.map (·.id)

/-- Gives a name to a reference or place: the base in the style of declarations, with a number if
it is taken. -/
def reserve (key base : String) (origin : Origin) : Step Registry String := do
  let name ← Step.ofExcept (Name.typeStyle base "Model")
  let r ← get
  let id := Name.fresh name r.taken
  let entry : Given := ⟨id, key, origin⟩
  set { r with given := r.given ++ [entry], index := Keyed.put r.index key id }
  pure id

/-- The segments that the references to components start with. -/
def componentRoot : String := "#/components/schemas/"

/-- The reference to a component. -/
def componentRef (name : String) : String := componentRoot ++ Pointer.escape name

/-- Segments of pointers that describe where a schema stands and not what it is. -/
def structural : List String :=
  ["components", "schemas", "definitions", "$defs", "properties", "items", "allOf", "oneOf",
   "anyOf", "additionalProperties"]

/-- A base for the name of what a pointer leads to: its segments in the style of declarations,
those aside that say where a schema stands. Each has to have something nameable. -/
def pointerBase (ref : String) : Except Fault String := do
  match (← Pointer.segments ref).filter (!structural.contains ·) with
  | [] => pure "Model"
  | several => return String.join (← several.mapM fun s => Name.typeStyle s "")

/-- The name of the component that a reference leads to, if it leads to one. -/
def componentName? (ref : String) : Option String :=
  if componentRoot.toList.isPrefixOf ref.toList then
    let tail := ref.toList.drop componentRoot.length
    if tail.isEmpty || tail.contains '/' then none
    else some (String.ofList (Pointer.unescapeChars tail))
  else none

/-- The name of a reference, which is given when it is first asked for. -/
def nameFor : Namer Registry := fun ref => do
  match (← get).index.lookup ref with
  | some id => pure id
  | none =>
    let base ← Step.ofExcept (match componentName? ref with
      | some name => .ok name
      | none => pointerBase ref)
    reserve ref base .schema

end Registry

/-! ### Declarations -/

/-- The table while it is being collected. -/
structure Draft where
  /-- The walk through the schemas, and the names. -/
  progress : Progress Registry
  /-- The shapes that are filled in, by name. -/
  nodes : List (String × Shape)
  /-- The descriptions, by name. -/
  descriptions : List (String × String)
  /-- The declarations of mappings. -/
  bySource : List (Source × String)

namespace Draft

/-- A draft for a document, without declarations. -/
def start (document : Value) (reserved : List String) : Draft :=
  ⟨Progress.start ⟨reserved, [], []⟩ document, [], [], []⟩

/-- The names given so far. -/
def registry (d : Draft) : Registry := d.progress.names

/-- The document. -/
def document (d : Draft) : Value := d.progress.resolver.document

/-- A step of the walk through the schemas. -/
def onProgress {α : Type} (step : Step (Progress Registry) α) : Step Draft α :=
  Step.within Draft.progress (fun p d => { d with progress := p }) step

/-- A step on the names. -/
def onRegistry {α : Type} (step : Step Registry α) : Step Draft α :=
  onProgress (Progress.onNames step)

/-- A step of the resolver. -/
def onResolver {α : Type} (step : Step Resolver α) : Step Draft α :=
  onProgress (Progress.onResolver step)

/-- Fills in the shape of a name. -/
def fill (id : String) (node : Shape) (d : Draft) : Draft :=
  { d with nodes := Keyed.put d.nodes id node }

/-- Sets the description of a name. -/
def describe (id description : String) (d : Draft) : Draft :=
  { d with descriptions := Keyed.put d.descriptions id description }

/-- Makes a name the declaration of a mapping, unless the mapping has one. -/
def claim (source : Option Source) (id : String) (d : Draft) : Draft :=
  match source with
  | none => d
  | some s => if (d.bySource.lookup s).isSome then d
    else { d with bySource := d.bySource ++ [(s, id)] }

/-- The declaration of a mapping. -/
def ofSource? (d : Draft) (source : Option Source) : Option String :=
  source.bind fun s => d.bySource.lookup s

/-! ### Hoisting -/

/-- What names a variant of a union: its tag, if it is a record with one, or else its number. A tag
without anything nameable is refused. -/
def variantSuffix (definitions : Definitions) (discriminator : Option String) (variant : Shape)
    (index : Nat) : Except Fault String :=
  let numbered := "Option" ++ toString (index + 1)
  match discriminator, variant with
  | some d, .record fields _ _ _ =>
    if d == "" then .ok numbered
    else match definitions.tag? d fields with
      | some tag => Name.typeStyle tag.display ""
      | none => .ok numbered
  | _, _ => .ok numbered

/-- Places a shape that stands inside another one. A record with fields gets a declaration of its
own, or shares that of the same mapping, and a handle takes its place; `members` places what the
shape is made of. -/
def place (node : Shape) (name key : String)
    (members : (name key : String) → Step Draft Shape) : Step Draft Shape :=
  match node with
  | .record (_ :: _) _ description source => do
    match (← get).ofSource? source with
    | some id => pure (.handle id)
    | none =>
      let id ← onRegistry (Registry.reserve key name .inline)
      modify fun d => (d.claim source id).describe id description
      let filled ← members id key
      modify (fill id filled)
      pure (.handle id)
  | _ => members name key

mutual

/-- The shape with what it is made of placed. -/
def hoistMembers : Shape → (name key : String) → Step Draft Shape
  | .record fields trailer description source, name, key => do
    let fields ← hoistFields fields name key
    let trailer ← hoistTrailer trailer name key
    pure (.record fields trailer description source)
  | .array element, name, key =>
    Shape.array <$> place element (name ++ "Item") (key ++ "/items") (hoistMembers element)
  | .union variants discriminator, name, key => do
    let d ← Step.ofExcept (Canon.settled variants discriminator (← get).progress)
    let variants ← hoistVariants d 0 variants name key
    pure (.union variants d)
  | .primitive kind format, _, _ => pure (.primitive kind format)
  | .enum values, _, _ => pure (.enum values)
  | .handle target, _, _ => pure (.handle target)
  | .unknown, _, _ => pure .unknown

/-- The fields of a record, placed. -/
def hoistFields : List (Field Shape) → (name key : String) → Step Draft (List (Field Shape))
  | [], _, _ => pure []
  | ⟨field, node, required, description⟩ :: rest, name, key => do
    let word ← Step.ofExcept (Name.typeStyle field "Field")
    let placed ← place node (name ++ word) (key ++ "/properties/" ++ field) (hoistMembers node)
    let others ← hoistFields rest name key
    pure (⟨field, placed, required, description⟩ :: others)

/-- The trailer of a record, placed. -/
def hoistTrailer : Option Shape → (name key : String) → Step Draft (Option Shape)
  | none, _, _ => pure none
  | some node, name, key =>
    some <$> place node (name ++ "Value") (key ++ "/additionalProperties") (hoistMembers node)

/-- The variants of a union, placed. -/
def hoistVariants (discriminator : Option String) (index : Nat) :
    List Shape → (name key : String) → Step Draft (List Shape)
  | [], _, _ => pure []
  | node :: rest, name, key => do
    let definitions := (← get).progress.definitions
    let suffix ← Step.ofExcept (variantSuffix definitions discriminator node index)
    let placed ← place node (name ++ suffix) (key ++ "/oneOf/" ++ toString index)
      (hoistMembers node)
    let others ← hoistVariants discriminator (index + 1) rest name key
    pure (placed :: others)

end

/-- The shape with each record in it, itself included, replaced by a handle to a declaration. -/
def hoist (node : Shape) (name key : String) : Step Draft Shape :=
  place node name key (hoistMembers node)

/-! ### Steps of the collection -/

/-- Fills in the names among the given ones whose shapes are known and not filled in. -/
def fillPending : List Given → Step Draft Unit
  | [] => pure ()
  | g :: rest => do
    let d ← get
    match d.nodes.lookup g.id, d.progress.definitions.find? g.id with
    | none, some definition => do
      let node ← hoistMembers definition g.id g.key
      modify (fill g.id node)
      match definition with
      | .record _ _ description _ =>
        modify fun d =>
          if ((d.descriptions.lookup g.id).getD "") == "" then d.describe g.id description else d
      | _ => pure ()
      fillPending rest
    | _, _ => fillPending rest

/-- Fills in all names whose shapes are known. The names given on the way are filled in where they
are given. -/
def fillAll : Step Draft Unit := do
  fillPending (← get).registry.given

/-- Gives names to components. -/
def nameComponents : List String → Step Draft Unit
  | [] => pure ()
  | name :: rest => do
    let _ ← onRegistry (Registry.nameFor (Registry.componentRef name))
    nameComponents rest

/-- Finds the shapes of components. -/
def addSchemas : List (Scalar × Value) → Step Draft Unit
  | [] => pure ()
  | (name, raw) :: rest => do
    let ref := Registry.componentRef name.display
    let id := ((← get).registry.index.lookup ref).getD ""
    match raw with
    | .mapping _ entries => do
      let description ← Step.ofExcept (Prose.ofMember entries "description")
      modify (describe id description)
    | _ => pure ()
    let _ ← onProgress (Canon.shapeOf Registry.nameFor "<inline>"
      (.mapping 0 [(.text "$ref", .text ref)]))
    match (← get).progress.definitions.find? id with
    | some (.record _ _ _ source) => modify (claim source id)
    | _ => pure ()
    addSchemas rest

/-- Adds the components of the document. All names are given first, so that they win over those of
records inside other shapes. -/
def addComponents : Step Draft Unit := do
  match ← Step.ofExcept (Document.schemas (← get).document) with
  | .mapping _ entries => do
    nameComponents (entries.map fun e => e.1.display)
    addSchemas entries
    fillAll
  | .list items => do
    nameComponents (items.map Value.display)
    throw (.defect .noMembers)
  | .scalar (.text s) => do
    nameComponents (s.toList.map fun c => String.ofList [c])
    throw (.defect .noMembers)
  | .scalar _ => throw (.defect .wrongKind)

/-- Adds a schema of an operation. A record at its top is declared under the given name. -/
def addInline (schema : Value) (name key : String) : Step Draft Shape := do
  let node ← onProgress (Canon.shapeOf Registry.nameFor name schema)
  let result ← hoist node name key
  fillAll
  pure result

/-- Adds a declaration that no schema of the document gives. -/
def addEnvelope (name : String) (node : Shape) (key description : String) : Step Draft String := do
  let id ← onRegistry (Registry.reserve key name .envelope)
  modify fun d => (d.fill id node).describe id description
  pure id

/-- The finished table. A name whose shape was never found is unknown. -/
def build : Step Draft Declarations := do
  fillAll
  let d ← get
  pure
    { types := d.registry.given.map fun g =>
        { id := g.id
          node := (d.nodes.lookup g.id).getD .unknown
          key := g.key
          origin := g.origin
          description := (d.descriptions.lookup g.id).getD "" }
      index := d.registry.index }

end Draft

end RouteStubs
