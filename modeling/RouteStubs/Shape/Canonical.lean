import RouteStubs.Keyed
import RouteStubs.Prose
import RouteStubs.Reference.Resolver
import RouteStubs.Shape.Basic

/-!
# The shape of a schema

A schema is read by the first of these rules that applies: a reference gives a handle; `allOf`
merges records; `oneOf` and `anyOf` give unions; `enum` and `const` give enumerations; after them
the type decides. What no rule reads is unknown, and `nullable` adds null at the end.

The shape of what a reference leads to is found once and kept under the name that the reference is
given. While it is being found the reference is on the chain of the resolver, so a reference back
to it gives a handle and the walk ends.

## Main definitions

* `Definitions`: the shapes found so far, by name.
* `Progress`: the state of the walk.
* `Shape.discriminator?`: the field that tells the variants of a union apart.
* `Canon.shape`: the shape of a schema, with a bound on the depth of the walk.
* `Canon.shapeOf`: the shape of a schema.
* `Canon.settled`: the discriminator of a union met while its variants were not yet known.
-/

namespace RouteStubs

/-- The shapes found so far, by name, in the order in which they were finished. -/
abbrev Definitions := List (String × Shape)

namespace Definitions

/-- The shape of a name. -/
def find? (definitions : Definitions) (name : String) : Option Shape := definitions.lookup name

/-- Follows handles, no more than `steps` of them. -/
def followIn (find : String → Option Shape) : (steps : Nat) → Shape → Option Shape
  | steps, .handle target =>
    match steps with
    | 0 => none
    | steps + 1 => (find target).bind (followIn find steps)
  | _, node => some node

/-- The shape that is no handle to which a shape leads. There is none while a definition on the way
is not finished, or when handles lead to each other; without repetition there are no more handles
on the way than definitions. -/
def dereference (definitions : Definitions) (node : Shape) : Option Shape :=
  followIn definitions.find? (definitions.length + 1) node

/-- The only value of an enumeration with one value. -/
def singleValue? (definitions : Definitions) (node : Shape) : Option Scalar :=
  match definitions.dereference node with
  | some (.enum [v]) => some v
  | _ => none

/-- The fields of a shape that leads to a record. -/
def fields? (definitions : Definitions) (node : Shape) : Option (List (Field Shape)) :=
  match definitions.dereference node with
  | some (.record fields _ _ _) => some fields
  | _ => none

/-- The value that a record's field of this name always has. -/
def tag? (definitions : Definitions) (name : String) (fields : List (Field Shape)) :
    Option Scalar :=
  (Shape.field? fields name).bind fun f => definitions.singleValue? f.node

end Definitions

/-- Whether no value occurs twice, where values of different kinds are different. -/
def allDistinct : List Scalar → Bool
  | [] => true
  | a :: rest => !rest.any a.sameKind && allDistinct rest

/-- Whether a field tells records apart: each has it with a value of its own. -/
def Definitions.tells (definitions : Definitions) (name : String)
    (records : List (List (Field Shape))) : Bool :=
  match records.mapM (definitions.tag? name) with
  | some tags => allDistinct tags
  | none => false

/-- The field that tells the variants of a union apart, if all are records: the explicit one if it
does, or else the first field of the first variant that does. -/
def Shape.discriminator? (definitions : Definitions) (variants : List Shape) (explicit : Value) :
    Option String :=
  match variants.mapM definitions.fields? with
  | none => none
  | some [] => none
  | some (first :: others) =>
    let given := match explicit with
      | .scalar (.text name) => if name == "" then [] else [name]
      | _ => []
    (given ++ first.map (·.name)).find? fun name => definitions.tells name (first :: others)

/-- The state of the walk; `ν` is what names are given from. -/
structure Progress (ν : Type) where
  /-- What names are given from. -/
  names : ν
  /-- The resolver of references. -/
  resolver : Resolver
  /-- The shapes of references, by name. -/
  definitions : Definitions
  /-- The unions whose discriminator could not be found yet, by their variants, each with its
  explicit discriminator. -/
  deferred : List (List Shape × Value)

/-- Gives a reference the name of its declaration. -/
abbrev Namer (ν : Type) := String → Step ν String

namespace Progress

variable {ν : Type}

/-- The walk through a document before its first step. -/
def start (names : ν) (document : Value) : Progress ν :=
  ⟨names, Resolver.ofDocument document, [], []⟩

/-- A step of the resolver. -/
def onResolver {α : Type} (step : Step Resolver α) : Step (Progress ν) α :=
  Step.within Progress.resolver (fun r p => { p with resolver := r }) step

/-- A step on the names. -/
def onNames {α : Type} (step : Step ν α) : Step (Progress ν) α :=
  Step.within Progress.names (fun n p => { p with names := n }) step

/-- A step during which a reference is on the chain. -/
def visiting {α : Type} (ref : Value) (step : Step (Progress ν) α) : Step (Progress ν) α :=
  Step.between (fun p => { p with resolver := p.resolver.enter ref })
    (fun p => { p with resolver := p.resolver.leave }) step

/-- Records the shape of a name. -/
def define (name : String) (node : Shape) (p : Progress ν) : Progress ν :=
  { p with definitions := Keyed.put p.definitions name node }

/-- Puts a union aside, with its explicit discriminator. -/
def defer (variants : List Shape) (explicit : Value) (p : Progress ν) : Progress ν :=
  if p.deferred.any fun d => Shape.sameVariants d.1 variants then
    { p with deferred := p.deferred.map fun d =>
        if Shape.sameVariants d.1 variants then (d.1, explicit) else d }
  else { p with deferred := p.deferred ++ [(variants, explicit)] }

end Progress

namespace Canon

variable {ν : Type}

/-- What finds the shape of a part of a schema, given a name for it in messages. -/
abbrev Deeper (ν : Type) := (context : String) → Value → Step (Progress ν) Shape

/-- The keys that give a schema a shape. A schema without any of them only says something about
one. -/
def shapeKeys : List String :=
  ["$ref", "allOf", "oneOf", "anyOf", "enum", "const", "type", "properties", "items",
   "additionalProperties"]

/-- Whether a value is a mapping without a shape of its own. -/
def isRemark : Value → Bool
  | .mapping _ entries => !shapeKeys.any (Entries.hasText entries)
  | _ => false

/-! ### References and enumerations -/

/-- The shape of a reference: a handle. What it leads to is defined first, unless it is defined
already or is being defined. -/
def reference (namer : Namer ν) (deeper : Deeper ν) (ref : Value) : Step (Progress ν) Shape := do
  let resolved ← Progress.onResolver (Resolver.resolve ref)
  let target ← Progress.onNames (namer ref.display)
  if ((← get).definitions.find? target).isSome || resolved.cyclic then
    return .handle target
  let node ← Progress.visiting ref (deeper target resolved.node)
  modify (Progress.define target node)
  return .handle target

/-- The scalars among values. -/
def scalarsOf (values : List Value) : List Scalar :=
  values.filterMap fun
    | .scalar s => some s
    | _ => none

/-- The scalars of a list, each at its first place only; scalars of different kinds are
different. -/
def distinctScalars (values : List Scalar) : List Scalar :=
  values.foldl (fun kept v => if kept.any v.sameKind then kept else kept ++ [v]) []

/-- The shape of the values of an enumeration. -/
def enumeration : Value → Shape
  | .list values =>
    match distinctScalars (scalarsOf values) with
    | [] => .unknown
    | several => .enum several
  | _ => .unknown

/-! ### Records -/

/-- The required names of a record, of which each has to be able to be a key. -/
def requiredNames (entries : Entries) : Except Fault (List String) :=
  match entries.text? "required" with
  | some (.list names) =>
    if names.all Value.isKey then
      .ok (names.filterMap fun
        | .scalar (.text s) => some s
        | _ => none)
    else .error (.defect .wrongKind)
  | _ => .ok []

/-- The fields that the properties of a schema give. -/
def fieldsOf (deeper : Deeper ν) (context : String) (required : List String) :
    List (Scalar × Value) → Step (Progress ν) (List (Field Shape))
  | [] => pure []
  | (key, property) :: rest => do
    let name := key.display
    let node ← deeper (context ++ "." ++ name) property
    let description ← Step.ofExcept (match property with
      | .mapping _ entries => Prose.ofMember entries "description"
      | _ => .ok "")
    let others ← fieldsOf deeper context required rest
    pure (⟨name, node, required.contains name, description⟩ :: others)

/-- What a record says about further fields. -/
def trailerOf (deeper : Deeper ν) (context : String) (entries : Entries) :
    Step (Progress ν) (Option Shape) :=
  match entries.text? "additionalProperties" with
  | some (.scalar (.bool true)) => pure (some .unknown)
  | some (.mapping origin more) => some <$> deeper (context ++ ".*") (.mapping origin more)
  | _ => pure none

/-- The record that a schema describes. -/
def recordOf (deeper : Deeper ν) (context : String) (entries : Entries) (source : Option Source) :
    Step (Progress ν) Shape := do
  let required ← Step.ofExcept (requiredNames entries)
  let fields ← match entries.text? "properties" with
    | some (.mapping _ properties) => fieldsOf deeper context required properties
    | _ => pure []
  let trailer ← trailerOf deeper context entries
  let description ← Step.ofExcept (Prose.ofMember entries "description")
  pure (.record fields trailer description source)

/-! ### Compositions -/

/-- A member of a composition. -/
inductive Member where
  /-- A member of the list. -/
  | listed (schema : Value)
  /-- The properties that stand beside the list. -/
  | beside (entries : Entries)

/-- The properties beside the list of members, as one more member. -/
def besideOf (entries : Entries) : Option Entries :=
  match ["properties", "additionalProperties"].filterMap fun key =>
      (entries.text? key).map fun v => (Scalar.text key, v) with
  | [] => none
  | some_ => some some_

/-- The required names of a schema, as they stand. -/
def requiredValues (v : Value) : List Value :=
  match v.member? "required" with
  | some (.list names) => names
  | _ => []

/-- The shape of a member. A null member is refused as a mapping without members, unless properties
stand beside the list. -/
def memberShape (deeper : Deeper ν) (context : String) (lone : Bool) :
    Member → Step (Progress ν) Shape
  | .beside entries => recordOf deeper context entries none
  | .listed schema =>
    match schema with
    | .scalar .null => if lone then throw (.defect .noMembers) else deeper context schema
    | _ => deeper context schema

/-- The fields of a record with those of one more member. A field that is there already keeps its
place, shape and description, and is required if either says so. -/
def mergeFields (context : String) :
    List (Field Shape) → List (Field Shape) → Except Fault (List (Field Shape))
  | merged, [] => .ok merged
  | merged, f :: rest =>
    match Shape.field? merged f.name with
    | none => mergeFields context (merged ++ [f]) rest
    | some existing =>
      if existing.node.same f.node then
        mergeFields context
          (merged.map fun g =>
            if g.name == f.name then { g with required := g.required || f.required } else g) rest
      else .error (.incompatibleMerge context f.name)

/-- The fields and the trailer of the members of a composition, merged one after the other. -/
def mergeMembers (deeper : Deeper ν) (context : String) (lone : Bool) (index : Nat)
    (fields : List (Field Shape)) (trailer : Option Shape) :
    List Member → Step (Progress ν) (List (Field Shape) × Option Shape)
  | [] => pure (fields, trailer)
  | member :: rest => do
    let node ← memberShape deeper context lone member
    match (← get).definitions.dereference node with
    | none => throw (.unsupportedComposition context (.selfReferring index))
    | some (.record more tail _ _) =>
      let merged ← Step.ofExcept (mergeFields context fields more)
      mergeMembers deeper context lone (index + 1) merged (trailer.or tail) rest
    | some _ => throw (.unsupportedComposition context (.notRecord index))

/-- Makes fields required by name. A name has to be able to be a key. -/
def requireFields (fields : List (Field Shape)) (names : List Value) :
    Except Fault (List (Field Shape)) :=
  if names.all Value.isKey then
    .ok (fields.map fun f =>
      if names.any (·.isText f.name) then { f with required := true } else f)
  else .error (.defect .wrongKind)

/-- The shape of a composition. A single member with a shape of its own passes through, unless the
schema or a member without shape requires fields. -/
def composition (deeper : Deeper ν) (context : String) (origin : Nat) (entries : Entries) :
    Value → Step (Progress ν) Shape
  | .list listed => do
    let beside := besideOf entries
    let members := listed.map Member.listed ++ (beside.map Member.beside).toList
    let isShaped : Member → Bool
      | .listed schema => !isRemark schema
      | .beside _ => true
    let shaped := members.filter isShaped
    let required := requiredValues (.mapping origin entries) ++
      (listed.filter isRemark).flatMap requiredValues
    match shaped, required with
    | [.beside only], [] => recordOf deeper context only (some ⟨origin, []⟩)
    | [member], [] => memberShape deeper context beside.isNone member
    | _, _ => do
      let (fields, trailer) ← mergeMembers deeper context beside.isNone 0 [] none shaped
      let fields ← Step.ofExcept (requireFields fields required)
      let description ← Step.ofExcept (Prose.ofMember entries "description")
      pure (.record fields trailer description (some ⟨origin, []⟩))
  | _ => throw (.unsupportedComposition context .membersNotList)

/-! ### Unions -/

/-- The shapes of the members of a union. -/
def memberShapes (deeper : Deeper ν) (context : String) (index : Nat) :
    List Value → Step (Progress ν) (List Shape)
  | [] => pure []
  | member :: rest => do
    let node ← deeper (context ++ "|" ++ toString index) member
    let others ← memberShapes deeper context (index + 1) rest
    pure (node :: others)

/-- The discriminator that a schema names. -/
def explicitDiscriminator (entries : Entries) : Value :=
  ((entries.text? "discriminator").bind (·.member? "propertyName")).getD .null

/-- The union of shapes. When its discriminator cannot be found because a variant is not finished,
the union is put aside. -/
def unionOf (variants : List Shape) (explicit : Value) : Step (Progress ν) Shape := do
  let definitions := (← get).definitions
  let discriminator := Shape.discriminator? definitions variants explicit
  if discriminator.isNone && variants.any fun v => (definitions.dereference v).isNone then
    if !Shape.areKeys variants then throw (.defect .wrongKind)
    modify (Progress.defer variants explicit)
  pure (.union variants discriminator)

/-- The shape of alternatives: the only one, or else their union. -/
def alternatives (deeper : Deeper ν) (context : String) (entries : Entries) :
    Value → Step (Progress ν) Shape
  | .list (first :: others) => do
    let nodes ← memberShapes deeper context 0 (first :: others)
    match Shape.distinct nodes with
    | [only] => pure only
    | several => unionOf several (explicitDiscriminator entries)
  | _ => pure .unknown

/-! ### Types -/

/-- The shape of several types. -/
def ofSeveral (nodes : List Shape) : Shape :=
  match Shape.distinct nodes with
  | [] => .unknown
  | [only] => only
  | several => .union several none

/-- The shape of a schema with one type, or with none, which its other keys then stand for. -/
def ofType (deeper : Deeper ν) (context : String) (entries : Entries) (source : Source)
    (type : Scalar) : Step (Progress ν) Shape :=
  let untyped := type == .null
  if type == .text "array" || (untyped && entries.hasText "items") then
    Shape.array <$> deeper (context ++ "[]") ((entries.text? "items").getD .null)
  else if type == .text "object" || (untyped &&
      (entries.hasText "properties" || entries.hasText "additionalProperties")) then
    recordOf deeper context entries (some source)
  else
    let kind? := match type with
      | .text keyword => Kind.ofKeyword? keyword
      | _ => none
    match kind? with
    | some kind => pure (.primitive kind ((entries.text? "format").getD .null))
    | none => pure .unknown

mutual

/-- The shape of a schema whose type is the given value: a list of types gives the union of what
each gives. -/
def ofTypes (deeper : Deeper ν) (context : String) (entries : Entries) (source : Source) :
    Value → Step (Progress ν) Shape
  | .scalar type => ofType deeper context entries source type
  | .list types => ofSeveral <$> ofEachType deeper context entries source 0 types
  | .mapping _ _ => pure .unknown

/-- The shapes of a schema with each of several types. Read as an object the schema is the mapping
itself, and read otherwise it is a reading of its own. -/
def ofEachType (deeper : Deeper ν) (context : String) (entries : Entries) (source : Source)
    (index : Nat) : List Value → Step (Progress ν) (List Shape)
  | [] => pure []
  | type :: rest => do
    let reading : Source :=
      if type.isText "object" then source else ⟨source.origin, source.form ++ [index]⟩
    let node ← ofTypes deeper context entries reading type
    let others ← ofEachType deeper context entries source (index + 1) rest
    pure (node :: others)

end

/-! ### Schemas -/

/-- The shape of a mapping, `nullable` aside. -/
def ofEntries (namer : Namer ν) (deeper : Deeper ν) (context : String) (origin : Nat)
    (entries : Entries) : Step (Progress ν) Shape :=
  match entries.text? "$ref" with
  | some ref => reference namer deeper ref
  | none =>
  match entries.text? "allOf" with
  | some members => composition deeper context origin entries members
  | none =>
  match (entries.text? "oneOf").or (entries.text? "anyOf") with
  | some members => alternatives deeper context entries members
  | none =>
  match entries.text? "enum" with
  | some values => pure (enumeration values)
  | none =>
  match entries.text? "const" with
  | some value => pure (enumeration (.list [value]))
  | none => ofTypes deeper context entries ⟨origin, []⟩ ((entries.text? "type").getD .null)

/-- The shape of a schema, no more than `steps` schemas deep. -/
def shape (namer : Namer ν) : (steps : Nat) → Deeper ν
  | 0, _, _ => throw (.defect .outOfSteps)
  | steps + 1, context, schema =>
    match schema with
    | .mapping origin entries => do
      let node ← ofEntries namer (shape namer steps) context origin entries
      match Entries.text? entries "nullable" with
      | some (.scalar (.bool true)) => pure node.orNull
      | _ => pure node
    | _ => pure .unknown

/-- A bound on the depth of the walk: between two references it goes down into a schema, and no
reference is followed while it is on the chain. -/
def bound (document schema : Value) : Nat :=
  (document.references.length + schema.references.length + 1) *
    (max document.depth schema.depth + 1) + 1

/-- The shape of a schema. -/
def shapeOf (namer : Namer ν) (context : String) (schema : Value) : Step (Progress ν) Shape := do
  shape namer (bound (← get).resolver.document schema) context schema

/-- The discriminator of a union, which is looked for again if the union was put aside. -/
def settled (variants : List Shape) (discriminator : Option String) (p : Progress ν) :
    Except Fault (Option String) :=
  match discriminator with
  | some d => .ok (some d)
  | none =>
    if !Shape.areKeys variants then .error (.defect .wrongKind)
    else match p.deferred.find? fun d => Shape.sameVariants d.1 variants with
      | some (_, explicit) => .ok (Shape.discriminator? p.definitions variants explicit)
      | none => .ok none

end Canon

end RouteStubs
