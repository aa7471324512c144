import RouteStubs.Proofs.Datum
import RouteStubs.Shape.Canonical

/-!
# Values that satisfy a schema

A value satisfies a schema when all keys of the schema that are read hold of it, whichever rule the
walk reads the schema by. A reference is followed in the document. A schema without a type is one of
lists if it has items, and otherwise one of records if it has properties. References may lead in a
circle, so a value satisfies a schema when it does within some depth.

The walk takes less than this from two kinds of schema. An enumeration with a scalar keeps its scalars
only, and a composition all of whose listed members are without a shape is one of records.
`Canon.Kept` says of a value that it is of what is kept.

## Main definitions

* `Canon.TypesHold`: the type, or one of the types, holds of the value.
* `Canon.EntriesHold`, `Canon.Holds`: the keys of a mapping hold of the value.
* `Canon.Satisfies`: the value satisfies the schema.
* `Canon.Kept`: what the walk keeps of enumerations and of compositions.
-/

namespace RouteStubs.Canon

/-! ### Types -/

/-- The value has the type of this name. Any value has a type that is not known. -/
structure HasType (type : String) (v : Value) : Prop where
  string : type = "string" → Kind.string.admits v = true
  integer : type = "integer" → Kind.integer.admits v = true
  number : type = "number" → Kind.number.admits v = true
  boolean : type = "boolean" → Kind.boolean.admits v = true
  null : type = "null" → Kind.null.admits v = true
  array : type = "array" → v.isList = true
  object : type = "object" → v.isMapping = true

/-- The value has the type that the other keys of a schema stand for. -/
def HasImpliedType (entries : Entries) (v : Value) : Prop :=
  if entries.hasText "items" then v.isList = true
  else if entries.hasText "properties" || entries.hasText "additionalProperties" then
    v.isMapping = true
  else True

mutual

/-- The value has the type, or one of the types. -/
def TypesHold (entries : Entries) (v : Value) : Value → Prop
  | .scalar .null => HasImpliedType entries v
  | .scalar (.text type) => HasType type v
  | .scalar _ => True
  | .list types => SomeTypeHolds entries v types
  | .mapping _ _ => True

/-- The value has one of the types. -/
def SomeTypeHolds (entries : Entries) (v : Value) : List Value → Prop
  | [] => False
  | type :: rest => TypesHold entries v type ∨ SomeTypeHolds entries v rest

end

/-! ### Schemas -/

/-- The value has the entries that the mapping requires, if it is a mapping. -/
def HasRequired (entries : Entries) (v : Value) : Prop :=
  ∀ names, entries.text? "required" = some (.list names) → v.isMapping = true →
    ∀ name, .text name ∈ names → ∃ w, v.HasEntry name w

/-- The keys about entries hold of the value, where `sub` says which values satisfy the schemas
inside. -/
structure EntriesHold (sub : Value → Value → Prop) (entries : Entries) (v : Value) : Prop where
  properties : ∀ origin properties, entries.text? "properties" = some (.mapping origin properties) →
    ∀ p ∈ properties, ∀ w, v.HasEntry p.1.display w → sub p.2 w
  required : HasRequired entries v
  additional : ∀ schema, entries.text? "additionalProperties" = some schema →
    ∀ name w, v.HasEntry name w →
      (∀ origin properties, entries.text? "properties" = some (.mapping origin properties) →
        ∀ p ∈ properties, p.1.display ≠ name) → sub schema w

/-- All keys of the mapping hold of the value, where `sub` says which values satisfy the schemas
inside. -/
structure Holds (document : Value) (sub : Value → Value → Prop) (entries : Entries) (v : Value) :
    Prop extends EntriesHold sub entries v where
  reference : ∀ ref, entries.text? "$ref" = some ref →
    ∃ r found, ref = .text r ∧ Resolver.target document r = .ok found ∧ sub found v
  all : ∀ members, entries.text? "allOf" = some (.list members) → ∀ member ∈ members, sub member v
  one : ∀ members, entries.text? "oneOf" = some (.list members) → ∃ member ∈ members, sub member v
  any : ∀ members, entries.text? "anyOf" = some (.list members) → ∃ member ∈ members, sub member v
  enum : ∀ values, entries.text? "enum" = some (.list values) → ∃ w ∈ values, w.Equals v
  const : ∀ w, entries.text? "const" = some w → w.Equals v
  type : TypesHold entries v ((entries.text? "type").getD .null)
  items : ∀ schema, entries.text? "items" = some schema → ∀ w, v.HasItem w → sub schema w

/-- The value satisfies the schema within a depth. Of the mappings that are met on the way `also`
holds, and null satisfies what is nullable. -/
def SatisfiesWithin (also : Entries → Value → Prop) (document : Value) :
    (depth : Nat) → Value → Value → Prop
  | 0, _, _ => False
  | depth + 1, .mapping _ entries, v =>
    (Entries.text? entries "nullable" = some (.bool true) ∧ v = .null) ∨
      (Holds document (SatisfiesWithin also document depth) entries v ∧ also entries v)
  | _ + 1, .list _, _ => True
  | _ + 1, .scalar _, _ => True

/-- The value satisfies the schema, and of the mappings that are met on the way `also` holds. -/
def Satisfies (also : Entries → Value → Prop) (document schema v : Value) : Prop :=
  ∃ depth, SatisfiesWithin also document depth schema v

/-- The value is a scalar if the enumeration of the mapping has one, and a record if no listed member
of its composition has a shape. -/
structure Kept (entries : Entries) (v : Value) : Prop where
  enum : ∀ values, entries.text? "enum" = some (.list values) → (∃ s, .scalar s ∈ values) →
    ∃ s, v = .scalar s
  all : ∀ members, entries.text? "allOf" = some (.list members) →
    (∀ member ∈ members, isRemark member = true) → v.isMapping = true

end RouteStubs.Canon
