import RouteStubs.Value.Basic

/-!
# Shapes

A shape is what a schema says about values, with references and compositions worked out: a
primitive, a record, an array, a union, an enumeration, or a handle to a declared shape.

## Main definitions

* `Kind`, `Field`, `Source`: the parts of shapes.
* `Shape`: the shapes.
* `Shape.same`: equality of shapes, descriptions and sources aside.
* `Shape.isKey`: whether a shape can be looked up.
* `Shape.orNull`: a shape with null added.
-/

namespace RouteStubs

/-- The kinds of primitive values. -/
inductive Kind where
  /-- Text. -/
  | string
  /-- Integers. -/
  | integer
  /-- Numbers. -/
  | number
  /-- Truth values. -/
  | boolean
  /-- The null value. -/
  | null
  /-- A kind that no schema has. -/
  | other (name : String)
  deriving DecidableEq, Repr, Inhabited

/-- The keyword of a kind. -/
def Kind.keyword : Kind → String
  | .string => "string"
  | .integer => "integer"
  | .number => "number"
  | .boolean => "boolean"
  | .null => "null"
  | .other name => name

/-- The kind that a keyword of a schema names. -/
def Kind.ofKeyword? : String → Option Kind
  | "string" => some .string
  | "integer" => some .integer
  | "number" => some .number
  | "boolean" => some .boolean
  | "null" => some .null
  | _ => none

/-- A named part of a record. -/
structure Field (α : Type) where
  /-- The name. -/
  name : String
  /-- What the values of the field are. -/
  node : α
  /-- Whether the field has to be there. -/
  required : Bool
  /-- What the document says about the field. -/
  description : String
  deriving Repr

/-- The mapping that a record was read from. A schema with several types is read once for each of
them, and `form` tells these readings apart. -/
structure Source where
  /-- The identity of the mapping. -/
  origin : Nat
  /-- The positions, in lists of types, of the type it was read with. -/
  form : List Nat
  deriving DecidableEq, Repr

/-- What a schema says about values. -/
inductive Shape where
  /-- Values of one kind, in a format. -/
  | primitive (kind : Kind) (format : Value)
  /-- Records with the given fields, and with more fields if there is a trailer. -/
  | record (fields : List (Field Shape)) (trailer : Option Shape) (description : String)
      (source : Option Source)
  /-- Lists. -/
  | array (element : Shape)
  /-- Values of one of several shapes, which a field may tell apart. -/
  | union (variants : List Shape) (discriminator : Option String)
  /-- One of the given values. -/
  | enum (values : List Scalar)
  /-- Whatever the declaration of this name says. -/
  | handle (target : String)
  /-- Anything. -/
  | unknown
  deriving Repr, Inhabited

namespace Shape

/-- The shape of null. -/
abbrev nullShape : Shape := .primitive .null .null

/-- Item by item equality of two lists of scalars. -/
def sameScalars : List Scalar → List Scalar → Bool
  | [], [] => true
  | a :: as, b :: bs => a.same b && sameScalars as bs
  | _, _ => false

mutual

/-- Equality of shapes. Descriptions and sources do not count, and the values of enumerations are
equal when their numbers are. -/
def same : Shape → Shape → Bool
  | .primitive k f, .primitive l g => k == l && f.same g
  | .record fs t _ _, .record gs u _ _ => sameFields fs gs && sameTrailer t u
  | .array a, .array b => same a b
  | .union vs d, .union ws e => sameVariants vs ws && d == e
  | .enum as, .enum bs => sameScalars as bs
  | .handle a, .handle b => a == b
  | .unknown, .unknown => true
  | _, _ => false

/-- Equality of fields: by name, shape and being required. -/
def sameFields : List (Field Shape) → List (Field Shape) → Bool
  | [], [] => true
  | ⟨a, s, p, _⟩ :: fs, ⟨b, t, q, _⟩ :: gs => a == b && same s t && p == q && sameFields fs gs
  | _, _ => false

/-- Equality of trailers. -/
def sameTrailer : Option Shape → Option Shape → Bool
  | none, none => true
  | some a, some b => same a b
  | _, _ => false

/-- Item by item equality of two lists of shapes. -/
def sameVariants : List Shape → List Shape → Bool
  | [], [] => true
  | a :: as, b :: bs => same a b && sameVariants as bs
  | _, _ => false

end

mutual

/-- Whether a shape can be looked up: no format in it is a list or a mapping. -/
def isKey : Shape → Bool
  | .primitive _ format => format.isKey
  | .record fields trailer _ _ => areFieldKeys fields && isTrailerKey trailer
  | .array element => isKey element
  | .union variants _ => areKeys variants
  | _ => true

/-- Whether all fields can be looked up. -/
def areFieldKeys : List (Field Shape) → Bool
  | [] => true
  | ⟨_, node, _, _⟩ :: rest => isKey node && areFieldKeys rest

/-- Whether a trailer can be looked up. -/
def isTrailerKey : Option Shape → Bool
  | none => true
  | some node => isKey node

/-- Whether all shapes of a list can be looked up. -/
def areKeys : List Shape → Bool
  | [] => true
  | node :: rest => isKey node && areKeys rest

end

/-- Whether a shape is among others. -/
def isAmong (node : Shape) (others : List Shape) : Bool := others.any node.same

/-- The shapes of a list, each at its first place only. -/
def distinct (nodes : List Shape) : List Shape :=
  nodes.foldl (fun kept node => if node.isAmong kept then kept else kept ++ [node]) []

/-- Whether the shape is that of null. -/
def isNull (node : Shape) : Bool := node.same nullShape

/-- The shape with null added, unless it admits null or anything. -/
def orNull (node : Shape) : Shape :=
  match node with
  | .unknown => .unknown
  | .union variants discriminator =>
    if nullShape.isAmong variants then node else .union (variants ++ [nullShape]) discriminator
  | _ => if node.isNull then node else .union [node, nullShape] none

/-- The field of a record with a name. -/
def field? (fields : List (Field Shape)) (name : String) : Option (Field Shape) :=
  fields.find? (·.name == name)

end Shape

end RouteStubs
