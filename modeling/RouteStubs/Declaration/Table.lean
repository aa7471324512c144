import RouteStubs.Shape.Canonical

/-!
# The table of declarations

The declared shapes of a document in the order in which their names were given, and the index by
which a reference or a place in the document finds its declaration.

## Main definitions

* `Origin`, `Declaration`: a declared shape and where it comes from.
* `Declarations`: the table.
* `Declarations.dereference`: what a shape stands for.
-/

namespace RouteStubs

/-- Where a declared shape comes from. -/
inductive Origin where
  /-- A schema of the document. -/
  | schema
  /-- A record inside a schema. -/
  | inline
  /-- The parameters or the responses of an operation. -/
  | envelope
  /-- A table made by hand says so. -/
  | other (name : String)
  deriving DecidableEq, Repr

/-- The word for an origin. -/
def Origin.word : Origin → String
  | .schema => "schema"
  | .inline => "inline"
  | .envelope => "envelope"
  | .other name => name

/-- A declared shape. -/
structure Declaration where
  /-- The name. -/
  id : String
  /-- The shape. -/
  node : Shape
  /-- The reference or the place in the document that it belongs to. -/
  key : String
  /-- Where it comes from. -/
  origin : Origin
  /-- What the document says about it. -/
  description : String

/-- The declared shapes of a document. -/
structure Declarations where
  /-- The declarations, in the order of their names. -/
  types : List Declaration
  /-- The names by reference or place. -/
  index : List (String × String)

namespace Declarations

/-- The declaration of a name; of several the last. -/
def find? (table : Declarations) (id : String) : Option Declaration :=
  table.types.reverse.find? (·.id == id)

/-- The name of a reference or a place. -/
def idFor? (table : Declarations) (key : String) : Option String := table.index.lookup key

/-- The shape that is no handle to which a shape leads; none if handles lead to each other or
nowhere. -/
def dereference (table : Declarations) (node : Shape) : Option Shape :=
  Definitions.followIn (fun id => (table.find? id).map (·.node)) (table.types.length + 1) node

end Declarations

end RouteStubs
