import RouteStubs.Declaration.Table
import RouteStubs.Name.Fresh
import RouteStubs.Render.Artifact
import RouteStubs.Render.TypeText
import RouteStubs.Text.Identifier

/-!
# The module of declarations

Records become classes, or a call where a field has no identifier for a name; every other shape
becomes an alias. A union that a field tells apart comes with the name of that field and a table
from its values to the variants.

## Main definitions

* `TypesModule.Item`: a declaration as it is written.
* `TypesModule.itemOf`: the way a declaration is written.
* `TypesModule.Item.lines`: its lines.
* `TypesModule.render`: the module.
-/

namespace RouteStubs.TypesModule

open Text

/-- The names that the module imports, which no declaration may have. -/
def reservedNames : List String :=
  ["Any", "Final", "Literal", "NotRequired", "TypeAlias", "TypedDict", "Union", "annotations"]

/-- A field as it is written. -/
structure FieldText where
  /-- The name. -/
  name : String
  /-- The type expression. -/
  type : String
  /-- The comment above it, if it is not empty. -/
  comment : String

/-- A declaration as it is written. -/
inductive Item where
  /-- A record as a class. -/
  | classRecord (name : String) (fields : List FieldText) (doc : List String)
  /-- A record as a call. -/
  | callRecord (name : String) (fields : List FieldText) (doc : List String)
  /-- A union with a table from the values of a field to the variants. -/
  | tagged (name type : String) (constant : String) (discriminator : String)
      (variants : List (Scalar × String)) (doc : List String)
  /-- An alias. -/
  | alias (name type : String) (doc : List String)

/-- The documentation of a declaration. -/
def docLines (d : Declaration) : List String :=
  let about := if d.description == "" then [] else [Prose.docstring d.description]
  let source := if d.origin == .schema then ["Source: " ++ Prose.docstring d.key] else []
  let more := match d.node with
    | .record (_ :: _) (some trailer) _ _ =>
      ["Additional properties: " ++ trailer.typeText false ++ "."]
    | _ => []
  about ++ source ++ more

/-- Whether a name can be that of a field of a class. A leading double underscore would be
changed there. -/
def isFieldName (name : String) : Bool :=
  isIdentifier name.toList && !keywords.contains name && !(['_', '_'].isPrefixOf name.toList)

/-- A field as it is written. -/
def fieldText (quoteRefs : Bool) (f : Field Shape) : FieldText :=
  let type := f.node.typeText quoteRefs
  { name := f.name
    type := if f.required then type else "NotRequired[" ++ type ++ "]"
    comment := Prose.clean f.description }

/-- The value by which a field tells a variant, and the declaration of the variant. -/
def tagOf (table : Declarations) (discriminator : String) (variant : Shape) :
    Option (Scalar × String) :=
  match variant with
  | .handle target =>
    match table.dereference variant with
    | some (.record fields _ _ _) =>
      match (Shape.field? fields discriminator).bind fun f => table.dereference f.node with
      | some (.enum [value]) => some (value, target)
      | _ => none
    | _ => none
  | _ => none

/-- A name in capitals for the constants of a declaration, outside `taken`. -/
def constantFor (id : String) (taken : List String) : String :=
  Name.fresh (upperCase (Name.snake id)) taken

/-- The way a declaration is written, and the names of constants that are taken after it. -/
def itemOf (table : Declarations) (constants : List String) (d : Declaration) :
    Item × List String :=
  match d.node with
  | .record (f :: fs) _ _ _ =>
    let fields := f :: fs
    if fields.all fun g => isFieldName g.name then
      (.classRecord d.id (fields.map (fieldText false)) (docLines d), constants)
    else (.callRecord d.id (fields.map (fieldText true)) (docLines d), constants)
  | .union variants (some discriminator) =>
    let constant := constantFor d.id constants
    let doc := docLines d ++ ["Tagged union discriminated by ``" ++ discriminator ++ "``."]
    (.tagged d.id (d.node.typeText true) constant discriminator
      (variants.filterMap (tagOf table discriminator)) doc, constant :: constants)
  | node => (.alias d.id (node.typeText true) (docLines d), constants)

/-- The ways declarations are written, one after the other. -/
def itemsOf (table : Declarations) (constants : List String) : List Declaration → List Item
  | [] => []
  | d :: rest =>
    let (item, constants) := itemOf table constants d
    item :: itemsOf table constants rest

/-- The name of a declaration. -/
def Item.name : Item → String
  | .classRecord name _ _ => name
  | .callRecord name _ _ => name
  | .tagged name _ _ _ _ _ => name
  | .alias name _ _ => name

/-- A comment above a field, if there is one. -/
def commentLines (margin : String) (f : FieldText) : List String :=
  if f.comment == "" then [] else [margin ++ "# " ++ f.comment]

/-- A docstring with a blank line between its parts, if it has any. -/
def docstringOf (doc : List String) (between : String) : List String :=
  if doc.isEmpty then [] else ["\"\"\"" ++ between.intercalate doc ++ "\"\"\""]

/-- The lines of a declaration. -/
def Item.lines : Item → List String
  | .classRecord name fields doc =>
    ["class " ++ name ++ "(TypedDict):"] ++
    (docstringOf doc "\n\n    ").flatMap (fun text => ["    " ++ text, ""]) ++
    fields.flatMap fun f => commentLines "    " f ++ ["    " ++ f.name ++ ": " ++ f.type]
  | .callRecord name fields doc =>
    [name ++ " = TypedDict(", "    " ++ quoted name ++ ",", "    \x7b"] ++
    (fields.flatMap fun f =>
      commentLines "        " f ++ ["        " ++ quoted f.name ++ ": " ++ f.type ++ ","]) ++
    ["    \x7d,", ")"] ++
    (docstringOf doc "\n\n").map fun text => name ++ ".__doc__ = " ++ text
  | .tagged name type constant discriminator variants doc =>
    [name ++ ": TypeAlias = " ++ type] ++
    doc.map ("# " ++ ·) ++
    [constant ++ "_DISCRIMINATOR: Final = " ++ quoted discriminator,
      constant ++ "_VARIANTS: Final[dict[Any, str]] = \x7b"] ++
    (variants.map fun (tag, target) => "    " ++ tag.literal ++ ": " ++ quoted target ++ ",") ++
    ["\x7d"]
  | .alias name type doc =>
    doc.map ("# " ++ ·) ++ [name ++ ": TypeAlias = " ++ type]

/-- The lines of the module. -/
def moduleLines (title version : String) (items : List Item) : List String :=
  ["\"\"\"Type declarations for " ++ Prose.docstring title ++ " " ++ Prose.docstring version ++ ".",
    "",
    "Generated by apistub from the OpenAPI document. Do not edit by hand;",
    "regenerating overwrites this file.",
    "\"\"\"",
    "",
    "from __future__ import annotations",
    "",
    "from typing import Any, Final, Literal, NotRequired, TypeAlias, TypedDict, Union" ++
      "  # noqa: F401",
    "",
    "__all__ = ["] ++
  (items.map fun item => "    " ++ quoted item.name ++ ",") ++
  ["]"] ++
  items.flatMap fun item => ["", ""] ++ item.lines

/-- The module of the declarations of a table. -/
def render (table : Declarations) (title version path : String) : Artifact :=
  let items := itemsOf table [] table.types
  { path := path
    content := Artifact.lines (moduleLines title version items)
    description := "Type declarations (" ++ toString items.length ++ " types)" }

end RouteStubs.TypesModule
