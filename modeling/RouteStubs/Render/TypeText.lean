import RouteStubs.Shape.Basic
import RouteStubs.Value.Written

/-!
# Shapes in writing

The type expression for a shape. References to declarations are quoted where they are evaluated
before all declarations are there.

## Main definitions

* `Shape.typeText`: the type expression of a shape.
* `Shape.typeTextOrNone`: that of a shape that may be missing.
-/

namespace RouteStubs.Shape

/-- The type expression of a kind in a format. -/
def kindText (kind : Kind) (format : Value) : String :=
  match kind with
  | .string => if format.isText "binary" then "bytes" else "str"
  | .integer => "int"
  | .number => "float"
  | .boolean => "bool"
  | .null => "None"
  | .other _ => "Any"

mutual

/-- The type expression of a shape. -/
def typeText (quoteRefs : Bool) : Shape → String
  | .primitive kind format => kindText kind format
  | .record _ trailer _ _ => "dict[str, " ++ trailerText quoteRefs trailer ++ "]"
  | .array element => "list[" ++ typeText quoteRefs element ++ "]"
  | .union variants _ => "Union[" ++ ", ".intercalate (typeTexts quoteRefs variants) ++ "]"
  | .enum values => "Literal[" ++ ", ".intercalate (values.map Scalar.literal) ++ "]"
  | .handle target => if quoteRefs then "\"" ++ target ++ "\"" else target
  | .unknown => "Any"

/-- The type expression of a trailer. -/
def trailerText (quoteRefs : Bool) : Option Shape → String
  | none => "Any"
  | some node => typeText quoteRefs node

/-- The type expressions of the variants of a union. -/
def typeTexts (quoteRefs : Bool) : List Shape → List String
  | [] => []
  | node :: rest => typeText quoteRefs node :: typeTexts quoteRefs rest

end

/-- The type expression of a shape that may be missing. -/
def typeTextOrNone (quoteRefs : Bool) : Option Shape → String
  | none => "None"
  | some node => typeText quoteRefs node

end RouteStubs.Shape
