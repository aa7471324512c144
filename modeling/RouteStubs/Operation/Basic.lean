import RouteStubs.Shape.Basic
import RouteStubs.Text.Case

/-!
# Operations

An operation answers one method on one path. Its handler is the function of the generated code that
is to be filled in.

## Main definitions

* `Parameter`, `Operation`: what is known of an operation.
* `Operation.verb`: the method in capitals.
-/

namespace RouteStubs

/-- A parameter of an operation. -/
structure Parameter where
  /-- The name. -/
  name : String
  /-- Where in a request it stands. -/
  location : Scalar
  /-- Whether every request has it. -/
  required : Bool
  /-- What its values are. -/
  node : Shape
  /-- What the document says about it. -/
  description : String

/-- What is known of an operation. -/
structure Operation where
  /-- The name that the document gives or that the path suggests. -/
  operationId : String
  /-- The method. -/
  method : String
  /-- The path template. -/
  path : String
  /-- The parameters. -/
  parameters : List Parameter
  /-- What the body of a request is, if there is one. -/
  requestBody : Option Shape
  /-- Whether every request has a body. -/
  requestBodyRequired : Bool
  /-- What the body of a response is, if there is one, by status. -/
  responses : List (String × Option Shape)
  /-- The tags. -/
  tags : List String
  /-- The short description. -/
  summary : String
  /-- The long description. -/
  description : String
  /-- Whether the operation should no longer be used. -/
  deprecated : Bool
  /-- How a request is authorised. -/
  security : List String
  /-- The name of the handler. -/
  handler : String
  /-- The declaration of the parameters, if there are any. -/
  parametersType : Option String
  /-- The declaration of the responses, if there are any. -/
  responsesType : Option String

/-- The method in capitals. -/
def Operation.verb (op : Operation) : String := Text.upperCase op.method

/-- The method and the path. -/
def Operation.route (op : Operation) : String := op.verb ++ " " ++ op.path

end RouteStubs
