import RouteStubs.Name.Inflection
import RouteStubs.Name.Style

/-!
# Names of operations

An operation without a name of its own is named by what it does to which resource: its verb comes
from the method and its resource from the literal segments of the path. The path `/pets` gives
`list_pets` and `create_pet`, the path `/pets/{petId}` gives `get_pet`.

## Main definitions

* `Name.isVersion`: path segments such as `v1` or `v2.1`.
* `Name.resourceSegments`: the segments of a path that name the resource.
* `Name.ofOperation`: the name for a method and a path.
-/

namespace RouteStubs.Name

open Text

/-- A version segment: the letter `v` and numbers with points between them. A line break may end
it. -/
def isVersion (s : List Char) : Bool :=
  match s with
  | 'v' :: rest =>
    let numbers := if rest.getLast? = some '\n' then rest.dropLast else rest
    (pieces '.' numbers).all fun n => !n.isEmpty && n.all isDecimal
  | _ => false

/-- A segment that says nothing about the resource: `api` or a version. -/
def isPreamble (s : List Char) : Bool :=
  let small := lower s
  small == ['a', 'p', 'i'] || isVersion small

/-- The segments of a path that are not empty. -/
def filledSegments (path : List Char) : List (List Char) :=
  (pieces '/' path).filter (!·.isEmpty)

/-- Whether a segment starts as a template parameter does. -/
def opensParameter (s : List Char) : Bool := s.head? == some '{'

/-- The segments of a path that name the resource: `api` and versions at the front are left out,
and template parameters everywhere. -/
def resourceSegments (path : List Char) : List (List Char) :=
  ((filledSegments path).dropWhile isPreamble).filter (!opensParameter ·)

/-- The verb for a method, given in small letters. -/
def verb (method : String) (member : Bool) : String :=
  match method with
  | "get" => if member then "get" else "list"
  | "post" => "create"
  | "put" => "update"
  | "delete" => "delete"
  | "patch" => "update"
  | other => other

/-- The name of an operation for its method and path. -/
def ofOperation (method path : String) : String :=
  let member := (filledSegments path.toList).any opensParameter
  let does := verb (lowerCase method) member
  let words := ((resourceSegments path.toList).map segmentChars).filter (!·.isEmpty)
  match words.map String.ofList with
  | [] => does ++ "_root"
  | [resource] =>
    let named :=
      if does == "list" then pluralize resource
      else if member || does == "create" then singularize resource
      else resource
    does ++ "_" ++ named
  | several => does ++ "_" ++ "_".intercalate several

end RouteStubs.Name
