import RouteStubs.Keyed
import RouteStubs.Text.Basic

/-!
# Path templates

A path is read as its segments, slashes at its ends aside. In a template a segment in braces is a
parameter and any other is literal.

## Main definitions

* `Route.segments`: the segments of a path.
* `Route.isParameter`, `Route.parameterName`: parameters of templates.
* `Route.bind?`: the values that a path gives to the parameters of a template.
* `Route.pattern`, `Route.patternLe`: which of two templates is the more specific.
-/

namespace RouteStubs.Route

open Text

/-- The segments of a path, without those before the first and after the last character that is no
slash. -/
def segments (path : String) : List String :=
  match trim (· == '/') path.toList with
  | [] => []
  | stripped => (pieces '/' stripped).map String.ofList

/-- Whether a segment of a template is a parameter. -/
def isParameter (segment : String) : Bool :=
  match segment.toList with
  | '{' :: rest => rest.getLast? == some '}'
  | _ => false

/-- The name of a parameter: the segment without its braces. -/
def parameterName (segment : String) : String :=
  String.ofList (segment.toList.drop 1).dropLast

/-- The values that segments give to the parameters of a template, added to `bound`. A literal
segment has to be equal and a parameter has to have a value. -/
def bindFrom (bound : List (String × String)) :
    (template path : List String) → Option (List (String × String))
  | [], [] => some bound
  | t :: template, s :: path =>
    if isParameter t then
      if s == "" then none else bindFrom (Keyed.put bound (parameterName t) s) template path
    else if t == s then bindFrom bound template path
    else none
  | _, _ => none

/-- The values that the segments of a path give to the parameters of a template. -/
def bind? (template path : List String) : Option (List (String × String)) :=
  bindFrom [] template path

/-- Which segments of a template are parameters. -/
def pattern (path : String) : List Bool := (segments path).map isParameter

/-- The order of patterns: at the first difference a literal segment comes before a parameter, and
a pattern comes before those that go on from it. -/
def patternLe : List Bool → List Bool → Bool
  | [], _ => true
  | _ :: _, [] => false
  | a :: as, b :: bs => if a == b then patternLe as bs else b

end RouteStubs.Route
