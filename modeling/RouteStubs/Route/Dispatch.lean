import RouteStubs.Route.Group
import RouteStubs.Value.Basic

/-!
# What the generated routers do

A module of handlers goes through its routes and answers with the handler of the first that matches
a request. The router looks at the first segment of the path only: the group of that segment
answers, or else the first group with operations by tag that has a match, or else nobody. Handlers
are taken to have their placeholder bodies, which name their operation.

The routing code of a module calls a few functions of the language by name. A handler of such a
name takes its place, and then the call fails.

## Main definitions

* `Route.Answer`: what is answered to a request.
* `RouteGroup.match?`, `RouteGroup.dispatch`: what one module does.
* `Router.dispatch`: what the router does.
-/

namespace RouteStubs

/-- What is answered to a request. -/
structure Route.Answer where
  /-- The status. -/
  status : Nat
  /-- The body. -/
  body : Value

namespace RouteGroup

/-- Whether a handler has the name of a function that the routing code calls. -/
def shadows (g : RouteGroup) (name : String) : Bool :=
  g.operations.any fun op => op.handler == name

/-- A call of a function, which fails when a handler has its name. -/
def call (g : RouteGroup) (function : String) : Except Fault Unit :=
  if g.shadows function then .error (.defect .wrongKind) else .ok ()

/-- The values that a path gives to the parameters of a route. -/
def bindRoute (g : RouteGroup) (template path : List String) :
    Except Fault (Option (List (String × String))) := do
  g.call "len"
  if template.length != path.length then return none
  g.call "zip"
  pure (Route.bind? template path)

/-- The first of several routes that matches a method, in capitals, and the segments of a path. -/
def firstMatch (g : RouteGroup) (method : String) (path : List String) :
    List Operation → Except Fault (Option (Operation × List (String × String)))
  | [] => .ok none
  | op :: rest =>
    if op.verb != method then firstMatch g method path rest
    else do
      match ← g.bindRoute (Route.segments op.path) path with
      | some bound => pure (some (op, bound))
      | none => firstMatch g method path rest

/-- The operation that answers a request, with the values of its parameters. -/
def match? (g : RouteGroup) (method path : String) :
    Except Fault (Option (Operation × List (String × String))) := do
  let segments := Route.segments path
  if !segments.isEmpty then g.call "tuple"
  g.firstMatch (Text.upperCase method) segments g.routes

/-- The answer of a handler with its placeholder body. -/
def placeholderAnswer (op : Operation) : Route.Answer :=
  ⟨501, .mapping 0 [(.text "error", .text "Not implemented"),
    (.text "operationId", .text op.operationId)]⟩

/-- What a module answers to a request. -/
def dispatch (g : RouteGroup) (method path : String) : Except Fault Route.Answer := do
  match ← g.match? method path with
  | some (op, _) => pure (placeholderAnswer op)
  | none =>
    pure ⟨404, .mapping 0 [(.text "error", .text "Not found"), (.text "group", .text g.key),
      (.text "method", .text method), (.text "path", .text path)]⟩

end RouteGroup

namespace Router

/-- The first segment of a path, slashes before it aside. -/
def firstSegment (path : String) : String :=
  String.ofList ((Text.trimLeft (· == '/') path.toList).takeWhile (· != '/'))

/-- The group that is found by a first segment. -/
def groupOf? (groups : List RouteGroup) (segment : String) : Option RouteGroup :=
  groups.find? fun g => g.segment? == some segment

/-- The first of several groups that has a match. -/
def firstWithMatch (method path : String) : List RouteGroup → Except Fault (Option RouteGroup)
  | [] => .ok none
  | g :: rest => do
    if (← g.match? method path).isSome then pure (some g) else firstWithMatch method path rest

/-- What the router answers when no group does: it lists all groups, which fails when a module has
the name of the function that does so. -/
def nobody (groups : List RouteGroup) (path : String) : Except Fault Route.Answer :=
  if groups.any fun g => g.module == "list" then .error (.defect .wrongKind)
  else .ok ⟨404, .mapping 0 [(.text "error", .text "Not found"), (.text "path", .text path),
    (.text "groups", .list (groups.map fun g => .text g.key))]⟩

/-- What the router answers to a request. -/
def dispatch (groups : List RouteGroup) (method path : String) : Except Fault Route.Answer :=
  match groupOf? groups (firstSegment path) with
  | some g => g.dispatch method path
  | none => do
    match ← firstWithMatch method path (groups.filter (·.byTag)) with
    | some g => g.dispatch method path
    | none => nobody groups path

end Router

end RouteStubs
