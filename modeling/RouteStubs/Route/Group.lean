import RouteStubs.Name.Fresh
import RouteStubs.Name.Style
import RouteStubs.Operation.Basic
import RouteStubs.Route.Template

/-!
# Route groups

Operations are grouped by the first segment of their paths. Where that is a parameter, or where
there is none, the first tag takes its place, and after it a default. Each group becomes one module
of handlers.

## Main definitions

* `RouteGroup`: a group.
* `RouteGroup.keyOf`: the key of an operation, and whether it is a segment.
* `RouteGroup.ofOperations`: the groups of operations, in order of first appearance.
-/

namespace RouteStubs

/-- Operations with one key. -/
structure RouteGroup where
  /-- The key. -/
  key : String
  /-- The name of the module. -/
  module : String
  /-- The operations, in order. -/
  operations : List Operation
  /-- Whether some operation has the key as its first segment. -/
  bySegment : Bool
  /-- Whether some operation has the key as its tag or by default. -/
  byTag : Bool

namespace RouteGroup

/-- The key of operations without a literal first segment and without tags. -/
def defaultKey : String := "default"

/-- The names of modules that are taken by others. -/
def reservedModules : List String :=
  ["types", "router", "__init__", "httpx", "annotations", "dispatch"]

/-- The key of an operation by its tags. -/
def tagKey (op : Operation) : String := op.tags.headD defaultKey

/-- The key of an operation, and whether it is its literal first segment. -/
def keyOf (op : Operation) : String × Bool :=
  match Route.segments op.path with
  | first :: _ =>
    if first != "" && !Route.isParameter first then (first, true) else (tagKey op, false)
  | [] => (tagKey op, false)

/-- The keys of operations, each at its first place. -/
def keys (ops : List Operation) : List String :=
  ops.foldl (fun kept op =>
    if kept.contains (keyOf op).1 then kept else kept ++ [(keyOf op).1]) []

/-- A name for the module of a key, outside `taken`. -/
def moduleFor (key : String) (taken : List String) : Except Fault String := do
  let name ← Name.handlerStyle key defaultKey
  let name := if reservedModules.contains name then name ++ "_routes" else name
  pure (Name.fresh name taken)

/-- The segment that the group is found by. -/
def segment? (g : RouteGroup) : Option String := if g.bySegment then some g.key else none

/-- The groups of keys, with names for their modules outside `taken`. -/
def ofKeys (ops : List Operation) (taken : List String) :
    List String → Except Fault (List RouteGroup)
  | [] => .ok []
  | key :: rest => do
    let members := ops.filter fun op => (keyOf op).1 == key
    let module ← moduleFor key taken
    let others ← ofKeys ops (module :: taken) rest
    pure (⟨key, module, members, members.any fun op => (keyOf op).2,
      members.any fun op => !(keyOf op).2⟩ :: others)

/-- The groups of operations, in order of first appearance. -/
def ofOperations (ops : List Operation) : Except Fault (List RouteGroup) :=
  ofKeys ops reservedModules (keys ops)

/-- The operations of a group, the more specific templates first and equally specific ones in their
order. -/
def routes (g : RouteGroup) : List Operation :=
  g.operations.mergeSort fun a b => Route.patternLe (Route.pattern a.path) (Route.pattern b.path)

end RouteGroup

end RouteStubs
