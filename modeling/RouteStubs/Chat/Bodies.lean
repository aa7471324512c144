import RouteStubs.Body.Answer
import RouteStubs.Chat.Exchange
import RouteStubs.Keyed
import RouteStubs.Plan

/-!
# Bodies from a chat service

The handlers of the generated files get the bodies that a chat service has written for them. Each
operation is asked for on its own: a handler without a usable answer keeps its placeholder.

## Main definitions

* `Chat.requests`: the requests that are sent for some operations.
* `Chat.bodies`: the bodies for some operations with what came back for them.
* `Plan.renderAnswered`: the generated files with these bodies.
-/

namespace RouteStubs

namespace Chat

/-- The requests that are sent for some operations, in their order. -/
def requests (s : Settings) (operations : List Operation) : List Request :=
  if s.enhances && sends s then
    match address? s with
    | some a => operations.map (request s a)
    | none => []
  else []

/-- The body in what came back for an operation. Nothing comes back to one who asks without a
host. -/
def bodyOf? (s : Settings) (a : Address) (reply : Reply) : Option String :=
  if sends s && a.isAbsolute then reply.text?.bind Body.ofAnswer? else none

/-- The bodies of handlers after one more operation. -/
def addBody (s : Settings) (a : Address) (bodies : List (String × String))
    (answered : Operation × Reply) : List (String × String) :=
  match bodyOf? s a answered.2 with
  | some body => Keyed.put bodies answered.1.handler body
  | none => bodies

/-- The bodies by handler, for operations with what came back for each. Without a key there are
none. -/
def bodies (s : Settings) (answered : List (Operation × Reply)) :
    Except Fault (List (String × String)) :=
  if !s.enhances || answered.isEmpty then .ok []
  else (address s).map fun a => answered.foldl (addBody s a) []

end Chat

/-- Operations with what comes back for each: `replies i` for the request that is sent as number
`i`. -/
def Chat.answered (operations : List Operation) (replies : Nat → Chat.Reply) :
    List (Operation × Chat.Reply) :=
  operations.zipIdx.map fun p => (p.1, replies p.2)

/-- The generated files, with bodies from what comes back for the requests. -/
def Plan.renderAnswered (plan : Plan) (s : Settings) (replies : Nat → Chat.Reply) :
    Except Fault (List Artifact) := do
  let bodies ← Chat.bodies s (Chat.answered plan.operations replies)
  pure (plan.render s.directory bodies)

end RouteStubs
