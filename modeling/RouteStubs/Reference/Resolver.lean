import RouteStubs.Reference.Pointer
import RouteStubs.Step
import RouteStubs.Text.Digit

/-!
# Resolving references

A resolver answers references into one document. It remembers what it has found, and it keeps the
chain of the references that are being expanded, so that a reference that is on the chain already
can be told from a new one.

## Main definitions

* `Resolver`: the document, the chain and what has been found.
* `Resolver.walk`: what a list of segments leads to.
* `Resolver.lookup`, `Resolver.resolve`: what a reference leads to.
* `Resolver.visiting`: a step during which a reference is on the chain.
* `Resolver.resolveNode`: what a value stands for, references followed to their end.
-/

namespace RouteStubs

/-- A resolver of references into one document. -/
structure Resolver where
  /-- The document. -/
  document : Value
  /-- The references that are being expanded, the outermost first. -/
  chain : List Value
  /-- The references that have been found, with their targets. -/
  found : List (String × Value)

/-- What is known of a reference that leads somewhere. -/
structure Resolved where
  /-- The reference. -/
  ref : Value
  /-- The mapping it leads to. -/
  node : Value
  /-- The chain, with the reference at its end. -/
  path : List Value
  /-- Whether the reference is on the chain already. -/
  cyclic : Bool

namespace Resolver

/-- A resolver that has not been asked yet. -/
def ofDocument (document : Value) : Resolver := ⟨document, [], []⟩

/-- The item of a list at an index, which counts from the end when it is negative. -/
def item? (items : List Value) (index : Int) : Option Value :=
  if 0 ≤ index then items[index.toNat]?
  else if -index ≤ items.length then items[(index + items.length).toNat]?
  else none

/-- One step into a value. -/
def descend (ref segment : String) : Value → Except Fault Value
  | .mapping _ entries =>
    match Entries.text? entries segment with
    | some v => .ok v
    | none => .error (.brokenReference ref (.noEntry segment))
  | .list items =>
    match (Text.readInt? segment.toList).bind (item? items) with
    | some v => .ok v
    | none => .error (.brokenReference ref (.badIndex segment))
  | .scalar _ => .error (.brokenReference ref (.noParts segment))

/-- The value that segments lead to. -/
def walk (ref : String) : List String → Value → Except Fault Value
  | [], v => .ok v
  | segment :: rest, v => do walk ref rest (← descend ref segment v)

/-- The mapping that a reference leads to. -/
def target (document : Value) (ref : String) : Except Fault Value := do
  let v ← walk ref (← Pointer.segments ref) document
  if v.isMapping then .ok v else .error (.brokenReference ref .notObject)

/-- The mapping that a reference leads to, remembered once it is found. -/
def lookup : Value → Step Resolver Value
  | .scalar (.text ref) => do
    let r ← get
    match r.found.lookup ref with
    | some v => pure v
    | none =>
      let v ← Step.ofExcept (target r.document ref)
      modify fun r => { r with found := (ref, v) :: r.found }
      pure v
  | .scalar other => throw (.unsupportedReference other.display)
  | _ => throw (.defect .wrongKind)

/-- Resolves a reference. -/
def resolve (ref : Value) : Step Resolver Resolved := do
  let node ← lookup ref
  let chain := (← get).chain
  pure ⟨ref, node, chain ++ [ref], chain.any (·.same ref)⟩

/-- The resolver with a reference put on the chain. -/
def enter (ref : Value) (r : Resolver) : Resolver := { r with chain := r.chain ++ [ref] }

/-- The resolver with the innermost reference taken off the chain. -/
def leave (r : Resolver) : Resolver := { r with chain := r.chain.dropLast }

/-- A step during which a reference is on the chain. -/
def visiting {α : Type} (ref : Value) (step : Step Resolver α) : Step Resolver α :=
  Step.between (enter ref) leave step

/-- Follows references, of which `seen` have been followed before, to a value that is none. -/
def follow (seen : List String) : (steps : Nat) → Value → Step Resolver Value
  | 0, _ => throw (.defect .outOfSteps)
  | steps + 1, node =>
    match node.member? "$ref" with
    | none => pure node
    | some ref => do
      match ref with
      | .scalar (.text r) =>
        if seen.contains r then
          throw (.brokenReference r (.loop (seen ++ [r])))
        let next ← lookup ref
        follow (seen ++ [r]) steps next
      | _ =>
        let next ← lookup ref
        follow seen steps next

/-- What a value stands for: a mapping with a reference stands for what the reference leads to.
Each reference that is followed is a new one, so there are no more steps than references. -/
def resolveNode (node : Value) : Step Resolver Value := do
  let r ← get
  follow [] (r.document.references.length + 3) node

end Resolver

end RouteStubs
