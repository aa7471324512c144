import RouteStubs.Fault
import RouteStubs.Value.Basic

/-!
# Documents

What every document has to have, and its main parts.

## Main definitions

* `Document.validate`: whether a value is a document.
* `Document.paths`, `Document.schemas`, `Document.securitySchemes`: the main parts.
-/

namespace RouteStubs.Document

/-- A field that counts as missing when it is null or empty. -/
def isMissing (info : Entries) (key : String) : Bool :=
  match info.text? key with
  | none => true
  | some v => v.same .null || v.isText ""

/-- Checks the top level of a document. -/
def validate : Value → Except Fault Unit
  | .mapping _ entries => do
    if !((Entries.text? entries "openapi").map Value.isTrue).getD false then
      throw (.invalidDocument (.missing "openapi"))
    match Entries.text? entries "info" with
    | some (.mapping _ info) =>
      if isMissing info "title" then throw (.invalidDocument (.missing "info.title"))
      if isMissing info "version" then throw (.invalidDocument (.missing "info.version"))
    | _ => throw (.invalidDocument (.missing "info"))
    match Entries.text? entries "paths" with
    | none => pure ()
    | some paths => if !paths.isMapping then throw (.invalidDocument .pathsNotMapping)
  | _ => throw (.invalidDocument .rootNotMapping)

/-- The member of a mapping, if it counts as given. -/
def givenMember (v : Value) (key : String) : Except Fault (Option Value) :=
  match v with
  | .mapping _ entries => .ok ((Entries.text? entries key).filter Value.isTrue)
  | _ => .error (.defect .noMembers)

/-- A part of the components of a document: an empty mapping if it is not given. -/
def component (document : Value) (part : String) : Except Fault Value := do
  match ← givenMember document "components" with
  | none => pure (.mapping 0 [])
  | some components => return (← givenMember components part).getD (.mapping 0 [])

/-- The paths of a document. -/
def paths (document : Value) : Except Fault Value := do
  return (← givenMember document "paths").getD (.mapping 0 [])

/-- The schemas of a document. -/
def schemas (document : Value) : Except Fault Value := component document "schemas"

/-- The security schemes of a document. -/
def securitySchemes (document : Value) : Except Fault Value := component document "securitySchemes"

end RouteStubs.Document
