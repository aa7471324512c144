import RouteStubs.Operation.Collect
import RouteStubs.Render.HandlerModule
import RouteStubs.Render.RouterModule
import RouteStubs.Render.TypesModule

/-!
# Plans

Everything that a document says is worked out before anything is written: its declarations, its
operations and their groups. A document that is refused gives no plan and so no file.

## Main definitions

* `Plan`: what a document says.
* `Plan.ofDocument`: works it out.
* `Plan.render`: the generated files.
-/

namespace RouteStubs

/-- What a document says. -/
structure Plan where
  /-- The title. -/
  title : String
  /-- The version. -/
  version : String
  /-- The declared shapes. -/
  table : Declarations
  /-- The operations. -/
  operations : List Operation
  /-- The operations in their groups. -/
  groups : List RouteGroup

namespace Plan

/-- An entry of the information about a document, inside a sentence. -/
def infoText (document : Value) (key : String) : String :=
  (((document.member? "info").bind (·.member? key)).getD .null).display

/-- The steps of working out the declarations and the operations of a document. -/
def collect : Step Draft (List Operation × Declarations) := do
  Draft.addComponents
  let operations ← Collect.operations
  let table ← Draft.build
  pure (operations, table)

/-- What a document says. -/
def ofDocument (document : Value) : Except Fault Plan := do
  Document.validate document
  let (operations, table) ←
    (collect.runFrom (Draft.start document TypesModule.reservedNames)).1
  let groups ← RouteGroup.ofOperations operations
  pure ⟨infoText document "title", infoText document "version", table, operations, groups⟩

/-- The generated files: the declarations, the router and a module for each group, all under one
directory, with the given bodies of handlers. -/
def render (plan : Plan) (directory : String) (bodies : List (String × String)) : List Artifact :=
  let typesPath := directory ++ "types.py"
  TypesModule.render plan.table plan.title plan.version typesPath ::
    RouterModule.render plan.groups plan.title plan.version directory ::
    plan.groups.map fun g =>
      HandlerModule.render g plan.title plan.version typesPath directory bodies

end Plan

end RouteStubs
