import RouteStubs.Chat.Bodies
import RouteStubs.Plan
import RouteStubs.Proofs.Renamed.Collect

/-!
# Plans with other identities

A document with other identities is refused for the same fault, or it has the same plan up to the
identities in its shapes. Nothing that is written shows these identities, so the files that are generated
are the same.

## Main definitions

* `Plan.rename f`: a plan with other identities.

## Main statements

* `Plan.ofDocument_rename`: the plan of a document with other identities.
* `Plan.render_rename`, `Plan.renderAnswered_rename`: the generated files.
-/

namespace RouteStubs

open Shape

variable {f : Nat → Nat}

/-! ### Groups -/

/-- A route group with other identities in the shapes of its operations. -/
def RouteGroup.rename (f : Nat → Nat) (g : RouteGroup) : RouteGroup :=
  { g with operations := g.operations.map (Operation.rename f) }

namespace RouteGroup

theorem keys_rename (ops : List Operation) : keys (ops.map (Operation.rename f)) = keys ops := by
  rw [keys, keys, List.foldl_map]
  rfl

theorem ofKeys_rename (ops : List Operation) (taken : List String) (groupKeys : List String) :
    ofKeys (ops.map (Operation.rename f)) taken groupKeys =
      (ofKeys ops taken groupKeys).map (List.map (rename f)) := by
  induction groupKeys generalizing taken with
  | nil => rfl
  | cons key rest ih =>
    have hmembers : (ops.map (Operation.rename f)).filter (fun op => (keyOf op).1 == key) =
        (ops.filter fun op => (keyOf op).1 == key).map (Operation.rename f) := List.filter_map
    have hany : ∀ (p : Operation → Bool), (∀ op, p (op.rename f) = p op) → ∀ members : List Operation,
        (members.map (Operation.rename f)).any p = members.any p := by
      intro p hp members
      rw [List.any_map]
      exact congrArg (List.any members) (funext hp)
    rw [ofKeys, ofKeys, hmembers, hany _ (fun _ => rfl), hany _ (fun _ => rfl)]
    rcases moduleFor key taken with fault | name
    · rfl
    · simp only [bind, Except.bind]
      rw [ih]
      rcases ofKeys ops (name :: taken) rest with fault | others <;> rfl

theorem ofOperations_rename (ops : List Operation) :
    ofOperations (ops.map (Operation.rename f)) =
      (ofOperations ops).map (List.map (rename f)) := by
  rw [ofOperations, keys_rename, ofKeys_rename, ofOperations]

/-- The order of the routes of a group goes by their paths. -/
theorem routes_rename (g : RouteGroup) :
    (g.rename f).routes = g.routes.map (Operation.rename f) := by
  rw [routes, routes, rename]
  refine (List.map_mergeSort ?_).symm
  intro a _ b _
  rfl

end RouteGroup

/-! ### What is written -/

namespace Shape

mutual

@[simp] theorem typeText_rename (quoteRefs : Bool) :
    ∀ node : Shape, (node.rename f).typeText quoteRefs = node.typeText quoteRefs
  | .primitive kind format => by
    cases kind <;> simp [rename, typeText, kindText]
  | .record _ trailer _ _ => by
    rw [rename, typeText, typeText, trailerText_rename quoteRefs trailer]
  | .array element => by rw [rename, typeText, typeText, typeText_rename quoteRefs element]
  | .union variants _ => by rw [rename, typeText, typeText, typeTexts_rename quoteRefs variants]
  | .enum _ => rfl
  | .handle _ => rfl
  | .unknown => rfl

theorem trailerText_rename (quoteRefs : Bool) : ∀ trailer : Option Shape,
    trailerText quoteRefs (renameTrailer f trailer) = trailerText quoteRefs trailer
  | none => rfl
  | some node => by
    rw [renameTrailer, trailerText, trailerText, typeText_rename quoteRefs node]

theorem typeTexts_rename (quoteRefs : Bool) : ∀ variants : List Shape,
    typeTexts quoteRefs (renameVariants f variants) = typeTexts quoteRefs variants
  | [] => rfl
  | node :: rest => by
    rw [renameVariants, typeTexts, typeTexts, typeText_rename quoteRefs node,
      typeTexts_rename quoteRefs rest]

end

end Shape

namespace Declarations

theorem dereference_rename (table : Declarations) (node : Shape) :
    (table.rename f).dereference (node.rename f) = (table.dereference node).map (Shape.rename f) := by
  have hfind : ∀ id, ((table.rename f).find? id).map (·.node) =
      ((table.find? id).map (·.node)).map (Shape.rename f) := by
    intro id
    rw [find?, find?, rename, ← List.map_reverse, List.find?_map, Option.map_map, Option.map_map]
    rfl
  unfold dereference
  rw [show (table.rename f).types.length = table.types.length from List.length_map _]
  exact Definitions.followIn_rename hfind _ node

end Declarations

namespace TypesModule

/-- A declaration with other identities in its shape. -/
def renameDeclaration (f : Nat → Nat) (d : Declaration) : Declaration :=
  { d with node := d.node.rename f }

theorem docLines_rename (d : Declaration) : docLines (renameDeclaration f d) = docLines d := by
  obtain ⟨id, node, key, origin, description⟩ := d
  cases node with
  | record fields trailer about source =>
    cases fields with
    | nil => rfl
    | cons first rest =>
      cases trailer with
      | none => rfl
      | some tail =>
        simp only [docLines, renameDeclaration, rename_record, List.map_cons, Option.map_some,
          typeText_rename]
  | union variants discriminator =>
    rw [docLines, renameDeclaration]
    simp only [rename_union]
    rfl
  | _ => rfl

theorem fieldText_rename (quoteRefs : Bool) (g : Field Shape) :
    fieldText quoteRefs (renameField f g) = fieldText quoteRefs g := by
  simp only [fieldText, renameField, typeText_rename]

theorem tagOf_rename (table : Declarations) (discriminator : String) (variant : Shape) :
    tagOf (table.rename f) discriminator (variant.rename f) = tagOf table discriminator variant := by
  cases variant with
  | handle target =>
    have hfound := Declarations.dereference_rename (f := f) table (.handle target)
    rw [rename_handle] at hfound ⊢
    simp only [tagOf, hfound]
    rcases table.dereference (.handle target) with _ | found
    · rfl
    cases found with
    | record fields trailer description source =>
      rw [Option.map_some, rename_record]
      simp only [field?_rename]
      rcases field? fields discriminator with _ | g
      · rfl
      have hnode := Declarations.dereference_rename (f := f) table g.node
      simp only [Option.map_some, Option.bind_some, renameField, hnode]
      rcases table.dereference g.node with _ | value
      · rfl
      cases value with
      | record fields trailer description source => rw [Option.map_some, rename_record]
      | union variants discriminator => rw [Option.map_some, rename_union]
      | _ => rfl
    | union variants discriminator => rw [Option.map_some, rename_union]
    | _ => rfl
  | record fields trailer description source => rw [rename_record]; rfl
  | union variants discriminator => rw [rename_union]; rfl
  | _ => rfl

theorem itemOf_rename (table : Declarations) (constants : List String) (d : Declaration) :
    itemOf (table.rename f) constants (renameDeclaration f d) = itemOf table constants d := by
  have hdoc := docLines_rename (f := f) d
  have htext := typeText_rename (f := f) true d.node
  obtain ⟨id, node, key, origin, description⟩ := d
  rw [renameDeclaration] at hdoc ⊢
  cases node with
  | record fields trailer about source =>
    simp only [rename_record] at hdoc htext ⊢
    cases fields with
    | nil =>
      simp only [List.map_nil] at hdoc htext ⊢
      simp only [itemOf, hdoc, htext]
    | cons first rest =>
      have hall : ((first :: rest).map (renameField f)).all (fun g => isFieldName g.name) =
          (first :: rest).all fun g => isFieldName g.name := by
        rw [List.all_map]
        rfl
      have hfields : ∀ quoteRefs, ((first :: rest).map (renameField f)).map (fieldText quoteRefs) =
          (first :: rest).map (fieldText quoteRefs) := by
        intro quoteRefs
        rw [List.map_map]
        exact List.map_congr_left fun g _ => fieldText_rename quoteRefs g
      rw [List.map_cons] at hall hfields hdoc ⊢
      simp only [itemOf, hall, hfields, hdoc]
  | union variants discriminator =>
    simp only [rename_union] at hdoc htext ⊢
    cases discriminator with
    | none => simp only [itemOf, hdoc, htext]
    | some discriminator =>
      have htags : (variants.map (Shape.rename f)).filterMap
          (tagOf (table.rename f) discriminator) =
          variants.filterMap (tagOf table discriminator) := by
        rw [List.filterMap_map]
        congr 1
        funext variant
        exact tagOf_rename table discriminator variant
      simp only [itemOf, hdoc, htext, htags]
  | _ => simp only [rename_primitive, rename_array, rename_enum, rename_handle, rename_unknown,
      itemOf] at hdoc htext ⊢ <;> simp only [hdoc, htext]

theorem itemsOf_rename (table : Declarations) (constants : List String)
    (declarations : List Declaration) :
    itemsOf (table.rename f) constants (declarations.map (renameDeclaration f)) =
      itemsOf table constants declarations := by
  induction declarations generalizing constants with
  | nil => rfl
  | cons d rest ih =>
    rw [List.map_cons, itemsOf, itemsOf, itemOf_rename]
    dsimp only
    rw [ih]

/-- The module of the declarations shows no identities. -/
theorem render_rename (table : Declarations) (title version path : String) :
    render (table.rename f) title version path = render table title version path := by
  have hitems : itemsOf (table.rename f) [] (table.rename f).types = itemsOf table [] table.types :=
    itemsOf_rename table [] table.types
  unfold render
  rw [hitems]

end TypesModule

namespace HandlerModule

theorem bodyText_rename (body : Option Shape) :
    bodyText (body.map (Shape.rename f)) = bodyText body := by
  cases body with
  | none => rfl
  | some node => exact typeText_rename false node

theorem requestLines_rename (op : Operation) :
    (match (op.rename f).requestBody with
      | some node =>
        ["Request body (" ++ requirement op.requestBodyRequired ++ "): " ++ node.typeText false]
      | none => []) =
    (match op.requestBody with
      | some node =>
        ["Request body (" ++ requirement op.requestBodyRequired ++ "): " ++ node.typeText false]
      | none => []) := by
  rw [Operation.rename]
  cases op.requestBody with
  | none => rfl
  | some node => simp only [Option.map_some, typeText_rename]

theorem docstringOf_rename (op : Operation) : docstringOf (op.rename f) = docstringOf op := by
  have hparameters : (op.rename f).parameters.map (fun p =>
        "  " ++ Prose.docstring p.name ++ " (" ++ p.location.display ++ ", " ++
          requirement p.required ++ "): " ++ p.node.typeText false) =
      op.parameters.map fun p =>
        "  " ++ Prose.docstring p.name ++ " (" ++ p.location.display ++ ", " ++
          requirement p.required ++ "): " ++ p.node.typeText false := by
    rw [Operation.rename, List.map_map]
    apply List.map_congr_left
    intro p _
    simp only [Function.comp_apply, Parameter.rename, typeText_rename]
  have hresponses : (op.rename f).responses.map (fun r =>
        "  " ++ Prose.docstring r.1 ++ ": " ++ bodyText r.2) =
      op.responses.map fun r => "  " ++ Prose.docstring r.1 ++ ": " ++ bodyText r.2 := by
    rw [Operation.rename, renameResponses, List.map_map]
    apply List.map_congr_left
    intro r _
    simp only [Function.comp_apply, bodyText_rename]
  have hempty : (op.rename f).responses.isEmpty = op.responses.isEmpty := List.isEmpty_map
  have hdetail : detailLines (op.rename f) = detailLines op := by
    have hrequest := requestLines_rename (f := f) op
    unfold detailLines
    rw [hparameters, hempty]
    change _ ++ (match (op.rename f).requestBody with
      | some node =>
        ["Request body (" ++ requirement op.requestBodyRequired ++ "): " ++ node.typeText false]
      | none => []) ++ (if op.responses.isEmpty then [] else
        "Responses:" :: (op.rename f).responses.map fun r =>
          "  " ++ Prose.docstring r.1 ++ ": " ++ bodyText r.2) ++ _ = _
    rw [hrequest, hresponses]
    rfl
  rw [docstringOf, docstringOf, hdetail]
  rfl

theorem handlerLines_rename (bodies : List (String × String)) (op : Operation) :
    handlerLines bodies (op.rename f) = handlerLines bodies op := by
  rw [handlerLines, handlerLines, docstringOf_rename]
  rfl

/-- The module of a route group shows no identities. -/
theorem render_rename (g : RouteGroup) (title version typesPath directory : String)
    (bodies : List (String × String)) :
    render (g.rename f) title version typesPath directory bodies =
      render g title version typesPath directory bodies := by
  have hhandlers : (g.rename f).operations.flatMap (handlerLines bodies) =
      g.operations.flatMap (handlerLines bodies) := by
    rw [RouteGroup.rename, List.flatMap_map]
    congr 1
    funext op
    exact handlerLines_rename bodies op
  have hroutes : (g.rename f).routes.map routeLine = g.routes.map routeLine := by
    rw [RouteGroup.routes_rename, List.map_map]
    rfl
  have hlength : (g.rename f).operations.length = g.operations.length := List.length_map _
  unfold render moduleLines
  rw [hhandlers, hroutes, hlength]
  rfl

end HandlerModule

/-- The router shows nothing of operations. -/
theorem RouterModule.render_rename (groups : List RouteGroup) (title version directory : String) :
    render (groups.map (RouteGroup.rename f)) title version directory =
      render groups title version directory := by
  have hfilter : ((groups.map (RouteGroup.rename f)).filter (·.byTag)) =
      (groups.filter (·.byTag)).map (RouteGroup.rename f) := List.filter_map
  unfold render moduleLines
  rw [List.map_map, List.map_map, List.filterMap_map, hfilter, List.map_map, List.length_map]
  rfl

/-! ### Plans -/

namespace Plan

/-- A plan with other identities. -/
def rename (f : Nat → Nat) (plan : Plan) : Plan :=
  { plan with
    table := plan.table.rename f
    operations := plan.operations.map (Operation.rename f)
    groups := plan.groups.map (RouteGroup.rename f) }

theorem infoText_rename (document : Value) (key : String) :
    infoText (document.rename f) key = infoText document key := by
  unfold infoText
  rw [Value.member?_rename]
  rcases document.member? "info" with _ | info
  · rfl
  · simp only [Option.map_some, Option.bind_some, Value.member?_rename]
    cases info.member? key with
    | none => rfl
    | some v => exact Value.display_rename v

theorem collect_matches (hf : Function.Injective f) (document : Value) :
    Step.Matches (Draft.Together f document)
      (fun x y => y = (x.1.map (Operation.rename f), x.2.rename f)) (fun _ => True) collect
      collect := by
  refine (Draft.addComponents_matches hf).bind fun _ _ _ => ?_
  refine (Collect.operations_matches hf).bind ?_
  rintro operations _ rfl
  refine (Draft.build_matches hf).bind ?_
  rintro table _ rfl
  exact Step.matches_pure rfl

/-- The same fault, or the same plan. -/
theorem ofDocument_rename (hf : Function.Injective f) (document : Value) :
    ofDocument (document.rename f) = (ofDocument document).map (rename f) := by
  have hvalidate := Document.validate_rename (f := f) document
  unfold ofDocument
  rw [hvalidate]
  rcases Document.validate document with fault | ⟨⟩
  · rfl
  simp only [bind, Except.bind]
  obtain ⟨x, y, t, t', hrun, hrun', hxy, -⟩ | ⟨fault, t, t', hrun, hrun', -, -⟩ :=
    (collect_matches hf document).run
      (Draft.together_start (f := f) document TypesModule.reservedNames)
  · obtain ⟨operations, table⟩ := x
    rw [hrun, hrun', hxy]
    dsimp only
    rw [RouteGroup.ofOperations_rename]
    rcases RouteGroup.ofOperations operations with fault | groups
    · rfl
    · simp only [Except.map, pure, Except.pure, infoText_rename, rename]
  · rw [hrun, hrun']
    rfl

/-! ### Generated files -/

/-- The generated files show no identities. -/
theorem render_rename (plan : Plan) (directory : String) (bodies : List (String × String)) :
    (plan.rename f).render directory bodies = plan.render directory bodies := by
  have hgroups : ((plan.rename f).groups.map fun g =>
        HandlerModule.render g plan.title plan.version (directory ++ "types.py") directory bodies) =
      plan.groups.map fun g =>
        HandlerModule.render g plan.title plan.version (directory ++ "types.py") directory bodies := by
    rw [rename, List.map_map]
    apply List.map_congr_left
    intro g _
    exact HandlerModule.render_rename g _ _ _ _ _
  have htypes := TypesModule.render_rename (f := f) plan.table plan.title plan.version
    (directory ++ "types.py")
  have hrouter := RouterModule.render_rename (f := f) plan.groups plan.title plan.version directory
  exact congrArg₂ List.cons htypes (congrArg₂ List.cons hrouter hgroups)

/-- The bodies from a chat service go by the handlers of operations. -/
theorem bodies_rename (s : Settings) (operations : List Operation) (replies : Nat → Chat.Reply) :
    Chat.bodies s (Chat.answered (operations.map (Operation.rename f)) replies) =
      Chat.bodies s (Chat.answered operations replies) := by
  have hanswered : Chat.answered (operations.map (Operation.rename f)) replies =
      (Chat.answered operations replies).map (Prod.map (Operation.rename f) id) := by
    rw [Chat.answered, Chat.answered, List.zipIdx_map, List.map_map, List.map_map]
    rfl
  have hempty : ((Chat.answered operations replies).map (Prod.map (Operation.rename f) id)).isEmpty =
      (Chat.answered operations replies).isEmpty := List.isEmpty_map
  rw [hanswered]
  unfold Chat.bodies
  simp only [hempty, List.foldl_map]
  rfl

/-- The generated files with bodies from a chat service show no identities. -/
theorem renderAnswered_rename (plan : Plan) (s : Settings) (replies : Nat → Chat.Reply) :
    (plan.rename f).renderAnswered s replies = plan.renderAnswered s replies := by
  have hbodies : Chat.bodies s (Chat.answered (plan.rename f).operations replies) =
      Chat.bodies s (Chat.answered plan.operations replies) :=
    bodies_rename s plan.operations replies
  unfold renderAnswered
  rw [hbodies]
  rcases Chat.bodies s (Chat.answered plan.operations replies) with fault | bodies
  · rfl
  · exact congrArg Except.ok (render_rename plan s.directory bodies)

end Plan

end RouteStubs
