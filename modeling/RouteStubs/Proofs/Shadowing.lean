import RouteStubs.Proofs.Route.Names
import RouteStubs.Proofs.Routing

/-!
# Names that the generated code keeps for itself

The routing code of a module reads names of the module and calls functions of the language. The names
of the module are reserved, so no handler and no other module has one of them. The functions are not
reserved: an operation that asks for the name of one gets it, the handler takes the place of the
function, and the routing code fails where it calls it. In the same way a route group can take the
place of the function with which the router lists the groups.

## Main definitions

* `HandlerModule.ownNames`, `RouterModule.ownNames`: the names of a module that its routing code reads.
* `RouteGroup.AlwaysAnswers`, `Router.AlwaysAnswers`: every request is answered.

## Main statements

* `RouteGroup.alwaysAnswers_iff`: a module answers every request exactly when no handler has the name
  of a function that it calls.
* `Plan.routing_shadowed_iff`: which documents lead to routing code that fails.
-/

namespace RouteStubs

/-! ### The modules of handlers -/

/-- The names of a module of handlers that its routing code reads. -/
def HandlerModule.ownNames : List String :=
  ["httpx", "ROUTES", "GROUP", "_segments", "_bind", "match", "dispatch"]

namespace RouteGroup

variable {g : RouteGroup} {op : Operation} {routes : List Operation} {method path : String}

/-- The module answers every request. -/
def AlwaysAnswers (g : RouteGroup) : Prop :=
  ∀ method path, ∃ answer, g.dispatch method path = .ok answer

theorem call_of_mem (hop : op ∈ g.operations) : g.call op.handler = .error (.defect .wrongKind) := by
  have hshadows : g.shadows op.handler = true := by
    rw [shadows, List.any_eq_true]
    exact ⟨op, hop, beq_self_eq_true _⟩
  rw [call, if_pos hshadows]

/-- A template is not compared with segments when a handler is called `len`, and not with as many
segments as it has when one is called `zip`. -/
theorem bindRoute_of_shadowed (hop : op ∈ g.operations)
    (hname : op.handler = "len" ∨ op.handler = "zip") (template segments : List String) :
    g.bindRoute template segments = .error (.defect .wrongKind) ∨
      template.length ≠ segments.length ∧ g.bindRoute template segments = .ok none := by
  have hcall := call_of_mem hop
  unfold bindRoute
  rcases hname with hname | hname
  · rw [hname] at hcall
    rw [hcall]
    exact .inl rfl
  · rw [hname] at hcall
    by_cases hlen : g.shadows "len" = true
    · rw [call, if_pos hlen]
      exact .inl rfl
    · rw [call, if_neg hlen]
      by_cases hsame : template.length = segments.length
      · refine .inl ?_
        rw [if_neg (by simpa using hsame), hcall]
        rfl
      · exact .inr ⟨hsame, by rw [if_pos (by simpa using hsame)]; rfl⟩

/-- Then no route is found for a request that one of them is for: the search fails at the first route
with the method and, for `zip`, with as many segments. -/
theorem firstMatch_of_shadowed (hop : op ∈ g.operations)
    (hname : op.handler = "len" ∨ op.handler = "zip") {other : Operation} (ho : other ∈ routes) :
    g.firstMatch other.verb (Route.segments other.path) routes =
      .error (.defect .wrongKind) := by
  induction routes with
  | nil => cases ho
  | cons first rest ih =>
    rw [firstMatch]
    by_cases hverb : first.verb = other.verb
    · rw [if_neg (by simpa using hverb)]
      rcases bindRoute_of_shadowed hop hname (Route.segments first.path)
        (Route.segments other.path) with hfails | ⟨hlen, hnone⟩
      · rw [hfails]
        rfl
      · have hrest : other ∈ rest := by
          rcases List.mem_cons.mp ho with rfl | hrest
          · exact absurd rfl hlen
          · exact hrest
        rw [hnone]
        exact ih hrest
    · have hrest : other ∈ rest := by
        rcases List.mem_cons.mp ho with rfl | hrest
        · exact absurd rfl hverb
        · exact hrest
      rw [if_pos (by simpa using hverb)]
      exact ih hrest

/-- A handler with the name of a function that the routing code calls leaves requests without an
answer. -/
theorem exists_fails_of_called (hop : op ∈ g.operations) (hname : op.handler ∈ called) :
    ∃ method path, g.dispatch method path = .error (.defect .wrongKind) := by
  rw [called, List.mem_cons, List.mem_cons, List.mem_singleton, ← or_assoc] at hname
  rcases hname with hname | hname
  · by_cases htuple : g.shadows "tuple" = true
    · refine ⟨op.method, "/x", ?_⟩
      rw [dispatch, match?, show Route.segments "/x" = ["x"] from by decide, call, if_pos htuple]
      rfl
    · -- the search for the operation itself fails
      refine ⟨op.method, op.path, ?_⟩
      have hsearch := firstMatch_of_shadowed hop hname (mem_routes_iff.mpr hop)
      have hmatch : g.match? op.method op.path = .error (.defect .wrongKind) := by
        rw [match?, call, if_neg htuple]
        split <;> exact hsearch
      rw [dispatch, hmatch]
      rfl
  · refine ⟨op.method, "/x", ?_⟩
    rw [dispatch, match?, show Route.segments "/x" = ["x"] from by decide, ← hname,
      call_of_mem hop]
    rfl

/-- A module answers every request exactly when no handler has the name of a function that it
calls. -/
theorem alwaysAnswers_iff : g.AlwaysAnswers ↔ g.Unshadowed := by
  constructor
  · intro h op hop hname
    obtain ⟨method, path, hfails⟩ := exists_fails_of_called hop hname
    obtain ⟨answer, hanswer⟩ := h method path
    rw [hfails] at hanswer
    cases hanswer
  · intro h method path
    obtain ⟨answer, hanswer, -⟩ := exists_gives h method path
    exact ⟨answer, hanswer⟩

end RouteGroup

/-! ### The router -/

/-- The names of the router that its routing code reads. -/
def RouterModule.ownNames : List String := ["httpx", "GROUPS", "PREFIXES", "FALLBACKS"]

namespace Router

variable {ops : List Operation} {groups : List RouteGroup}

/-- The router answers every request. -/
def AlwaysAnswers (groups : List RouteGroup) : Prop :=
  ∀ method path, ∃ answer, dispatch groups method path = .ok answer

/-- Without routes for a method nothing is found for it. -/
theorem firstWithMatch_of_verb {method : String}
    (h : ∀ g ∈ groups, ∀ op ∈ g.operations, op.verb ≠ Text.upperCase method) :
    firstWithMatch method "/" groups = .ok none := by
  have hroutes : ∀ (g : RouteGroup) (routes : List Operation),
      (∀ op ∈ routes, op.verb ≠ Text.upperCase method) →
      g.firstMatch (Text.upperCase method) [] routes = .ok none := by
    intro g routes hr
    induction routes with
    | nil => rfl
    | cons first rest ih =>
      rw [RouteGroup.firstMatch, if_pos (by simpa using hr first List.mem_cons_self)]
      exact ih fun op hop => hr op (List.mem_cons_of_mem _ hop)
  induction groups with
  | nil => rfl
  | cons first rest ih =>
    have hmatch : first.match? method "/" = .ok none := by
      rw [RouteGroup.match?, show Route.segments "/" = [] from by decide]
      exact hroutes first first.routes fun op hop =>
        h first List.mem_cons_self op (RouteGroup.mem_routes_iff.mp hop)
    rw [firstWithMatch, hmatch]
    exact ih fun g hg => h g (List.mem_cons_of_mem _ hg)

/-- No group is found by an empty segment. -/
theorem groupOf?_empty (h : RouteGroup.ofOperations ops = .ok groups) :
    groupOf? groups "" = none := by
  apply groupOf?_eq_none h
  intro op _ hkey
  obtain ⟨hhead, -⟩ := RouteGroup.keyOf_eq_segment_iff.mp hkey
  obtain ⟨rest, hs⟩ := List.head?_eq_some_iff.mp hhead
  exact Route.ne_empty_of_segments hs rfl

/-- A module with the name of the function that lists the groups leaves a request for nobody without
an answer. -/
theorem dispatch_of_list (h : RouteGroup.ofOperations ops = .ok groups) {method : String}
    (hverb : ∀ op ∈ ops, op.verb ≠ Text.upperCase method) {g : RouteGroup} (hg : g ∈ groups)
    (hlist : g.module = "list") :
    dispatch groups method "/" = .error (.defect .wrongKind) := by
  have hnone : firstWithMatch method "/" (groups.filter (·.byTag)) = .ok none := by
    apply firstWithMatch_of_verb
    intro g' hg' op hop
    have hmem := RouteGroup.isGroupOf_of_ofOperations h (List.mem_filter.mp hg').1
    exact hverb op (hmem.mem_iff.mp hop).1
  have hany : (groups.any fun g => g.module == "list") = true :=
    List.any_eq_true.mpr ⟨g, hg, by simp [hlist]⟩
  rw [dispatch, show firstSegment "/" = "" from by decide, groupOf?_empty h]
  simp only [hnone, bind, Except.bind, nobody, hany, if_true]

end Router

/-! ### Plans -/

namespace Plan

variable {document : Value} {plan : Plan}

/-- No handler has a name that the routing code of its module reads. -/
theorem handler_notMem_ownNames (h : ofDocument document = .ok plan) {g : RouteGroup}
    (hg : g ∈ plan.groups) {op : Operation} (hop : op ∈ g.operations) :
    op.handler ∉ HandlerModule.ownNames := by
  have hgroup := RouteGroup.isGroupOf_of_ofOperations (ofOperations_of_ofDocument h) hg
  have hreserved := (named_of_ofDocument h).handler_notMem_reserved (hgroup.mem_iff.mp hop).1
  have hsub : HandlerModule.ownNames ⊆ HandlerName.reserved := by decide
  exact fun hm => hreserved (hsub hm)

/-- No module has a name that the routing code of the router reads. -/
theorem module_notMem_ownNames (h : ofDocument document = .ok plan) {g : RouteGroup}
    (hg : g ∈ plan.groups) : g.module ∉ RouterModule.ownNames := by
  have hgroups := ofOperations_of_ofDocument h
  have hreserved := RouteGroup.module_notMem_reserved hgroups hg
  have hchars := RouteGroup.isSegmentChar_of_module hgroups hg
  -- all but one of the names are in capitals
  have hown : ∀ name ∈ RouterModule.ownNames, name ∈ RouteGroup.reservedModules ∨
      name.toList.all Name.isSegmentChar = false := by decide
  intro hm
  rcases hown _ hm with hname | hno
  · exact hreserved hname
  · rw [List.all_eq_true.mpr hchars] at hno
    cases hno

/-- The routing code of a document answers every request exactly when no name that it calls is taken
by a handler or by a module. -/
theorem alwaysAnswers_iff (h : ofDocument document = .ok plan) :
    ((∀ g ∈ plan.groups, g.AlwaysAnswers) ∧ Router.AlwaysAnswers plan.groups) ↔
      plan.Unshadowed := by
  have hgroups := ofOperations_of_ofDocument h
  constructor
  · rintro ⟨hmodules, hrouter⟩
    constructor
    · intro op hop
      obtain ⟨g, hg, -, hmem⟩ := RouteGroup.exists_group hgroups hop
      exact RouteGroup.alwaysAnswers_iff.mp (hmodules g hg) op hmem
    · intro g hg hlist
      -- no operation has this method
      have hverbs : ∀ method ∈ Collect.methods, Text.upperCase method ≠ Text.upperCase "CONNECT" := by
        decide
      have hfails := Router.dispatch_of_list hgroups
        (fun op hop => hverbs op.method ((named_of_ofDocument h).methods op hop)) hg hlist
      obtain ⟨answer, hanswer⟩ := hrouter "CONNECT" "/"
      rw [hfails] at hanswer
      cases hanswer
  · intro hun
    have hserves := hun.serves h
    constructor
    · intro g hg
      exact RouteGroup.alwaysAnswers_iff.mpr (hserves.handlers g hg)
    · intro method path
      obtain ⟨answer, hanswer, -⟩ := hserves.exists_answered method path
      exact ⟨answer, hanswer⟩

/-- Which names the routing code of a document has to itself. No handler and no module has a name of
the module that the routing code reads. A handler has the name of a function that it calls exactly when
an operation asks for that name, and so has a module. The routing code answers every request exactly
when this is not so. -/
theorem routing_shadowed_iff (h : ofDocument document = .ok plan) :
    (∀ g ∈ plan.groups, g.module ∉ RouterModule.ownNames ∧
      ∀ op ∈ g.operations, op.handler ∉ HandlerModule.ownNames) ∧
    (∀ function ∈ RouteGroup.called,
      ((∃ g ∈ plan.groups, ∃ op ∈ g.operations, op.handler = function) ↔
        ∃ op ∈ plan.operations, Name.handlerStyle op.operationId "handler" = .ok function)) ∧
    ((∃ g ∈ plan.groups, g.module = "list") ↔ ∃ op ∈ plan.operations,
      Name.handlerStyle (RouteGroup.keyOf op).1 RouteGroup.defaultKey = .ok "list") ∧
    (((∀ g ∈ plan.groups, g.AlwaysAnswers) ∧ Router.AlwaysAnswers plan.groups) ↔
      ∀ g ∈ plan.groups, g.module ≠ "list" ∧ ∀ op ∈ g.operations, op.handler ∉ RouteGroup.called) := by
  have hgroups := ofOperations_of_ofDocument h
  -- the operations of the groups are those of the plan
  have hmem : ∀ op, (∃ g ∈ plan.groups, op ∈ g.operations) ↔ op ∈ plan.operations := by
    intro op
    constructor
    · rintro ⟨g, hg, hop⟩
      exact ((RouteGroup.isGroupOf_of_ofOperations hgroups hg).mem_iff.mp hop).1
    · intro hop
      obtain ⟨g, hg, -, hop⟩ := RouteGroup.exists_group hgroups hop
      exact ⟨g, hg, hop⟩
  refine ⟨fun g hg => ⟨module_notMem_ownNames h hg, fun op hop =>
    handler_notMem_ownNames h hg hop⟩, fun function hf => ?_, ?_, ?_⟩
  · have hwords : ∀ function ∈ RouteGroup.called, Name.IsWord function ∧
        function ∉ HandlerName.reserved := by decide
    obtain ⟨hw, hr⟩ := hwords function hf
    rw [← (named_of_ofDocument h).exists_handler_iff hw hr]
    constructor
    · rintro ⟨g, hg, op, hop, hhandler⟩
      exact ⟨op, (hmem op).mp ⟨g, hg, hop⟩, hhandler⟩
    · rintro ⟨op, hop, hhandler⟩
      obtain ⟨g, hg, hop⟩ := (hmem op).mpr hop
      exact ⟨g, hg, op, hop, hhandler⟩
  · exact RouteGroup.exists_module_iff hgroups (by decide) (by decide)
  · rw [alwaysAnswers_iff h, unshadowed_iff]
    constructor
    · rintro ⟨hhandlers, hmodules⟩ g hg
      exact ⟨hmodules g hg, fun op hop => hhandlers op ((hmem op).mp ⟨g, hg, hop⟩)⟩
    · intro hall
      refine ⟨fun op hop => ?_, fun g hg => (hall g hg).1⟩
      obtain ⟨g, hg, hop⟩ := (hmem op).mpr hop
      exact (hall g hg).2 op hop

/-- A document with an operation that gets a path. -/
def gettingOne (path id : String) : Value :=
  .mapping 1 [(.text "openapi", .text "3.0.0"),
    (.text "info", .mapping 2 [(.text "title", .text "T"), (.text "version", .text "1")]),
    (.text "paths", .mapping 3 [(.text path, getting 4 id)])]

/-- An operation that asks for a name of the module does not get it, and every request is answered. -/
theorem routing_shadowed_dispatch : ∃ plan, ofDocument (gettingOne "/items/{id}" "dispatch") = .ok plan ∧
    (∀ g ∈ plan.groups, g.AlwaysAnswers) ∧ Router.AlwaysAnswers plan.groups := by
  have hchecked : (ofDocument (gettingOne "/items/{id}" "dispatch")).toOption.any (fun plan =>
      plan.groups.all fun g => g.module != "list" &&
        g.operations.all fun op => !RouteGroup.called.contains op.handler) = true := by
    decide +kernel
  obtain ⟨plan, hplan, hchecked⟩ := exists_of_any hchecked
  obtain ⟨-, -, -, hanswers⟩ := routing_shadowed_iff hplan
  exact ⟨plan, hplan, hanswers.mpr (by simpa using hchecked)⟩

/-- An operation can take the name of a function that the routing code of its module calls, and a group
that of the function that the router calls. Requests then have no answer, not even that nothing is
found. -/
theorem exists_shadowed :
    (∃ plan, ofDocument (gettingOne "/items/{id}" "zip") = .ok plan ∧
      (∃ g ∈ plan.groups, ∃ op ∈ g.operations, op.handler = "zip") ∧
      ∃ fault, Router.dispatch plan.groups "GET" "/items/1" = .error fault) ∧
    ∃ plan, ofDocument (gettingOne "/list" "first") = .ok plan ∧
      (∃ g ∈ plan.groups, g.module = "list") ∧
      ∃ fault, Router.dispatch plan.groups "GET" "/nowhere" = .error fault := by
  have hfault : ∀ {outcome : Except Fault Route.Answer}, outcome.isOk = false →
      ∃ fault, outcome = .error fault := by
    intro outcome h
    cases outcome with
    | error fault => exact ⟨fault, rfl⟩
    | ok answer => cases h
  have hhandler : (ofDocument (gettingOne "/items/{id}" "zip")).toOption.any (fun plan =>
      decide ((∃ g ∈ plan.groups, ∃ op ∈ g.operations, op.handler = "zip") ∧
        (Router.dispatch plan.groups "GET" "/items/1").isOk = false)) = true := by
    decide +kernel
  have hmodule : (ofDocument (gettingOne "/list" "first")).toOption.any (fun plan =>
      decide ((∃ g ∈ plan.groups, g.module = "list") ∧
        (Router.dispatch plan.groups "GET" "/nowhere").isOk = false)) = true := by
    decide +kernel
  obtain ⟨plan, hplan, hhandler⟩ := exists_of_any hhandler
  obtain ⟨plan', hplan', hmodule⟩ := exists_of_any hmodule
  obtain ⟨hzip, hfails⟩ := of_decide_eq_true hhandler
  obtain ⟨hlist, hfails'⟩ := of_decide_eq_true hmodule
  exact ⟨⟨plan, hplan, hzip, hfault hfails⟩, plan', hplan', hlist, hfault hfails'⟩

end Plan

end RouteStubs
