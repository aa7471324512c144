import RouteStubs.Proofs.Bodies

/-!
# What one answer changes

An answer is used for one operation. With another answer in its place the bodies of all other
handlers are the same, and so are all generated files but one: in the module of the group of that
operation the body of its handler is another. This rests on the names of handlers, which are
different in the whole document and not only in one group.

## Main definitions

* `Chat.AgreeBut`: bodies that are the same for all handlers but one.
* `HandlerModule.opening`: the lines of a handler before its body.

## Main statements

* `Chat.agreeBut_of_filled`: what one answer changes in the bodies.
* `HandlerModule.render_around`, `Plan.render_around`: where a body stands in the generated files.
* `Plan.renderAnswered_around`: what one answer changes in the generated files.
-/

namespace RouteStubs

/-! ### The bodies -/

namespace Chat

variable {s : Settings} {operations : List Operation} {op : Operation} {replies replies' : Nat → Reply}
  {bodies bodies' : List (String × String)} {handler name : String} {i : Nat}

/-- The bodies of all handlers but one are the same. -/
def AgreeBut (handler : String) (bodies bodies' : List (String × String)) : Prop :=
  ∀ name, name ≠ handler → bodies.lookup name = bodies'.lookup name

theorem AgreeBut.refl (handler : String) (bodies : List (String × String)) :
    AgreeBut handler bodies bodies := fun _ _ => rfl

/-- There are no bodies but for the handlers of operations. -/
theorem Filled.lookup_eq_none (h : Filled s operations replies bodies)
    (hno : ∀ op ∈ operations, op.handler ≠ name) : bodies.lookup name = none := by
  rw [List.lookup_eq_none_iff]
  rintro ⟨other, body⟩ hmem
  obtain ⟨i, op, _, hop, rfl, -⟩ := h.source other body hmem
  have hne := hno op (List.mem_of_getElem? hop)
  simpa using hne.symm

/-- An answer has no effect on the bodies of other handlers. -/
theorem agreeBut_of_filled (hop : operations[i]? = some op) (hr : ∀ j, j ≠ i → replies j = replies' j)
    (h : Filled s operations replies bodies) (h' : Filled s operations replies' bodies') :
    AgreeBut op.handler bodies bodies' := by
  intro name hname
  by_cases hex : ∃ other ∈ operations, other.handler = name
  · obtain ⟨other, hmem, rfl⟩ := hex
    obtain ⟨j, hj⟩ := List.mem_iff_getElem?.mp hmem
    -- another handler has another place
    have hne : j ≠ i := by
      rintro rfl
      cases hop.symm.trans hj
      exact hname rfl
    rw [h.own j other hj, h'.own j other hj, hr j hne]
  · have hno : ∀ other ∈ operations, other.handler ≠ name := fun other hmem he =>
      hex ⟨other, hmem, he⟩
    rw [h.lookup_eq_none hno, h'.lookup_eq_none hno]

end Chat

/-! ### The module of a group -/

namespace HandlerModule

variable {g : RouteGroup} {op : Operation} {bodies bodies' : List (String × String)}
  {before after : List Operation}

/-- The lines of a handler before its body. -/
def opening (op : Operation) : List String :=
  ["",
    "",
    "def " ++ op.handler ++ "(",
    "    request: httpx.Request, env: Mapping[str, Any], params: dict[str, str]",
    ") -> httpx.Response:",
    "    \"\"\"" ++ docstringOf op,
    "    \"\"\""]

theorem handlerLines_eq (bodies : List (String × String)) (op : Operation) :
    handlerLines bodies op = opening op ++ [bodyInside (bodyFor bodies op)] := by
  unfold handlerLines opening
  simp only [List.cons_append, List.nil_append]

/-- The lines of other handlers are the same. -/
theorem handlerLines_of_ne (h : Chat.AgreeBut op.handler bodies bodies') {other : Operation}
    (hne : other.handler ≠ op.handler) : handlerLines bodies other = handlerLines bodies' other := by
  rw [handlerLines_eq, handlerLines_eq, bodyFor, bodyFor, h _ hne]

theorem flatMap_handlerLines_of_ne (h : Chat.AgreeBut op.handler bodies bodies')
    {others : List Operation} (hne : ∀ other ∈ others, other.handler ≠ op.handler) :
    others.flatMap (handlerLines bodies) = others.flatMap (handlerLines bodies') := by
  induction others with
  | nil => rw [List.flatMap_nil, List.flatMap_nil]
  | cons first rest ih =>
    obtain ⟨hfirst, hrest⟩ := List.forall_mem_cons.mp hne
    rw [List.flatMap_cons, List.flatMap_cons, handlerLines_of_ne h hfirst, ih hrest]

/-- A module without a handler does not depend on its body. -/
theorem render_of_ne (h : Chat.AgreeBut op.handler bodies bodies')
    (hne : ∀ other ∈ g.operations, other.handler ≠ op.handler)
    (title version typesPath directory : String) :
    render g title version typesPath directory bodies =
      render g title version typesPath directory bodies' := by
  rw [render, render, moduleLines, moduleLines, flatMap_handlerLines_of_ne h hne]

/-- Of the lines of a module only those of the body of a handler depend on this body. They follow the
other lines of the handler. -/
theorem render_around (hsplit : g.operations = before ++ op :: after)
    (hbefore : ∀ other ∈ before, other.handler ≠ op.handler)
    (hafter : ∀ other ∈ after, other.handler ≠ op.handler)
    (title version typesPath directory : String) (bodies : List (String × String)) :
    ∃ head tail description, ∀ bodies', Chat.AgreeBut op.handler bodies bodies' →
      render g title version typesPath directory bodies' =
        ⟨directory ++ g.module ++ ".py",
          Artifact.lines (head ++ opening op ++ bodyInside (bodyFor bodies' op) :: tail),
          description⟩ := by
  let head := headLines g.key title version (Artifact.moduleName typesPath) ++
    before.flatMap (handlerLines bodies)
  let tail := after.flatMap (handlerLines bodies) ++
    ["", "", "# Literal segments are listed before parameters at the same position.",
      "ROUTES: tuple[tuple[str, tuple[str, ...], Handler], ...] = ("] ++
    g.routes.map routeLine ++ routingLines
  refine ⟨head, tail, (render g title version typesPath directory bodies).description,
    fun bodies' h => ?_⟩
  have hlines : moduleLines g title version (Artifact.moduleName typesPath) bodies' =
      head ++ opening op ++ bodyInside (bodyFor bodies' op) :: tail := by
    rw [moduleLines, hsplit, List.flatMap_append, List.flatMap_cons, handlerLines_eq,
      ← flatMap_handlerLines_of_ne h hbefore, ← flatMap_handlerLines_of_ne h hafter]
    simp only [head, tail, List.append_assoc, List.cons_append, List.nil_append]
  rw [render, hlines]
  rfl

end HandlerModule

/-! ### The generated files -/

namespace Plan

variable {document : Value} {plan : Plan} {op : Operation} {directory : String}

/-- One group has the operation, and its handler is in no other group and once in this one. -/
theorem exists_only_group (h : ofDocument document = .ok plan) (hop : op ∈ plan.operations) :
    ∃ g before after first last, plan.groups = before ++ g :: after ∧
      g.operations = first ++ op :: last ∧
      (∀ other ∈ first ++ last, other.handler ≠ op.handler) ∧
      ∀ g' ∈ before ++ after, ∀ other ∈ g'.operations, other.handler ≠ op.handler := by
  have hgroups := ofOperations_of_ofDocument h
  have hnodup := (named_of_ofDocument h).nodup_handlers
  obtain ⟨g, hg, hkey, hmem⟩ := RouteGroup.exists_group hgroups hop
  obtain ⟨before, after, hsplit⟩ := List.append_of_mem hg
  obtain ⟨first, last, hfirst⟩ := List.append_of_mem hmem
  refine ⟨g, before, after, first, last, hsplit, hfirst, ?_, ?_⟩
  · -- a group has its operations in their order, each once
    have hsub : (g.operations.map (·.handler)).Sublist (plan.operations.map (·.handler)) := by
      rw [(RouteGroup.isGroupOf_of_ofOperations hgroups hg).operations_eq]
      exact List.filter_sublist.map _
    have honce := hnodup.sublist hsub
    rw [hfirst, List.map_append, List.map_cons, List.nodup_middle, List.nodup_cons] at honce
    intro other hother he
    rw [← List.map_append] at honce
    exact honce.1 (he ▸ List.mem_map_of_mem hother)
  · intro g' hg' other hother he
    have hg'mem : g' ∈ plan.groups := by
      rw [hsplit]
      simp only [List.mem_append, List.mem_cons] at hg' ⊢
      tauto
    obtain ⟨hothermem, hkey'⟩ :=
      (RouteGroup.isGroupOf_of_ofOperations hgroups hg'mem).mem_iff.mp hother
    -- an operation with this handler is the operation itself, so the groups have one key
    obtain rfl : other = op := List.inj_on_of_nodup_map hnodup hothermem hop he
    have hkeys : (plan.groups.map (·.key)).Nodup := by
      rw [RouteGroup.keys_of_ofOperations hgroups]
      exact RouteGroup.nodup_keys _
    rw [hsplit, List.map_append, List.map_cons, List.nodup_middle, List.nodup_cons,
      ← List.map_append] at hkeys
    exact hkeys.1 (hkey ▸ hkey' ▸ List.mem_map_of_mem hg')

/-- Of the generated files only the module of the group of an operation depends on the body of its
handler, and there only the lines of this body. -/
theorem render_around (h : ofDocument document = .ok plan) (hop : op ∈ plan.operations)
    (directory : String) (bodies : List (String × String)) :
    ∃ g ∈ plan.groups, op ∈ g.operations ∧ ∃ before after head tail description,
      ∀ bodies', Chat.AgreeBut op.handler bodies bodies' →
        plan.render directory bodies' = before ++
          ⟨directory ++ g.module ++ ".py",
            Artifact.lines (head ++ HandlerModule.opening op ++
              HandlerModule.bodyInside (HandlerModule.bodyFor bodies' op) :: tail),
            description⟩ :: after := by
  obtain ⟨g, before, after, first, last, hgroups, hoperations, hothers, hgroups'⟩ :=
    exists_only_group h hop
  obtain ⟨hfirst, hlast⟩ := List.forall_mem_append.mp hothers
  obtain ⟨hbefore, hafter⟩ := List.forall_mem_append.mp hgroups'
  obtain ⟨head, tail, description, hmodule⟩ := HandlerModule.render_around hoperations hfirst hlast
    plan.title plan.version (directory ++ "types.py") directory bodies
  let modules (bodies : List (String × String)) (groups : List RouteGroup) : List Artifact :=
    groups.map fun g => HandlerModule.render g plan.title plan.version (directory ++ "types.py")
      directory bodies
  refine ⟨g, by simp [hgroups], by simp [hoperations],
    TypesModule.render plan.table plan.title plan.version (directory ++ "types.py") ::
      RouterModule.render plan.groups plan.title plan.version directory :: modules bodies before,
    modules bodies after, head, tail, description, fun bodies' hagree => ?_⟩
  have hothers : ∀ groups : List RouteGroup,
      (∀ g ∈ groups, ∀ other ∈ g.operations, other.handler ≠ op.handler) →
        modules bodies' groups = modules bodies groups := by
    intro groups hne
    refine List.map_congr_left fun g hg => ?_
    exact (HandlerModule.render_of_ne hagree (hne g hg) _ _ _ _).symm
  have hmodules : modules bodies' plan.groups =
      modules bodies before ++ HandlerModule.render g plan.title plan.version
        (directory ++ "types.py") directory bodies' :: modules bodies after := by
    rw [← hothers before hbefore, ← hothers after hafter, hgroups]
    simp only [modules, List.map_append, List.map_cons]
  rw [← hmodule bodies' hagree, List.cons_append, List.cons_append, ← hmodules]
  rfl

/-- Two runs whose answers differ for one operation give the same bodies to all other handlers, and the
same files except for the body of the handler of this operation, in the module of its group. -/
theorem renderAnswered_around (h : ofDocument document = .ok plan) {s : Settings}
    {replies replies' : Nat → Chat.Reply} {i : Nat} {files files' : List Artifact}
    (hop : plan.operations[i]? = some op) (hr : ∀ j, j ≠ i → replies j = replies' j)
    (hfiles : plan.renderAnswered s replies = .ok files)
    (hfiles' : plan.renderAnswered s replies' = .ok files') :
    ∃ bodies bodies', Chat.bodies s (Chat.answered plan.operations replies) = .ok bodies ∧
      Chat.bodies s (Chat.answered plan.operations replies') = .ok bodies' ∧
      (∀ name, name ≠ op.handler → bodies.lookup name = bodies'.lookup name) ∧
      ∃ g ∈ plan.groups, op ∈ g.operations ∧ ∃ before after head tail description,
        files = before ++
          ⟨s.directory ++ g.module ++ ".py",
            Artifact.lines (head ++ HandlerModule.opening op ++
              HandlerModule.bodyInside (HandlerModule.bodyFor bodies op) :: tail),
            description⟩ :: after ∧
        files' = before ++
          ⟨s.directory ++ g.module ++ ".py",
            Artifact.lines (head ++ HandlerModule.opening op ++
              HandlerModule.bodyInside (HandlerModule.bodyFor bodies' op) :: tail),
            description⟩ :: after := by
  have hm : ¬ Chat.Misdirected s plan.operations := by
    intro hm
    rw [(renderAnswered_misdirected replies hm).2] at hfiles
    cases hfiles
  obtain ⟨bodies, hbodies, hfilled, hrender⟩ := exists_renderAnswered h replies hm
  obtain ⟨bodies', hbodies', hfilled', hrender'⟩ := exists_renderAnswered h replies' hm
  have hagree := Chat.agreeBut_of_filled hop hr hfilled hfilled'
  obtain ⟨g, hg, hgop, before, after, head, tail, description, haround⟩ :=
    render_around h (List.mem_of_getElem? hop) s.directory bodies
  cases hfiles.symm.trans hrender
  cases hfiles'.symm.trans hrender'
  exact ⟨bodies, bodies', hbodies, hbodies', hagree, g, hg, hgop, before, after, head, tail,
    description, haround bodies (.refl _ _), haround bodies' hagree⟩

/-- A document with two operations in one group. -/
def greetingsDocument : Value :=
  .mapping 0 [(.text "openapi", .text "3.0.0"),
    (.text "info", .mapping 1 [(.text "title", .text "T"), (.text "version", .text "1")]),
    (.text "paths", .mapping 2 [(.text "/greetings", .mapping 3
      [(.text "get", .mapping 4 [(.text "operationId", .text "hello")]),
        (.text "post", .mapping 5 [(.text "operationId", .text "greet")])])])]

/-- An answer for the second operation alone. -/
def secondAnswer (i : Nat) : Chat.Reply := if i = 1 then saying "return None" else .lost

/-- An answer for the second operation gives a body to its handler and none to the first. -/
theorem renderAnswered_greetings : ∃ plan files files' bodies bodies',
    ofDocument greetingsDocument = .ok plan ∧
    plan.renderAnswered (askingAt "http://host") (fun _ => .lost) = .ok files ∧
    plan.renderAnswered (askingAt "http://host") secondAnswer = .ok files' ∧
    bodies.lookup "greet" = none ∧ bodies'.lookup "greet" = some "return None" ∧
    bodies.lookup "hello" = bodies'.lookup "hello" ∧
    files = plan.render "" bodies ∧ files' = plan.render "" bodies' := by
  have hchecked : (ofDocument greetingsDocument).toOption.any (fun plan =>
      plan.operations.map (·.handler) == ["hello", "greet"]) = true := by decide +kernel
  obtain ⟨plan, hplan, htest⟩ := exists_of_any hchecked
  obtain ⟨hello, greet, hops, hhello, hgreet⟩ : ∃ hello greet, plan.operations = [hello, greet] ∧
      hello.handler = "hello" ∧ greet.handler = "greet" := by
    simpa [List.map_eq_cons_iff] using eq_of_beq htest
  have hm := not_misdirected_hello plan.operations
  obtain ⟨bodies, hbodies, hfilled, hrender⟩ := exists_renderAnswered hplan (fun _ => .lost) hm
  obtain ⟨bodies', hbodies', hfilled', hrender'⟩ := exists_renderAnswered hplan secondAnswer hm
  have hplace : plan.operations[1]? = some greet := by rw [hops]; rfl
  have hsame : ∀ j, j ≠ 1 → Chat.Reply.lost = secondAnswer j := fun j hj => (if_neg hj).symm
  obtain ⟨found, found', hfound, hfound', hagree, -⟩ :=
    renderAnswered_around hplan hplace hsame hrender hrender'
  cases hbodies.symm.trans hfound
  cases hbodies'.symm.trans hfound'
  refine ⟨plan, _, _, bodies, bodies', hplan, hrender, hrender', ?_, ?_, ?_, rfl, rfl⟩
  · rw [← hgreet, hfilled.own 1 greet hplace]
    exact Chat.bodyFrom?_eq_none _ rfl
  · rw [← hgreet, hfilled'.own 1 greet hplace]
    exact bodyFrom?_saying
  · exact hagree "hello" (by rw [hgreet]; decide)

end Plan

end RouteStubs
