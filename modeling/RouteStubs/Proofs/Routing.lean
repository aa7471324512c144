import RouteStubs.Proofs.Ends
import RouteStubs.Proofs.Plan
import RouteStubs.Proofs.Route.Groups
import RouteStubs.Proofs.Route.Specific

/-!
# The generated router

The router looks at the first segment of a path and at nothing else. If an operation has it as its
literal first segment, then the group of that segment answers, with a match or with a 404 of its own.
Otherwise no operation with a literal first segment can match, and the first group with an operation
by tag that does answers. If there is none, then nobody answers.

So among groups only the order counts. A literal first segment wins over all parameters, but a group
that is found by its segment never gives a request on, and of several groups by tag the first with a
match answers, however specific the matches of the others are.

## Main definitions

* `Operation.StartsLike`: an operation has the first segment of a path as its literal first segment.
* `Router.Answered`: what the grouping of operations says about the answer to a request.
* `Plan.Unshadowed`: no handler and no module has the name of a function that the generated routing
  code calls.

## Main statements

* `Plan.dispatch_answered`: the router answers as the grouping says, and with a handler where an
  operation with a literal first segment is asked for.
* `Plan.dispatch_mostSpecific`: which of the operations that match a request answers.
-/

namespace RouteStubs

variable {ops : List Operation} {groups : List RouteGroup} {g : RouteGroup} {op : Operation}
  {method path : String}

/-! ### First segments -/

/-- The literal first segment of the operation is the first segment of the path. -/
def Operation.StartsLike (op : Operation) (path : String) : Prop :=
  ∃ segment, (Route.segments path).head? = some segment ∧ RouteGroup.keyOf op = (segment, true)

/-- What the router finds is the literal first segment of an operation. -/
theorem Operation.startsLike_iff :
    op.StartsLike path ↔ RouteGroup.keyOf op = (Router.firstSegment path, true) := by
  rw [Router.firstSegment_eq]
  constructor
  · rintro ⟨segment, hs, hk⟩
    rw [hk, List.headD_eq_head?_getD, hs, Option.getD_some]
  · intro hk
    cases hs : Route.segments path with
    | nil =>
      -- no operation has an empty first segment
      rw [hs, List.headD_nil] at hk
      obtain ⟨hhead, -⟩ := RouteGroup.keyOf_eq_segment_iff.mp hk
      cases ht : Route.segments op.path with
      | nil => rw [ht] at hhead; cases hhead
      | cons first rest =>
        rw [ht, List.head?_cons, Option.some_inj] at hhead
        exact absurd hhead (Route.ne_empty_of_segments ht)
    | cons first rest =>
      rw [hs, List.headD_cons] at hk
      exact ⟨first, by rw [hs]; rfl, hk⟩

instance (op : Operation) (path : String) : Decidable (op.StartsLike path) :=
  decidable_of_iff' _ Operation.startsLike_iff

/-- An operation that matches and has a literal first segment starts like the path. -/
theorem Operation.Matches.startsLike (h : op.Matches method path)
    (hk : (RouteGroup.keyOf op).2 = true) : op.StartsLike path := by
  have hkey : RouteGroup.keyOf op = ((RouteGroup.keyOf op).1, true) := Prod.ext rfl hk
  obtain ⟨hhead, hliteral⟩ := RouteGroup.keyOf_eq_segment_iff.mp hkey
  refine ⟨(RouteGroup.keyOf op).1, ?_, hkey⟩
  rcases h.2.head? with ⟨ht, -⟩ | ⟨first, actual, ht, hs, hfit⟩
  · rw [ht] at hhead
    cases hhead
  · rw [ht, Option.some_inj] at hhead
    rw [hhead, Route.fitsSegment_of_literal hliteral] at hfit
    rw [hs, hfit]

theorem Operation.Matches.byTag (h : op.Matches method path) (hno : ¬op.StartsLike path) :
    (RouteGroup.keyOf op).2 = false :=
  Bool.eq_false_iff.mpr fun hk => hno (h.startsLike hk)

/-- The template of an operation that matches starts with a parameter unless its key is a literal segment.
There is a first segment if the path has one. -/
theorem Operation.Matches.head?_pattern (h : op.Matches method path) :
    (Route.pattern op.path).head? = if (Route.segments path).head? = none then none
      else some !(RouteGroup.keyOf op).2 := by
  rw [Route.pattern, List.head?_map]
  rcases h.2.head? with ⟨ht, hs⟩ | ⟨first, actual, ht, hs, -⟩
  · rw [ht, hs]
    rfl
  · obtain ⟨rest, ht⟩ := List.head?_eq_some_iff.mp ht
    have hne := Route.ne_empty_of_segments ht
    rw [ht, hs, List.head?_cons, Option.map_some, if_neg (by simp), RouteGroup.keyOf, ht]
    cases hp : Route.isParameter first with
    | true => simp [hp]
    | false => simp [hp, hne]

/-! ### The groups -/

/-- The groups are those of operations, in order, and all of their functions can be called. -/
structure Router.Serves (ops : List Operation) (groups : List RouteGroup) : Prop where
  ofOperations : RouteGroup.ofOperations ops = .ok groups
  handlers : ∀ g ∈ groups, g.Unshadowed
  modules : ∀ g ∈ groups, g.module ≠ "list"

namespace Router

theorem Serves.isGroupOf (h : Serves ops groups) (hg : g ∈ groups) : g.IsGroupOf ops :=
  RouteGroup.isGroupOf_of_ofOperations h.ofOperations hg

theorem Serves.mem (h : Serves ops groups) (hg : g ∈ groups) (hop : op ∈ g.operations) : op ∈ ops :=
  ((h.isGroupOf hg).mem_iff.mp hop).1

/-- The group of a segment is found when an operation has the segment as its key. -/
theorem Serves.groupOf?_eq_some (h : Serves ops groups) {segment : String} (hop : op ∈ ops)
    (hk : RouteGroup.keyOf op = (segment, true)) :
    ∃ g ∈ groups, groupOf? groups segment = some g ∧ g.key = segment := by
  obtain ⟨g, hg, hkey, -⟩ := RouteGroup.exists_group h.ofOperations hop
  rw [hk] at hkey
  have hby : g.bySegment = true := (h.isGroupOf hg).bySegment_iff.mpr ⟨op, hop, hkey ▸ hk⟩
  have hsegment : g.segment? = some segment := by rw [RouteGroup.segment?, if_pos hby, hkey]
  cases hf : groupOf? groups segment with
  | none => exact absurd (by simp [hsegment]) (List.find?_eq_none.mp hf g hg)
  | some found =>
    have hfound := List.find?_some hf
    rw [beq_iff_eq, RouteGroup.segment?] at hfound
    split at hfound
    · exact ⟨found, List.mem_of_find?_eq_some hf, rfl, Option.some_inj.mp hfound⟩
    · cases hfound

theorem groupOf?_eq_none (h : RouteGroup.ofOperations ops = .ok groups) {segment : String}
    (hno : ∀ op ∈ ops, RouteGroup.keyOf op ≠ (segment, true)) : groupOf? groups segment = none := by
  rw [groupOf?, List.find?_eq_none]
  intro g hg hsegment
  rw [beq_iff_eq, RouteGroup.segment?] at hsegment
  split at hsegment
  · next hby =>
    obtain ⟨op, hop, hk⟩ := (RouteGroup.isGroupOf_of_ofOperations h hg).bySegment_iff.mp hby
    exact hno op hop (by rw [hk, Option.some_inj.mp hsegment])
  · cases hsegment

/-- The first group with a match is found, if there is one. -/
theorem firstWithMatch_cases (h : ∀ g ∈ groups, g.Unshadowed) (method path : String) :
    (∃ before g after, groups = before ++ g :: after ∧
      firstWithMatch method path groups = .ok (some g) ∧
      (∀ g' ∈ before, ∀ op ∈ g'.operations, ¬op.Matches method path) ∧
      ∃ op ∈ g.operations, op.Matches method path) ∨
    (firstWithMatch method path groups = .ok none ∧
      ∀ g ∈ groups, ∀ op ∈ g.operations, ¬op.Matches method path) := by
  induction groups with
  | nil => exact .inr ⟨rfl, fun g hg => absurd hg List.not_mem_nil⟩
  | cons first rest ih =>
    rcases RouteGroup.match?_cases (h first List.mem_cons_self) method path with
      ⟨op, bound, hfound, hop⟩ | ⟨hnone, hno⟩
    · refine .inl ⟨[], first, rest, rfl, ?_, fun g hg => absurd hg List.not_mem_nil, op, hop.mem,
        hop.matched⟩
      rw [firstWithMatch, hfound]
      rfl
    · have hskip : firstWithMatch method path (first :: rest) = firstWithMatch method path rest := by
        rw [firstWithMatch, hnone]
        rfl
      rw [hskip]
      rcases ih fun g hg => h g (List.mem_cons_of_mem _ hg) with
        ⟨before, g, after, hgroups, hfound, hbefore, hmatch⟩ | ⟨hnone', hrest⟩
      · refine .inl ⟨first :: before, g, after, by rw [hgroups]; rfl, hfound, ?_, hmatch⟩
        intro g' hg'
        rcases List.mem_cons.mp hg' with rfl | hg'
        · exact hno
        · exact hbefore g' hg'
      · refine .inr ⟨hnone', fun g hg => ?_⟩
        rcases List.mem_cons.mp hg with rfl | hg
        · exact hno
        · exact hrest g hg

/-- Groups without a match can be left out. -/
theorem firstWithMatch_filter (h : ∀ g ∈ groups, g.Unshadowed) {p : RouteGroup → Bool}
    (hno : ∀ g ∈ groups, p g = false → ∀ op ∈ g.operations, ¬op.Matches method path) :
    firstWithMatch method path (groups.filter p) = firstWithMatch method path groups := by
  induction groups with
  | nil => rfl
  | cons first rest ih =>
    have hrest := ih (fun g hg => h g (List.mem_cons_of_mem _ hg))
      fun g hg => hno g (List.mem_cons_of_mem _ hg)
    cases hp : p first with
    | true => rw [List.filter_cons_of_pos hp, firstWithMatch, firstWithMatch, hrest]
    | false =>
      rw [List.filter_cons_of_neg (by simp [hp]), hrest, firstWithMatch]
      rcases RouteGroup.match?_cases (h first List.mem_cons_self) method path with
        ⟨op, bound, -, hop⟩ | ⟨hnone, -⟩
      · exact absurd hop.matched (hno first List.mem_cons_self hp op hop.mem)
      · rw [hnone]
        rfl

/-! ### The answers of the router -/

/-- What the router looks for when no operation has the first segment of the path: the first group
with a match. -/
theorem Serves.dispatch_of_not_startsLike (h : Serves ops groups)
    (hno : ∀ op ∈ ops, ¬op.StartsLike path) :
    dispatch groups method path = (do
      match ← firstWithMatch method path groups with
      | some g => g.dispatch method path
      | none => nobody groups path) := by
  have hgroup : groupOf? groups (firstSegment path) = none :=
    groupOf?_eq_none h.ofOperations fun op hop hk => hno op hop (Operation.startsLike_iff.mpr hk)
  have hfilter : firstWithMatch method path (groups.filter (·.byTag)) =
      firstWithMatch method path groups := by
    -- what matches has its key by a tag, and so its group has
    refine firstWithMatch_filter h.handlers fun g hg hby op hop hm => ?_
    obtain ⟨hops, hk⟩ := (h.isGroupOf hg).mem_iff.mp hop
    have htag : g.byTag = true := (h.isGroupOf hg).byTag_iff.mpr
      ⟨op, hops, Prod.ext hk (hm.byTag (hno op hops))⟩
    exact absurd (hby.symm.trans htag) Bool.false_ne_true
  rw [← hfilter, dispatch]
  split
  · next g hg => exact absurd (hgroup.symm.trans hg) nofun
  · rfl

/-- The answer of the group of a segment. -/
theorem Serves.dispatch_of_startsLike (h : Serves ops groups) (hop : op ∈ ops)
    (hs : op.StartsLike path) :
    ∃ g ∈ groups, g.key = (RouteGroup.keyOf op).1 ∧
      dispatch groups method path = g.dispatch method path := by
  have hk := Operation.startsLike_iff.mp hs
  obtain ⟨g, hg, hfound, hkey⟩ := h.groupOf?_eq_some hop hk
  exact ⟨g, hg, by rw [hkey, hk], by rw [dispatch, hfound]⟩

/-- The answer of the router when nobody else answers: it lists the keys of all groups. -/
def notFound (ops : List Operation) (path : String) : Route.Answer :=
  ⟨404, .mapping 0 [(.text "error", .text "Not found"), (.text "path", .text path),
    (.text "groups", .list ((RouteGroup.keys ops).map Value.text))]⟩

theorem Serves.nobody_eq (h : Serves ops groups) (path : String) :
    nobody groups path = .ok (notFound ops path) := by
  have hno : (groups.any fun g => g.module == "list") = false := by
    rw [List.any_eq_false]
    intro g hg heq
    exact h.modules g hg (eq_of_beq heq)
  rw [nobody, if_neg (by simp [hno]), notFound, ← RouteGroup.keys_of_ofOperations h.ofOperations,
    List.map_map]
  rfl

/-- What the grouping of operations says about the answer to a request. -/
inductive Answered (ops : List Operation) (groups : List RouteGroup) (method path : String) :
    Route.Answer → Prop
  /-- The group that holds the operations with the first segment of the path answers. -/
  | bySegment {op : Operation} {g : RouteGroup} {answer : Route.Answer} (hop : op ∈ ops)
    (hs : op.StartsLike path) (hg : g ∈ groups) (hk : g.key = (RouteGroup.keyOf op).1)
    (hd : g.dispatch method path = .ok answer) (h : g.Gives method path answer) :
    Answered ops groups method path answer
  /-- The first group with an operation by tag that matches answers. -/
  | byTag {before after : List RouteGroup} {g : RouteGroup} {op : Operation}
    (hno : ∀ op ∈ ops, ¬op.StartsLike path) (hg : groups = before ++ g :: after)
    (hbefore : ∀ g' ∈ before, ∀ op ∈ g'.operations, (RouteGroup.keyOf op).2 = false →
      ¬op.Matches method path)
    (htag : (RouteGroup.keyOf op).2 = false)
    (hd : g.dispatch method path = .ok (RouteGroup.placeholderAnswer op))
    (h : Route.MostSpecific g.operations method path op) :
    Answered ops groups method path (RouteGroup.placeholderAnswer op)
  /-- Nobody answers. -/
  | nobody (hno : ∀ op ∈ ops, ¬op.StartsLike path)
    (h : ∀ op ∈ ops, (RouteGroup.keyOf op).2 = false → ¬op.Matches method path) :
    Answered ops groups method path (notFound ops path)

/-- The router answers as the grouping says. -/
theorem Serves.exists_answered (h : Serves ops groups) (method path : String) :
    ∃ answer, dispatch groups method path = .ok answer ∧
      Answered ops groups method path answer := by
  by_cases hs : ∃ op ∈ ops, op.StartsLike path
  · obtain ⟨op, hop, hs⟩ := hs
    obtain ⟨g, hg, hk, hdispatch⟩ := h.dispatch_of_startsLike hop hs
    obtain ⟨answer, hanswer, hgives⟩ := RouteGroup.exists_gives (h.handlers g hg) method path
    exact ⟨answer, hdispatch.trans hanswer, .bySegment hop hs hg hk hanswer hgives⟩
  · have hno : ∀ op ∈ ops, ¬op.StartsLike path := fun op hop hop' => hs ⟨op, hop, hop'⟩
    rw [h.dispatch_of_not_startsLike hno]
    rcases firstWithMatch_cases h.handlers method path with
      ⟨before, g, after, hgroups, hfound, hbefore, op, hop, hm⟩ | ⟨hnone, hrest⟩
    · have hg : g ∈ groups := hgroups ▸ List.mem_append_right _ List.mem_cons_self
      obtain ⟨best, hanswer, hbest⟩ := RouteGroup.exists_mostSpecific (h.handlers g hg) hop hm
      refine ⟨RouteGroup.placeholderAnswer best, ?_, .byTag hno hgroups
        (fun g' hg' op hop _ => hbefore g' hg' op hop)
        (hbest.matched.byTag (hno best (h.mem hg hbest.mem))) hanswer hbest⟩
      rw [hfound]
      exact hanswer
    · refine ⟨notFound ops path, ?_, .nobody hno fun op hop _ hm => ?_⟩
      · rw [hnone]
        exact h.nobody_eq path
      · obtain ⟨g, hg, -, hmem⟩ := RouteGroup.exists_group h.ofOperations hop
        exact hrest g hg op hmem hm

/-- An operation that matches a path which starts with its literal first segment is answered by a
most specific one of all that match. -/
theorem Serves.exists_mostSpecific (h : Serves ops groups) (hop : op ∈ ops)
    (hm : op.Matches method path) (hk : (RouteGroup.keyOf op).2 = true) :
    ∃ best, dispatch groups method path = .ok (RouteGroup.placeholderAnswer best) ∧
      Route.MostSpecific ops method path best := by
  have hs := hm.startsLike hk
  obtain ⟨g, hg, hkey, hdispatch⟩ := h.dispatch_of_startsLike hop hs
  have hmem : op ∈ g.operations := (h.isGroupOf hg).mem_iff.mpr ⟨hop, hkey.symm⟩
  obtain ⟨best, hanswer, hbest⟩ := RouteGroup.exists_mostSpecific (h.handlers g hg) hmem hm
  refine ⟨best, hdispatch.trans hanswer, h.mem hg hbest.mem, hbest.matched, ?_⟩
  intro other ho hother
  obtain ⟨segment, hhead, -⟩ := hs
  by_cases hko : (RouteGroup.keyOf other).2 = true
  · -- it has the same first segment, so it is in the same group
    have hsame := Operation.startsLike_iff.mp (hother.startsLike hko)
    have hown := Operation.startsLike_iff.mp (hm.startsLike hk)
    refine hbest.le other ((h.isGroupOf hg).mem_iff.mpr ⟨ho, ?_⟩) hother
    rw [hkey, hsame, hown]
  · -- it starts with a parameter, and so all that start with a literal segment come before it
    have hop_head : (Route.pattern op.path).head? = some false := by
      rw [hm.head?_pattern, hhead, hk]
      rfl
    have hother_head : (Route.pattern other.path).head? = some true := by
      rw [hother.head?_pattern, hhead, Bool.eq_false_iff.mpr hko]
      rfl
    exact Route.patternLe_trans (hbest.le op hmem hm)
      (Route.patternLe_of_heads hop_head hother_head)

end Router

/-! ### Plans -/

namespace Plan

/-- No handler and no module has the name of a function that the generated routing code calls. -/
structure Unshadowed (plan : Plan) : Prop where
  handlers : ∀ op ∈ plan.operations, op.handler ∉ RouteGroup.called
  modules : ∀ g ∈ plan.groups, g.module ≠ "list"

theorem unshadowed_iff {plan : Plan} : plan.Unshadowed ↔
    (∀ op ∈ plan.operations, op.handler ∉ RouteGroup.called) ∧ ∀ g ∈ plan.groups, g.module ≠ "list" :=
  ⟨fun h => ⟨h.handlers, h.modules⟩, fun h => ⟨h.1, h.2⟩⟩

instance (plan : Plan) : Decidable plan.Unshadowed := decidable_of_iff' _ unshadowed_iff

theorem Unshadowed.serves {document : Value} {plan : Plan} (hun : plan.Unshadowed)
    (h : ofDocument document = .ok plan) : Router.Serves plan.operations plan.groups where
  ofOperations := ofOperations_of_ofDocument h
  handlers := fun _ hg op hop => hun.handlers op
    (((RouteGroup.isGroupOf_of_ofOperations (ofOperations_of_ofDocument h) hg).mem_iff.mp hop).1)
  modules := hun.modules

/-- A path with an operation that gets it, which has its own name as its tag. -/
def getting (origin : Nat) (id : String) : Value :=
  .mapping origin [(.text "get", .mapping (origin + 1)
    [(.text "operationId", .text id), (.text "tags", .list [.text id])])]

/-- A document with operations that get two paths. -/
def gettingTwo (path path' : String) : Value :=
  .mapping 1 [(.text "openapi", .text "3.0.0"),
    (.text "info", .mapping 2 [(.text "title", .text "T"), (.text "version", .text "1")]),
    (.text "paths", .mapping 3 [(.text path, getting 4 "first"), (.text path', getting 6 "second")])]

/-- A request that an operation matches can get a 404: its first segment is that of another operation,
which does not match. -/
theorem exists_missed : ∃ plan, ofDocument (gettingTwo "/a/x" "/{p}/y") = .ok plan ∧
    plan.Unshadowed ∧ (∃ op ∈ plan.operations, op.Matches "GET" "/a/y") ∧
    ∃ answer, Router.dispatch plan.groups "GET" "/a/y" = .ok answer ∧ answer.status = 404 := by
  have hchecked : (ofDocument (gettingTwo "/a/x" "/{p}/y")).toOption.any (fun plan =>
      decide (plan.Unshadowed ∧ (∃ op ∈ plan.operations, op.Matches "GET" "/a/y") ∧
        (Router.dispatch plan.groups "GET" "/a/y").toOption.map (·.status) = some 404)) = true := by
    decide +kernel
  obtain ⟨plan, hplan, hchecked⟩ := exists_of_any hchecked
  obtain ⟨hun, hmatch, hstatus⟩ := of_decide_eq_true hchecked
  refine ⟨plan, hplan, hun, hmatch, ?_⟩
  cases hd : Router.dispatch plan.groups "GET" "/a/y" with
  | error fault => rw [hd] at hstatus; cases hstatus
  | ok answer =>
    rw [hd] at hstatus
    exact ⟨answer, rfl, Option.some_inj.mp hstatus⟩

/-- The operation that an answer names. -/
def namedBy (answer : Route.Answer) : Option String :=
  (answer.body.member? "operationId").map Value.display

/-- Of two groups by tag the first answers, also if only the other has a most specific operation. -/
theorem exists_lessSpecific : ∃ plan, ofDocument (gettingTwo "/{a}/{b}" "/{a}/y") = .ok plan ∧
    plan.Unshadowed ∧ (∃ op ∈ plan.operations, op.Matches "GET" "/x/y") ∧
    ¬∃ best, Router.dispatch plan.groups "GET" "/x/y" = .ok (RouteGroup.placeholderAnswer best) ∧
      Route.MostSpecific plan.operations "GET" "/x/y" best := by
  have hchecked : (ofDocument (gettingTwo "/{a}/{b}" "/{a}/y")).toOption.any (fun plan =>
      decide (plan.Unshadowed ∧ (∃ op ∈ plan.operations, op.Matches "GET" "/x/y") ∧
        (∀ best ∈ plan.operations, (∀ other ∈ plan.operations, other.Matches "GET" "/x/y" →
          Route.patternLe (Route.pattern best.path) (Route.pattern other.path) = true) →
            best.operationId = "second") ∧
        (Router.dispatch plan.groups "GET" "/x/y").toOption.bind namedBy = some "first")) = true := by
    decide +kernel
  obtain ⟨plan, hplan, hchecked⟩ := exists_of_any hchecked
  obtain ⟨hun, hmatch, hsecond, hfirst⟩ := of_decide_eq_true hchecked
  refine ⟨plan, hplan, hun, hmatch, ?_⟩
  rintro ⟨best, hdispatch, hbest⟩
  have hid : best.operationId = "first" := by
    rw [hdispatch] at hfirst
    exact Option.some_inj.mp hfirst
  rw [hsecond best hbest.mem hbest.le] at hid
  exact absurd hid (by decide)

end Plan

end RouteStubs
