import RouteStubs.Proofs.Route.Partition

/-!
# Handlers of collected operations

The operations of a document get handlers that can be defined side by side in one module: identifiers
that are no keywords, all different, and none of them a name of the module. Operations that a document
gains at its end get new ones and leave the others as they are.

## Main statements

* `HandlerName.legal_of_mem_distinct`: distinct names of handlers are legal.
* `Collect.Named.legal_handler`: so are the handlers of operations.
* `Collect.Named.handlers_prefix`: handlers are kept when operations are added at the end.
* `Collect.operations_handlers`: the handlers of collected operations.
-/

namespace RouteStubs

/-! ### Names that can stand in code -/

namespace HandlerName

open Name (Spelled Legal IsNameChar)

variable {name : String} {pairs : List (String × String)}

/-- Distinct names of handlers are legal, as long as the names that are asked for are, and the methods
are made of characters of names. -/
theorem legal_of_mem_distinct
    (h : ∀ pair ∈ pairs, (Spelled pair.1.toList ∧ pair.1 ∉ Text.keywords) ∧
      ∀ c ∈ pair.2.toList, IsNameChar c) : ∀ name ∈ distinct pairs, Legal name := by
  intro name hname
  obtain ⟨⟨base, method⟩, hpair, hgiven⟩ := exists_of_mem_distinct hname
  obtain ⟨⟨hbase, hkeyword⟩, hmethod⟩ := h _ hpair
  have hadded : Spelled (base ++ "_" ++ method).toList := by
    rw [String.toList_append, String.toList_append]
    refine (hbase.append fun c hc => .inr ?_).append hmethod
    exact List.mem_singleton.mp hc
  rcases hgiven with rfl | rfl | ⟨k, rfl | rfl⟩
  · have hlegal := hbase.legal (String.ofList_toList ▸ hkeyword)
    rwa [String.ofList_toList] at hlegal
  · have hno : base ++ "_" ++ method ∉ Text.keywords := Name.notMem_keywords_of_underscore (by simp)
    have hlegal := hadded.legal (String.ofList_toList ▸ hno)
    rwa [String.ofList_toList] at hlegal
  · exact Name.legal_numbered hbase k
  · exact Name.legal_numbered hadded k

end HandlerName

/-! ### Operations -/

namespace Collect

open HandlerName (distinct)

variable {ops others : List Operation}

/-- Handlers have names that are legal. -/
theorem Named.legal_handler (h : Named ops) {op : Operation} (hop : op ∈ ops) :
    Name.Legal op.handler := by
  obtain ⟨pairs, hhandlers, hpairs⟩ := h.exists_pairs
  refine HandlerName.legal_of_mem_distinct (fun pair hpair => ?_) op.handler
    (hhandlers ▸ List.mem_map_of_mem hop)
  obtain ⟨⟨id, hstyle⟩, hmethod⟩ := hpairs pair hpair
  exact ⟨Name.spelled_handlerStyle (List.all_eq_true.mp (by decide)) hstyle,
    fun c hc => Name.isNameChar_of_isSegmentChar (hmethod c hc)⟩

/-- Handlers are kept when there are more operations at the end. -/
theorem Named.handlers_prefix (h : Named ops) (h' : Named others)
    (hp : ops.map (fun op => (op.operationId, op.method)) <+:
      others.map fun op => (op.operationId, op.method)) :
    ops.map (·.handler) <+: others.map (·.handler) := by
  obtain ⟨more, hmore⟩ := hp
  have hids : others.map (·.operationId) = ops.map (·.operationId) ++ more.map Prod.fst := by
    have heq := congrArg (List.map Prod.fst) hmore
    simpa only [List.map_append, List.map_map, Function.comp_def] using heq.symm
  have hmethods : others.map (·.method) = ops.map (·.method) ++ more.map Prod.snd := by
    have heq := congrArg (List.map Prod.snd) hmore
    simpa only [List.map_append, List.map_map, Function.comp_def] using heq.symm
  obtain ⟨names, hnames, hhandlers⟩ := h.handlers
  obtain ⟨names', hnames', hhandlers'⟩ := h'.handlers
  -- the names that are asked for go on as the operations do
  obtain ⟨later, rfl⟩ : ∃ later, names' = names ++ later := by
    rw [hids, List.mapM_append, hnames] at hnames'
    cases hl : (more.map Prod.fst).mapM fun id => Name.handlerStyle id "handler" with
    | error fault => rw [hl] at hnames'; cases hnames'
    | ok later =>
      rw [hl] at hnames'
      cases hnames'
      exact ⟨later, rfl⟩
  have hlen : names.length = (ops.map (·.method)).length := by
    simp [← (forall₂_of_mapM hnames).length_eq]
  rw [hhandlers, hhandlers', hmethods, List.zip_append hlen]
  exact HandlerName.distinct_prefix _ _

/-- The handlers of collected operations. Each operation of the document gets one, and has the place
in the list that it has among the operations: it is the name that the operation asks for, made distinct
from those before. They are legal, all different, and none is reserved. Names for a longer list go on
from those for its front, so operations that are added at the end rename no handler. -/
theorem operations_handlers :
    (∀ (d d' : Draft) (ops : List Operation), operations.runFrom d = (.ok ops, d') →
      (∃ paths raws, Document.paths d.document = .ok paths ∧ rawOperations paths = .ok raws ∧
        Handled raws ops) ∧
      (ops.map (·.handler)).Nodup ∧
      ∀ op ∈ ops, Name.Legal op.handler ∧ op.handler ∉ HandlerName.reserved) ∧
    (∀ before after, distinct before <+: distinct (before ++ after)) ∧
    ∀ (d d' e e' : Draft) (ops others : List Operation), operations.runFrom d = (.ok ops, d') →
      operations.runFrom e = (.ok others, e') →
      ops.map (fun op => (op.operationId, op.method)) <+:
        others.map (fun op => (op.operationId, op.method)) →
      ops.map (·.handler) <+: others.map (·.handler) := by
  refine ⟨fun d d' ops h => ?_, HandlerName.distinct_prefix, fun d d' e e' ops others h h' => ?_⟩
  · have hnamed : Named ops := (operations_named d).of_ok h
    refine ⟨(operations_handled d).of_ok h, hnamed.nodup_handlers, fun op hop => ?_⟩
    exact ⟨hnamed.legal_handler hop, hnamed.handler_notMem_reserved hop⟩
  · have hnamed : Named ops := (operations_named d).of_ok h
    have hnamed' : Named others := (operations_named e).of_ok h'
    exact hnamed.handlers_prefix hnamed'

/-- A document with two operations whose names are one in the style of handlers, and with other
paths. -/
def gettingTwice (others : Entries) : Value :=
  .mapping 1 [(.text "paths", .mapping 2 ([
    (.text "/a", .mapping 3 [(.text "get", .mapping 4 [(.text "operationId", .text "petId")])]),
    (.text "/b", .mapping 5 [(.text "get", .mapping 6 [(.text "operationId", .text "pet_id")])])]
      ++ others))]

/-- One more path, whose operation asks for the name that the second of the others has got. -/
def gettingOnce : Entries :=
  [(.text "/c", .mapping 7 [(.text "get", .mapping 8 [(.text "operationId", .text "petIdGet")])])]

theorem exists_operations_of_any {d : Draft} {test : List Operation → Bool}
    (h : (operations.runFrom d).1.toOption.any test = true) :
    ∃ ops d', operations.runFrom d = (.ok ops, d') ∧ test ops = true := by
  cases hrun : operations.runFrom d with
  | mk result d' =>
    rw [hrun] at h
    cases result with
    | error fault => cases h
    | ok ops => exact ⟨ops, d', rfl, h⟩

/-- With the third operation the first two keep their handlers. -/
theorem operations_handlers_twice : ∃ ops d' others e',
    operations.runFrom (Draft.start (gettingTwice []) []) = (.ok ops, d') ∧
    operations.runFrom (Draft.start (gettingTwice gettingOnce) []) = (.ok others, e') ∧
    others.map (·.handler) = ["pet_id", "pet_id_get", "pet_id_get2"] ∧
    (others.map (·.handler)).Nodup ∧
    (∀ op ∈ others, Name.Legal op.handler ∧ op.handler ∉ HandlerName.reserved) ∧
    distinct [("match", "get")] <+: distinct ([("match", "get")] ++ [("match_get", "get")]) ∧
    ops.map (·.handler) <+: others.map (·.handler) := by
  have hchecked : (operations.runFrom (Draft.start (gettingTwice []) [])).1.toOption.any (fun ops =>
      ops.map (fun op => (op.operationId, op.method)) == [("petId", "get"), ("pet_id", "get")]) =
        true := by decide +kernel
  have hchecked' : (operations.runFrom (Draft.start (gettingTwice gettingOnce) [])).1.toOption.any
      (fun ops => ops.map (fun op => (op.operationId, op.method)) ==
          [("petId", "get"), ("pet_id", "get"), ("petIdGet", "get")] &&
        ops.map (·.handler) == ["pet_id", "pet_id_get", "pet_id_get2"]) = true := by decide +kernel
  obtain ⟨ops, d', hrun, hids⟩ := exists_operations_of_any hchecked
  obtain ⟨others, e', hrun', hothers⟩ := exists_operations_of_any hchecked'
  rw [Bool.and_eq_true, beq_iff_eq, beq_iff_eq] at hothers
  obtain ⟨hids', hhandlers⟩ := hothers
  obtain ⟨hall, hlists, hgrown⟩ := operations_handlers
  obtain ⟨-, hnodup, hlegal⟩ := hall _ _ _ hrun'
  refine ⟨ops, d', others, e', hrun, hrun', hhandlers, hnodup, hlegal, hlists _ _,
    hgrown _ _ _ _ _ _ hrun hrun' ?_⟩
  rw [eq_of_beq hids, hids']
  exact ⟨[("petIdGet", "get")], rfl⟩

end Collect

end RouteStubs
