import RouteStubs.Proofs.Ends
import RouteStubs.Proofs.HandlerOrder
import RouteStubs.Proofs.Plan
import RouteStubs.Proofs.Route.Groups

/-!
# Names of handlers and of modules

The handlers of collected operations are named after their operations and the modules of groups after
their keys. Words among these names come from nowhere else.

## Main definitions

* `Collect.Named`: the handlers of operations have the names that the operations ask for.
* `Collect.Handled`: operations are those of a document, with the handlers that these ask for.

## Main statements

* `Collect.operations_handled`: the operations that are collected.
* `Collect.operations_named`: the handlers of collected operations.
* `Collect.Named.exists_handler_iff`: which words are names of handlers.
* `RouteGroup.exists_module_iff`: which words are names of modules.
-/

namespace RouteStubs

/-! ### Handlers -/

/-- What is worked out for the items of a list belongs to them one by one. -/
theorem forall₂_of_mapM {α β : Type} {f : α → Except Fault β} {as : List α} {bs : List β}
    (h : as.mapM f = .ok bs) : List.Forall₂ (fun a b => f a = .ok b) as bs := by
  induction as generalizing bs with
  | nil =>
    rw [List.mapM_nil] at h
    cases h
    exact .nil
  | cons a rest ih =>
    rw [List.mapM_cons] at h
    cases ha : f a with
    | error fault => rw [ha] at h; cases h
    | ok b =>
      cases hr : rest.mapM f with
      | error fault => rw [ha, hr] at h; cases h
      | ok others =>
        rw [ha, hr] at h
        cases h
        exact .cons ha (ih hr)

theorem mem_iff_of_mapM {α β : Type} {f : α → Except Fault β} {as : List α} {bs : List β} {b : β}
    (h : as.mapM f = .ok bs) : b ∈ bs ↔ ∃ a ∈ as, f a = .ok b := by
  have hrel := forall₂_of_mapM h
  clear h
  induction hrel with
  | nil => simp
  | cons head _ ih => simp [ih, head, eq_comm]

namespace Collect

variable {d : Draft} {ops : List Operation} {name : String}

/-- The methods of operations are known, and their handlers have the names that the operations ask
for, made distinct. -/
structure Named (ops : List Operation) : Prop where
  methods : ∀ op ∈ ops, op.method ∈ Collect.methods
  handlers : ∃ names, (ops.map (·.operationId)).mapM (fun id => Name.handlerStyle id "handler") =
      .ok names ∧
    ops.map (·.handler) = HandlerName.distinct (names.zip (ops.map (·.method)))

theorem method_mem_of_operationsOfPath {path : String} {item : Value} {raw : RawOperation}
    (h : raw ∈ operationsOfPath path item) : raw.method ∈ methods := by
  unfold operationsOfPath at h
  split at h
  · obtain ⟨method, hm, hraw⟩ := List.mem_filterMap.mp h
    split at hraw
    · cases hraw
      exact hm
    · cases hraw
  · cases h

theorem method_mem_of_rawOperations {paths : Value} {raws : List RawOperation}
    (h : rawOperations paths = .ok raws) : ∀ raw ∈ raws, raw.method ∈ methods := by
  unfold rawOperations at h
  split at h
  · cases h
    intro raw hraw
    obtain ⟨entry, -, hmem⟩ := List.mem_flatMap.mp hraw
    exact method_mem_of_operationsOfPath hmem
  · cases h

/-- An operation keeps its path and its method and has the name and the handler that it is added
with. -/
theorem addOperation_ends (raw : RawOperation) (operationId handler : String) (d : Draft) :
    (addOperation raw operationId handler).Ends d (fun op _ => op.path = raw.path ∧
      op.method = raw.method ∧ op.operationId = operationId ∧ op.handler = handler)
      fun _ _ => True := by
  unfold addOperation
  -- whatever the parts of the operation are
  repeat refine Step.ends_bind.mpr (Step.ends_of_forall (fun _ _ => ?_) fun _ _ => trivial)
  exact Step.ends_pure _ |>.mpr ⟨rfl, rfl, rfl, rfl⟩

theorem addOperations_ends (raws : List (RawOperation × String × String)) (d : Draft) :
    (addOperations raws).Ends d (fun ops _ => ops.map (·.path) = raws.map (·.1.path) ∧
      ops.map (·.method) = raws.map (·.1.method) ∧ ops.map (·.operationId) = raws.map (·.2.1) ∧
      ops.map (·.handler) = raws.map (·.2.2)) fun _ _ => True := by
  induction raws generalizing d with
  | nil => exact ⟨rfl, rfl, rfl, rfl⟩
  | cons first rest ih =>
    obtain ⟨raw, operationId, handler⟩ := first
    rw [addOperations, Step.ends_bind]
    apply (addOperation_ends raw operationId handler d).imp_ok
    rintro op d₁ ⟨hpath, hmethod, hid, hhandler⟩
    rw [Step.ends_bind]
    apply (ih d₁).imp_ok
    rintro ops d₂ ⟨hpaths, hmethods, hids, hhandlers⟩
    rw [Step.ends_pure]
    simp only [List.map_cons, hpath, hmethod, hid, hhandler, hpaths, hmethods, hids, hhandlers,
      and_self]

/-- The operations `ops` are those of a document, `raws`, one by one, and their handlers have the
names that these ask for, made distinct. -/
structure Handled (raws : List RawOperation) (ops : List Operation) : Prop where
  paths : ops.map (·.path) = raws.map (·.path)
  methods : ops.map (·.method) = raws.map (·.method)
  ids : ops.map (·.operationId) = raws.map RawOperation.operationId
  handlers : ∃ names, (raws.map RawOperation.operationId).mapM
      (fun id => Name.handlerStyle id "handler") = .ok names ∧
    ops.map (·.handler) = HandlerName.distinct (names.zip (raws.map (·.method)))

/-- There are as many handlers as operations. -/
theorem length_handlers {raws : List RawOperation} {names : List String}
    (hnames : (raws.map RawOperation.operationId).mapM (fun id => Name.handlerStyle id "handler") =
      .ok names) :
    (HandlerName.distinct (names.zip (raws.map (·.method)))).length = raws.length := by
  have hlenNames : names.length = raws.length :=
    (forall₂_of_mapM hnames).length_eq.symm.trans (List.length_map ..)
  rw [HandlerName.length_distinct, List.length_zip, hlenNames, List.length_map, Nat.min_self]

/-- No operation is lost where names and handlers are put beside them. -/
theorem fst_zip_handlers {raws : List RawOperation} {names : List String}
    (hnames : (raws.map RawOperation.operationId).mapM (fun id => Name.handlerStyle id "handler") =
      .ok names) :
    (raws.zip ((raws.map RawOperation.operationId).zip
      (HandlerName.distinct (names.zip (raws.map (·.method)))))).map Prod.fst = raws := by
  refine List.map_fst_zip (Nat.le_of_eq ?_)
  rw [List.length_zip, length_handlers hnames, List.length_map, Nat.min_self]

/-- The operations that are collected are those of the document. -/
theorem operations_handled (d : Draft) :
    operations.Ends d (fun ops _ => ∃ paths raws, Document.paths d.document = .ok paths ∧
      rawOperations paths = .ok raws ∧ Handled raws ops) fun _ _ => True := by
  unfold operations
  simp only [Step.ends_bind, Step.ends_get, Step.ends_ofExcept, implies_true, and_true]
  intro paths hpaths raws hraws names hnames
  apply (addOperations_ends _ d).imp_ok
  rintro ops d' ⟨hopPaths, hmethods, hids, hhandlers⟩
  set ids := raws.map RawOperation.operationId
  set handlers := HandlerName.distinct (names.zip (raws.map (·.method))) with hdistinct
  have hlenIds : ids.length = raws.length := List.length_map ..
  have hlenHandlers : handlers.length = raws.length := length_handlers hnames
  have hfst : (raws.zip (ids.zip handlers)).map Prod.fst = raws := fst_zip_handlers hnames
  have hsnd : (raws.zip (ids.zip handlers)).map Prod.snd = ids.zip handlers := by
    refine List.map_snd_zip (Nat.le_of_eq ?_)
    rw [List.length_zip, hlenIds, hlenHandlers, Nat.min_self]
  refine ⟨paths, raws, hpaths, hraws, ?_, ?_, ?_, names, hnames, ?_⟩
  · rw [hopPaths, ← congrArg (List.map (·.path)) hfst, List.map_map]
    rfl
  · rw [hmethods, ← congrArg (List.map (·.method)) hfst, List.map_map]
    rfl
  · calc ops.map (·.operationId)
        = ((raws.zip (ids.zip handlers)).map Prod.snd).map Prod.fst := by
          rw [hids, List.map_map]
          rfl
      _ = ids := by rw [hsnd, List.map_fst_zip (by omega)]
  · calc ops.map (·.handler)
        = ((raws.zip (ids.zip handlers)).map Prod.snd).map Prod.snd := by
          rw [hhandlers, List.map_map]
          rfl
      _ = handlers := by rw [hsnd, List.map_snd_zip (by omega)]

/-- The operations that are collected have the handlers that they ask for. -/
theorem operations_named (d : Draft) :
    operations.Ends d (fun ops _ => Named ops) fun _ _ => True := by
  apply (operations_handled d).imp_ok
  rintro ops d' ⟨paths, raws, -, hraws, hhandled⟩
  obtain ⟨names, hnames, hhandlers⟩ := hhandled.handlers
  constructor
  · intro op hop
    obtain ⟨raw, hraw, hmethod⟩ := List.mem_map.mp (hhandled.methods ▸ List.mem_map_of_mem hop)
    exact hmethod ▸ method_mem_of_rawOperations hraws raw hraw
  · exact ⟨names, hhandled.ids ▸ hnames, hhandled.methods ▸ hhandlers⟩

/-- A word that is not reserved is the name of a handler exactly when an operation asks for it. -/
theorem Named.exists_handler_iff (h : Named ops) (hw : Name.IsWord name)
    (hr : name ∉ HandlerName.reserved) : (∃ op ∈ ops, op.handler = name) ↔
      ∃ op ∈ ops, Name.handlerStyle op.operationId "handler" = .ok name := by
  obtain ⟨names, hnames, hhandlers⟩ := h.handlers
  have hlen : names.length ≤ (ops.map (·.method)).length := by
    simp [← (forall₂_of_mapM hnames).length_eq]
  rw [← List.mem_map, hhandlers, HandlerName.mem_distinct_iff hw hr, List.map_fst_zip hlen,
    mem_iff_of_mapM hnames]
  simp only [List.mem_map, exists_exists_and_eq_and]

/-- Handlers are distinct names for names in their style with methods. -/
theorem Named.exists_pairs (h : Named ops) :
    ∃ pairs, ops.map (·.handler) = HandlerName.distinct pairs ∧
      ∀ pair ∈ pairs, (∃ id, Name.handlerStyle id "handler" = .ok pair.1) ∧
        ∀ c ∈ pair.2.toList, Name.isSegmentChar c = true := by
  have hmethods : ∀ method ∈ Collect.methods, method.toList.all Name.isSegmentChar = true := by decide
  obtain ⟨names, hnames, hhandlers⟩ := h.handlers
  refine ⟨_, hhandlers, fun (name, method) hpair => ?_⟩
  obtain ⟨hname, hmethod⟩ := List.of_mem_zip hpair
  obtain ⟨id, -, hstyle⟩ := (mem_iff_of_mapM hnames).mp hname
  obtain ⟨op, hop, rfl⟩ := List.mem_map.mp hmethod
  exact ⟨⟨id, hstyle⟩, List.all_eq_true.mp (hmethods op.method (h.methods op hop))⟩

/-- Handlers have names of small letters, digits and underscores. -/
theorem Named.isSegmentChar_handler (h : Named ops) {op : Operation} (hop : op ∈ ops) :
    ∀ c ∈ op.handler.toList, Name.isSegmentChar c = true := by
  obtain ⟨pairs, hhandlers, hpairs⟩ := h.exists_pairs
  refine HandlerName.isSegmentChar_of_mem_distinct (fun pair hpair => ?_) op.handler
    (hhandlers ▸ List.mem_map_of_mem hop)
  obtain ⟨⟨id, hstyle⟩, hmethod⟩ := hpairs pair hpair
  exact ⟨Name.isSegmentChar_of_handlerStyle (List.all_eq_true.mp (by decide)) hstyle, hmethod⟩

/-- No two operations have one handler. -/
theorem Named.nodup_handlers (h : Named ops) : (ops.map (·.handler)).Nodup := by
  obtain ⟨names, -, hhandlers⟩ := h.handlers
  rw [hhandlers]
  exact HandlerName.nodup_distinct _

/-- No handler has a reserved name. -/
theorem Named.handler_notMem_reserved (h : Named ops) {op : Operation} (hop : op ∈ ops) :
    op.handler ∉ HandlerName.reserved := by
  obtain ⟨names, -, hhandlers⟩ := h.handlers
  apply HandlerName.notMem_reserved
  rw [← hhandlers]
  exact List.mem_map_of_mem hop

end Collect

/-- The operations of a plan have the handlers that they ask for. -/
theorem Plan.named_of_ofDocument {document : Value} {plan : Plan}
    (h : Plan.ofDocument document = .ok plan) : Collect.Named plan.operations := by
  obtain ⟨d, hrun⟩ := Plan.collect_of_ofDocument h
  have hends : Plan.collect.Ends (Draft.start document TypesModule.reservedNames)
      (fun result _ => Collect.Named result.1) fun _ _ => True := by
    unfold Plan.collect
    refine Step.ends_bind.mpr (Step.ends_of_forall (fun _ d₁ => ?_) fun _ _ => trivial)
    rw [Step.ends_bind]
    apply (Collect.operations_named d₁).imp_ok
    intro ops d₂ hnamed
    exact Step.ends_bind.mpr (Step.ends_of_forall (fun _ _ => hnamed) fun _ _ => trivial)
  exact hends.of_ok hrun

/-! ### Modules -/

namespace RouteGroup

variable {ops : List Operation} {groups : List RouteGroup} {taken keys : List String}
  {key name : String}

/-- The name of a module before it is made fresh: the style of the key, and more if that is reserved. -/
def moduleBase (style : String) : String :=
  if reservedModules.contains style then style ++ "_routes" else style

theorem moduleFor_eq_ok_iff : moduleFor key taken = .ok name ↔
    ∃ style, Name.handlerStyle key defaultKey = .ok style ∧
      name = Name.fresh (moduleBase style) taken := by
  unfold moduleFor
  cases Name.handlerStyle key defaultKey with
  | error fault => exact ⟨nofun, fun ⟨_, h, _⟩ => by cases h⟩
  | ok style =>
    constructor
    · rintro ⟨⟩
      exact ⟨style, rfl, rfl⟩
    · rintro ⟨_, ⟨⟩, rfl⟩
      rfl

theorem moduleFor_notMem (h : moduleFor key taken = .ok name) : name ∉ taken := by
  obtain ⟨style, -, rfl⟩ := moduleFor_eq_ok_iff.mp h
  exact Name.fresh_notMem _ _

theorem isSegmentChar_of_mem_moduleBase {style : String}
    (h : ∀ c ∈ style.toList, Name.isSegmentChar c = true) :
    ∀ c ∈ (moduleBase style).toList, Name.isSegmentChar c = true := by
  have hadded : ∀ c ∈ "_routes".toList, Name.isSegmentChar c = true :=
    List.all_eq_true.mp (by decide)
  unfold moduleBase
  split
  · rw [String.toList_append]
    exact List.forall_mem_append.mpr ⟨h, hadded⟩
  · exact h

/-- The name of a module is made of small letters, digits and underscores. -/
theorem isSegmentChar_of_moduleFor (h : moduleFor key taken = .ok name) :
    ∀ c ∈ name.toList, Name.isSegmentChar c = true := by
  obtain ⟨style, hstyle, rfl⟩ := moduleFor_eq_ok_iff.mp h
  have hchars := Name.isSegmentChar_of_handlerStyle (List.all_eq_true.mp (by decide)) hstyle
  exact fun c hc => Name.isSegmentChar_of_fresh (isSegmentChar_of_mem_moduleBase hchars) hc

/-- A word is the name of a module only if the key asks for it. -/
theorem handlerStyle_of_moduleFor (hw : Name.IsWord name) (h : moduleFor key taken = .ok name) :
    Name.handlerStyle key defaultKey = .ok name := by
  obtain ⟨style, hstyle, hfresh⟩ := moduleFor_eq_ok_iff.mp h
  have hbase : moduleBase style = name := hw.eq_of_fresh hfresh.symm
  unfold moduleBase at hbase
  split at hbase
  · exact absurd hbase (hw.ne_of_underscore (by simp))
  · rw [hstyle, hbase]

/-- A word that is free is the name of the module of the first key that asks for it. -/
theorem moduleFor_of_handlerStyle (hr : name ∉ reservedModules)
    (h : Name.handlerStyle key defaultKey = .ok name) (hf : name ∉ taken) :
    moduleFor key taken = .ok name := by
  have hbase : moduleBase name = name := if_neg (by simpa using hr)
  refine moduleFor_eq_ok_iff.mpr ⟨name, h, ?_⟩
  rw [hbase, Name.fresh, if_neg (by simpa using hf)]

theorem exists_moduleFor (h : ofKeys ops taken keys = .ok groups) :
    ∀ g ∈ groups, ∃ others, taken ⊆ others ∧ moduleFor g.key others = .ok g.module := by
  induction keys generalizing taken groups with
  | nil =>
    cases h
    exact List.forall_mem_nil _
  | cons key rest ih =>
    obtain ⟨module, others, hmodule, hothers, rfl⟩ := ofKeys_cons_eq_ok.mp h
    refine List.forall_mem_cons.mpr ⟨⟨taken, List.Subset.refl _, hmodule⟩, fun g hg => ?_⟩
    obtain ⟨more, hsub, hg⟩ := ih hothers g hg
    exact ⟨more, fun name hm => hsub (List.mem_cons_of_mem _ hm), hg⟩

theorem exists_module_of_ofKeys (h : ofKeys ops taken keys = .ok groups) (hw : Name.IsWord name)
    (hr : name ∉ reservedModules) (hf : name ∉ taken) : (∃ g ∈ groups, g.module = name) ↔
      ∃ key ∈ keys, Name.handlerStyle key defaultKey = .ok name := by
  induction keys generalizing taken groups with
  | nil =>
    cases h
    simp
  | cons key rest ih =>
    obtain ⟨module, others, hmodule, hothers, rfl⟩ := ofKeys_cons_eq_ok.mp h
    have hfirst : (groupOf ops key module).module = module := rfl
    simp only [List.exists_mem_cons_iff, hfirst]
    by_cases hname : module = name
    · simp only [hname, true_or, true_iff]
      exact .inl (handlerStyle_of_moduleFor hw (hname ▸ hmodule))
    · -- then the first key does not ask for it
      have hkey : Name.handlerStyle key defaultKey ≠ .ok name := by
        intro hstyle
        rw [moduleFor_of_handlerStyle hr hstyle hf] at hmodule
        exact hname (Except.ok.inj hmodule).symm
      have hf' : name ∉ module :: taken := by simp [hf, Ne.symm hname]
      simp only [hname, hkey, false_or, ih hothers hf']

/-- No module has a reserved name. -/
theorem module_notMem_reserved (h : ofOperations ops = .ok groups) {g : RouteGroup}
    (hg : g ∈ groups) : g.module ∉ reservedModules := by
  obtain ⟨taken, hsub, hmodule⟩ := exists_moduleFor h g hg
  exact fun hm => moduleFor_notMem hmodule (hsub hm)

theorem isSegmentChar_of_module (h : ofOperations ops = .ok groups) {g : RouteGroup}
    (hg : g ∈ groups) : ∀ c ∈ g.module.toList, Name.isSegmentChar c = true := by
  obtain ⟨taken, -, hmodule⟩ := exists_moduleFor h g hg
  exact isSegmentChar_of_moduleFor hmodule

/-- A word that is not reserved is the name of a module exactly when the key of an operation asks for
it. -/
theorem exists_module_iff (h : ofOperations ops = .ok groups) (hw : Name.IsWord name)
    (hr : name ∉ reservedModules) : (∃ g ∈ groups, g.module = name) ↔
      ∃ op ∈ ops, Name.handlerStyle (keyOf op).1 defaultKey = .ok name := by
  rw [exists_module_of_ofKeys h hw hr hr]
  simp only [mem_keys_iff, exists_exists_and_eq_and]

end RouteGroup

end RouteStubs
