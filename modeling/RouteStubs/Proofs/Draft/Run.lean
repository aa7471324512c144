import RouteStubs.Plan
import RouteStubs.Proofs.Draft.Components
import RouteStubs.Proofs.Draft.Operations

/-!
# Runs of the collection

After the components have been added, schemas of operations and declarations of their parameters
and responses are added in any order, and references of the document are looked up in between. The
operations of a document are collected by such a run.

## Main definitions

* `Draft.Run`: the drafts that are reached by such steps.
* `Draft.Collected`: the drafts that are reached from a document.

## Main statements

* `Draft.Run.ready`: a run keeps the invariant and only adds to the draft.
* `Plan.collected_of_collect`: operations are collected by a run.
-/

namespace RouteStubs

namespace Draft

variable {free : FreeKeys} {document : Value} {d d' d'' : Draft} {key : String}

/-- The draft is reached by adding schemas and declarations under free keys, and by looking up what
values stand for. -/
inductive Run (free : FreeKeys) (d : Draft) : Draft → Prop
  | refl : Run free d d
  | inline {d₁ d₂ : Draft} {schema : Value} {name key : String} {node : Shape} (h : Run free d d₁)
      (hk : free.Has key) (hs : (addInline schema name key).runFrom d₁ = (.ok node, d₂)) :
      Run free d d₂
  | envelope {d₁ d₂ : Draft} {name key description id : String} {node : Shape}
      (h : Run free d d₁) (hk : free.Has key)
      (hs : (addEnvelope name node key description).runFrom d₁ = (.ok id, d₂)) : Run free d d₂
  | lookup {d₁ d₂ : Draft} {v found : Value} (h : Run free d d₁)
      (hs : (onResolver (Resolver.resolveNode v)).runFrom d₁ = (.ok found, d₂)) : Run free d d₂

/-! ### The invariant along a run -/

theorem Ready.lookup (h : d.Ready free document) (v : Value) :
    (onResolver (Resolver.resolveNode v)).Ends d
      (fun found d' => d.Grows d' ∧ d'.Ready free document ∧ d'.registry = d.registry ∧
        d'.nodes = d.nodes ∧ d'.bySource = d.bySource ∧ (found = v ∨ Value.Part found document))
      fun _ _ => True := by
  simp only [onResolver, onProgress, Progress.onResolver, Step.ends_within]
  apply (Resolver.resolveNode_ends h.drafted.walked.recalls v).forget
  rintro found r ⟨hr, hc, hfound⟩
  have he : Registry.naming.Extends d.progress { d.progress with resolver := r } :=
    ⟨.refl, hr.document_eq.trans h.drafted.walked.recalls.document_eq.symm, hc, List.prefix_refl _⟩
  have hg : d.Grows { d with progress := { d.progress with resolver := r } } :=
    ⟨.refl, he.document_eq, List.prefix_refl _, fun _ _ h => h, fun _ _ h => h⟩
  have hd := h.drafted.of_grows hg (h.drafted.walked.of_extends he rfl hr)
    (hc.trans h.drafted.chain) rfl rfl
  exact ⟨hg, ⟨hd, h.full, h.done⟩, rfl, trivial, trivial, hfound⟩

theorem Ready.envelope (h : d.Ready free document) (hk : free.Has key) (name : String)
    (node : Shape) (description : String) :
    (addEnvelope name node key description).Ends d
      (fun id d' => d.Grows d' ∧ d'.Ready free document ∧ Name.Styled id ∧ id ∉ d.registry.taken ∧
        d'.registry = d.registry.add ⟨id, key, .envelope⟩ ∧
        d'.nodes = Keyed.put d.nodes id node ∧ d'.bySource = d.bySource)
      fun _ _ => True := by
  simp only [addEnvelope, onRegistry, onProgress, Progress.onNames, Step.ends_bind,
    Step.ends_within, Step.ends_modify, Step.ends_pure]
  apply (Registry.reserve_ends d.registry key name .envelope).forget
  rintro id _ ⟨hid, rfl⟩
  have fresh := hid.notMem_taken
  let g : Given := ⟨id, key, .envelope⟩
  let d₁ : Draft := { d with progress := { d.progress with names := d.registry.add g } }
  have hadd : d.registry.Grows (fun _ => True) (d.registry.add g) :=
    .add .refl fresh trivial fun horigin => by cases horigin
  have hg₁ : d.Grows d₁ := ⟨hadd, rfl, List.prefix_refl _, fun _ _ h => h, fun _ _ h => h⟩
  have hd₁ : d₁.Drafted free document := h.drafted.of_grows hg₁
    (h.drafted.walked.of_grows hadd h.drafted.chain) h.drafted.chain rfl rfl
  have hnone : d.nodes.lookup id = none := lookup_nodes_of_fresh h.drafted fresh
  have hg₂ := hg₁.trans (grows_fill (d := d₁) hnone node)
  have hd₂ : (fill g.id node d₁).Drafted free document :=
    hd₁.of_fill (by simp [d₁, registry]) hnone hk fun s hs =>
      absurd hs (lookup_bySource_of_fresh h.drafted fresh s)
  -- only the name of the declaration itself is new, and it is filled in at once
  have hfilled : ∀ g' ∈ (d.registry.add g).given, g' ∈ d.registry.given ∨
      ((fill g.id node d₁).nodes.lookup g'.id).isSome := by
    intro g' hg'
    rw [Registry.given_add, List.mem_append, List.mem_singleton] at hg'
    exact hg'.imp (fun h => h) fun h => by simp [h]
  have hg₃ := hg₂.trans (grows_describe id description _)
  refine ⟨hg₃, ⟨hd₂.of_describe _ _, fun g' hg' ho => ?_, fun g' hg' hs => ?_⟩, hid.styled, fresh,
    rfl, rfl, rfl⟩
  · exact (hfilled g' hg').elim (fun hg' => isSome_lookup_nodes hg₃ (h.full g' hg' ho)) fun h => h
  · exact (hfilled g' hg').elim (fun hg' => isSome_lookup_nodes hg₃ (h.done g' hg' hs)) fun h => h

theorem Run.ready (h : Run free d d') (hd : d.Ready free document) :
    d.Grows d' ∧ d'.Ready free document := by
  induction h with
  | refl => exact ⟨.refl d, hd⟩
  | @inline d₁ d₂ schema name key node _ hk hs ih =>
    obtain ⟨hg, hd₁⟩ := ih
    obtain ⟨hg', hd₂, -⟩ := (addInline_ends hd₁ hk schema name).of_ok hs
    exact ⟨hg.trans hg', hd₂⟩
  | @envelope d₁ d₂ name key description id node _ hk hs ih =>
    obtain ⟨hg, hd₁⟩ := ih
    obtain ⟨hg', hd₂, -⟩ := (hd₁.envelope hk name node description).of_ok hs
    exact ⟨hg.trans hg', hd₂⟩
  | @lookup d₁ d₂ v found _ hs ih =>
    obtain ⟨hg, hd₁⟩ := ih
    obtain ⟨hg', hd₂, -⟩ := (hd₁.lookup v).of_ok hs
    exact ⟨hg.trans hg', hd₂⟩

/-- The draft is reached from a document by adding its components and then by a run. -/
def Collected (free : FreeKeys) (document : Value) (reserved : List String) (d : Draft) : Prop :=
  ∃ d₁, addComponents.runFrom (start document reserved) = (.ok (), d₁) ∧ Run free d₁ d

theorem Collected.ready {reserved : List String} (h : Collected free document reserved d) :
    (start document reserved).Grows d ∧ d.Ready free document := by
  obtain ⟨d₁, hc, hr⟩ := h
  obtain ⟨hg₁, hd₁, -⟩ := (addComponents_ends (drafted_start free document reserved)
    (onlyReferences_start document reserved)).of_ok hc
  obtain ⟨hg, hd⟩ := hr.ready hd₁
  exact ⟨hg₁.trans hg, hd⟩

/-! ### The table -/

/-- The declaration of a name. -/
def declarationOf (d : Draft) (g : Given) : Declaration where
  id := g.id
  node := (d.nodes.lookup g.id).getD .unknown
  key := g.key
  origin := g.origin
  description := (d.descriptions.lookup g.id).getD ""

/-- Where all known shapes are filled in, nothing is left to be done. -/
theorem fillPending_of_done {names : List Given}
    (h : ∀ g ∈ names, (d.progress.definitions.find? g.id).isSome → (d.nodes.lookup g.id).isSome) :
    (fillPending names).runFrom d = (.ok (), d) := by
  induction names with
  | nil => rfl
  | cons g rest ih =>
    obtain ⟨hg, hrest⟩ := List.forall_mem_cons.mp h
    rw [fillPending, Step.runFrom_bind, Step.runFrom_get]
    dsimp only
    split
    · next hnone hdef =>
      rw [hnone, hdef] at hg
      exact absurd (hg rfl) Bool.false_ne_true
    · exact ih hrest

/-- Where all known shapes are filled in, the table is read off, and the draft stays as it is. -/
theorem build_of_done (h : ∀ g ∈ d.registry.given,
      (d.progress.definitions.find? g.id).isSome → (d.nodes.lookup g.id).isSome) :
    build.runFrom d = (.ok ⟨d.registry.given.map d.declarationOf, d.registry.index⟩, d) := by
  simp only [build, fillAll, Step.runFrom_bind, Step.runFrom_get, fillPending_of_done h]
  rfl

/-- The table has a declaration for each name that was given. -/
theorem build_ends (hd : d.Ready free document) :
    build.Ends d
      (fun table d' => d.Fills d' ∧ d'.Ready free document ∧
        table = ⟨d'.registry.given.map d'.declarationOf, d'.registry.index⟩)
      fun _ _ => True := by
  simp only [build, Step.ends_bind, Step.ends_get, Step.ends_pure]
  apply (fillAll_ready hd.drafted hd.full).forget
  rintro _ d' ⟨hfills, hready, -⟩
  exact ⟨hfills, hready, rfl⟩

/-! ### Operations -/

theorem Ready.document_eq (h : d.Ready free document) : d.document = document :=
  h.drafted.walked.recalls.document_eq

/-- The run goes on while operations are collected. -/
theorem Ready.invariant_run (h : d.Ready .paths document) :
    Collect.Invariant document (Run .paths d) where
  document_eq d' hr := (hr.ready h).2.document_eq
  inline schema name key _ hk := by
    intro d' hr
    apply (Step.ends_self _ d').forget
    exact fun _ _ hs => ⟨hr.inline hk hs, trivial⟩
  envelope fields name key description hk := by
    intro d' hr
    apply (Step.ends_self _ d').forget
    exact fun _ _ hs => ⟨hr.envelope hk hs, trivial⟩
  lookup v := by
    intro d' hr
    obtain ⟨-, hd'⟩ := hr.ready h
    apply ((Step.ends_self _ d').and (hd'.lookup v)).forget
    rintro found _ ⟨hs, -, -, -, -, -, hfound⟩
    exact ⟨hr.lookup hs, hfound⟩

end Draft

/-- The declarations of a document are collected by a run, and the table is built after it. -/
theorem Plan.collected_of_collect {document : Value} {reserved : List String} {d' : Draft}
    {operations : List Operation} {table : Declarations}
    (h : Plan.collect.runFrom (Draft.start document reserved) = (.ok (operations, table), d')) :
    ∃ d, Draft.Collected .paths document reserved d ∧ Draft.build.runFrom d = (.ok table, d') := by
  have hends : Plan.collect.Ends (Draft.start document reserved)
      (fun result d' => ∃ d, Draft.Collected .paths document reserved d ∧
        Draft.build.runFrom d = (.ok result.2, d')) fun _ _ => True := by
    simp only [Plan.collect, Step.ends_bind, Step.ends_pure]
    apply ((Step.ends_self _ _).and (Draft.addComponents_ends (Draft.drafted_start .paths document
      reserved) (Draft.onlyReferences_start document reserved))).forget
    rintro _ d₁ ⟨hc, -, hd₁, -⟩
    apply (hd₁.invariant_run.operations d₁ .refl).forget
    rintro _ d₂ ⟨hr, -⟩
    apply (Step.ends_self _ _).forget
    intro _ _ hb
    exact ⟨d₂, ⟨d₁, hc, hr⟩, hb⟩
  exact hends.of_ok h

end RouteStubs
