import RouteStubs.Proofs.Draft.Components
import RouteStubs.Proofs.Draft.Rendered

/-!
# Adding schemas keeps declarations shared

The components of a document and the schemas of operations may be added in any order, and the components
more than once. Each time, what is declared for a mapping renders a record of the mapping.

## Main definitions

* `Draft.Drawn`: a name for a reference or for a record inside a shape.
* `Draft.Prepares`: only references are given names, and nothing is filled in.
* `Draft.Leaves`: no record inside a shape has a name for one of these references.

## Main statements

* `Draft.addInline_shares`: a schema of an operation is added.
* `Draft.addComponents_shares`: components are added.
-/

namespace RouteStubs.Draft

open Registry Shape Value

variable {document : Value} {roots : Value → Prop} {d d' d'' : Draft} {id : String} {node : Shape}

/-! ### Schemas of operations -/

/-- A walk leaves the declarations of mappings as they are. -/
theorem bySource_onProgress {α : Type} (step : Step (Progress Registry) α) (d : Draft) :
    (onProgress step).Ends d (fun _ d' => d'.bySource = d.bySource) fun _ _ => True := by
  simp only [onProgress, Step.ends_within]
  exact Step.ends_of_forall (fun _ _ => trivial) fun _ _ => trivial

/-- A walk through a schema, after which declarations are still shared. -/
theorem shapeOf_shares (hd : d.Drafted .all document) (hs : d.Shared roots) (context : String)
    (schema : Value) :
    (onProgress (Canon.shapeOf nameFor context schema)).Ends d
      (fun node d' => Walks .all (course document) schema d node d' ∧ d'.Shared roots)
      fun _ _ => True := by
  have hwalk := shapeOf_ends (course document) hd trivial context schema
  apply (hwalk.and (bySource_onProgress _ d)).forget
  rintro node d' ⟨hw, hb⟩
  exact ⟨hw, hs.of_names hd hw.drafted hw.grows hw.names hw.nodes hb⟩

theorem full_of_names (hf : d.Full) (hr : d.registry.Grows (·.origin = .schema) d'.registry)
    (hn : d'.nodes = d.nodes) : d'.Full := by
  intro g hg ho
  rw [hn]
  exact hf g ((hr.mem_or_allowed hg).resolve_right ho) ho

/-- A reference, or a record inside a shape, is given a name. -/
def Drawn (g : Given) : Prop := g.origin = .schema ∨ g.origin = .inline

/-- Adding a schema reads it, and what takes the place of what it reads as renders it. -/
theorem addInline_shares (hdoc : roots document) (hd : d.Ready .all document) (hs : d.Shared roots)
    {schema : Value} (hroot : roots schema) (name key : String) :
    (addInline schema name key).Ends d
      (fun placed d' => d.Grows d' ∧ d'.Ready .all document ∧ d'.Shared roots ∧
        d.registry.Grows Drawn d'.registry ∧ ∃ node walked,
          (onProgress (Canon.shapeOf nameFor name schema)).runFrom d = (.ok node, walked) ∧
            node.Throughout (d'.Sprung roots) ∧ d'.RendersInside node placed)
      fun _ _ => True := by
  simp only [addInline, Step.ends_bind, Step.ends_pure]
  apply ((shapeOf_shares hd.drafted hs name schema).and (Step.ends_self _ d)).forget
  rintro node d₁ ⟨⟨hwalks, hs₁⟩, hrun⟩
  obtain ⟨depth, hread⟩ := hwalks.reads
  have hd₁ := hwalks.drafted
  have hfull₁ := full_of_names hd.full hwalks.names hwalks.nodes
  have hsprung : node.Throughout (d₁.Sprung roots) :=
    sprung_reads hdoc hd₁.walked (.inr ⟨schema, hroot, .refl⟩) hread
  apply (place_shares (hoistMembers_shares node) name key d₁ hsprung hs₁ hd₁).forget
  rintro placed d₂ ⟨hh, hd₂, -, hs₂, hr⟩
  have hfills := hh.fills hd₁
  apply (fillAll_shares hdoc hd₂ hs₂ (hfills.full hfull₁)).forget
  rintro _ d₃ ⟨hfills', hready, hs₃, hr₃⟩
  have hgrows := hfills.grows.trans hfills'.grows
  have hdrawn : d.registry.Grows Drawn d₃.registry :=
    (hwalks.names.imp fun _ => .inl).trans ((hh.registry.trans hr₃).imp fun _ => .inr)
  exact ⟨hwalks.grows.trans hgrows, hready, hs₃, hdrawn, node, d₁, hrun,
    hsprung.imp fun _ => Sprung.mono hgrows hd₁.chain, hr.mono hfills'.grows⟩

/-! ### Components -/

/-- The second draft is reached from the first while only references are given names and nothing is
filled in, and declarations are shared in it. -/
structure Prepares (roots : Value → Prop) (document : Value) (d d' : Draft) : Prop where
  references : References .all document d d'
  nodes : d'.nodes = d.nodes
  shared : d'.Shared roots

theorem Prepares.refl (hd : d.Drafted .all document) (hs : d.Shared roots) :
    Prepares roots document d d :=
  ⟨.refl hd, rfl, hs⟩

theorem Prepares.trans (h : Prepares roots document d d') (h' : Prepares roots document d' d'') :
    Prepares roots document d d'' :=
  ⟨h.references.trans h'.references, h'.nodes.trans h.nodes, h'.shared⟩

/-- Whatever name was given for one of these references was given to a reference. -/
def Leaves (d : Draft) (refs : List String) : Prop :=
  ∀ g ∈ d.registry.given, g.key ∈ refs → g.origin = .schema

theorem Leaves.of_names {refs : List String} (h : d.Leaves refs)
    (hr : d.registry.Grows (·.origin = .schema) d'.registry) : d'.Leaves refs := fun g hg hk =>
  (hr.mem_or_allowed hg).elim (fun hg => h g hg hk) id

theorem nameComponents_shares (names : List String) (hd : d.Drafted .all document)
    (hs : d.Shared roots) :
    (nameComponents names).Ends d
      (fun _ d' => Prepares roots document d d' ∧ ∀ name ∈ names, ∃ id,
        d'.registry.index.lookup (componentRef name) = some id) fun _ _ => True := by
  induction names generalizing d with
  | nil => exact ⟨.refl hd hs, List.forall_mem_nil _⟩
  | cons name rest ih =>
    simp only [nameComponents, onRegistry, onProgress, Progress.onNames, Step.ends_bind,
      Step.ends_within]
    apply (nameFor_ends d.registry (componentRef name)).forget
    rintro id r ⟨hr, hlookup, -⟩
    let d₁ : Draft := { d with progress := { d.progress with names := r } }
    have hg : d.Grows d₁ :=
      ⟨hr.imp fun _ _ => trivial, rfl, List.prefix_refl _, fun _ _ h => h, fun _ _ h => h⟩
    have hd₁ : d₁.Drafted .all document :=
      hd.of_grows hg (hd.walked.of_grows hr hd.chain) hd.chain rfl rfl
    have hs₁ : d₁.Shared roots := hs.of_names hd hd₁ hg hr rfl rfl
    have hprepared : Prepares roots document d d₁ := ⟨⟨hg, hd₁, hr⟩, rfl, hs₁⟩
    apply (ih hd₁ hs₁).forget
    rintro _ d' ⟨hprepared', hall⟩
    refine ⟨hprepared.trans hprepared', fun name' hname => ?_⟩
    rcases List.mem_cons.mp hname with rfl | hname
    · exact ⟨id, hprepared'.references.names.lookup_index hlookup⟩
    · exact hall name' hname

/-- The name of a component becomes the declaration of the mapping that its record was read from. -/
theorem Shared.of_claim (h : d.Shared roots) (hd : d.Drafted .all document)
    (ho : ∀ g ∈ d.registry.given, g.id = id → g.origin = .schema) {fields : List (Field Shape)}
    {trailer : Option Shape} {description : String} {source : Option Source}
    (hf : d.progress.definitions.find? id = some (.record fields trailer description source)) :
    (claim source id d).Shared roots := by
  have hg := (hd.of_claim ho hf).1
  refine ⟨fun s id' hl => ?_, fun g hgm ho' filled hfilled => ?_, fun g hgm ho' => ?_⟩
  · rw [bySource_claim, Option.or_eq_some_iff] at hl
    rcases hl with hl | ⟨-, hl⟩
    · exact (h.declared s id' hl).mono hg hd.chain (by rw [nodes_claim])
    · obtain ⟨rfl, ⟨⟩⟩ := Option.ite_none_right_eq_some.mp hl
      obtain ⟨g, hgm, hid, -⟩ := hd.exists_given hf
      exact ⟨g, hg.given hgm, hid, .inl ⟨ho g hgm hid, _, by rwa [progress_claim], rfl⟩⟩
  · rw [registry_claim] at hgm
    rw [nodes_claim] at hfilled
    obtain ⟨node, hnode, hr⟩ := h.rendered g hgm ho' filled hfilled
    exact ⟨node, by rwa [progress_claim], hr.mono hg⟩
  · rw [registry_claim] at hgm
    obtain ⟨s, hs⟩ := h.claimed g hgm ho'
    exact ⟨s, hg.sources s g.id hs⟩

/-- A component is read, and what it comes to is claimed for its name; then the others follow. -/
theorem readComponent_shares {ref : String} {rest : Step Draft Unit}
    (ho : ∀ d₁, Prepares roots document d d₁ → ∀ g ∈ d₁.registry.given, g.id = id →
      g.origin = .schema)
    (hrest : ∀ d₁, Prepares roots document d d₁ →
      rest.Ends d₁ (fun _ d' => Prepares roots document d d') fun _ _ => True)
    (hp : Prepares roots document d d') :
    (do
      let _ ← onProgress (Canon.shapeOf nameFor "<inline>" (refSchema ref))
      match (← get).progress.definitions.find? id with
      | some (.record _ _ _ source) => modify (claim source id)
      | _ => pure ()
      rest : Step Draft Unit).Ends d' (fun _ d'' => Prepares roots document d d'')
      fun _ _ => True := by
  have hr := hp.references
  simp only [Step.ends_bind, Step.ends_get]
  apply (shapeOf_shares hr.drafted hp.shared _ _).forget
  rintro _ d₂ ⟨hw, hs₂⟩
  have hp₂ : Prepares roots document d d₂ :=
    hp.trans ⟨⟨hw.grows, hw.drafted, hw.names⟩, hw.nodes, hs₂⟩
  split
  · next source hdef =>
    have ho₂ := ho d₂ hp₂
    obtain ⟨hg, hd₃⟩ := hw.drafted.of_claim ho₂ hdef
    have hnames : d₂.registry.Grows (·.origin = .schema) (claim source id d₂).registry := by
      rw [show (claim source id d₂).registry = d₂.registry from
        congrArg Progress.names (progress_claim source id d₂)]
      exact .refl
    rw [Step.ends_bind, Step.ends_modify]
    exact hrest _ (hp₂.trans ⟨⟨hg, hd₃, hnames⟩, nodes_claim _ _ _,
      hs₂.of_claim hw.drafted ho₂ hdef⟩)
  · exact hrest _ hp₂

theorem addSchemas_shares (entries : List (Scalar × Value)) (hd : d.Drafted .all document)
    (hs : d.Shared roots)
    (hnamed : ∀ ref ∈ componentRefs entries, ∃ id, d.registry.index.lookup ref = some id)
    (hl : d.Leaves (componentRefs entries)) :
    (addSchemas entries).Ends d (fun _ d' => Prepares roots document d d') fun _ _ => True := by
  induction entries generalizing d with
  | nil => exact .refl hd hs
  | cons e rest ih =>
    obtain ⟨name, raw⟩ := e
    have hrest : ∀ d₁, Prepares roots document d d₁ →
        (addSchemas rest).Ends d₁ (fun _ d' => Prepares roots document d d') fun _ _ => True := by
      intro d₁ hp
      have hr := hp.references
      refine (ih hr.drafted hp.shared (fun ref href => ?_) fun g hg hk => ?_).imp_ok
        fun _ _ hp' => hp.trans hp'
      · obtain ⟨id, hid⟩ := hnamed ref (List.mem_cons_of_mem _ href)
        exact ⟨id, hr.names.lookup_index hid⟩
      · exact hl.of_names hr.names g hg (List.mem_cons_of_mem _ hk)
    obtain ⟨id, hid⟩ := hnamed _ List.mem_cons_self
    -- the name of the component was given to a reference, and so it is after the walk
    have ho : ∀ d₁, Prepares roots document d d₁ → ∀ g ∈ d₁.registry.given, g.id = id →
        g.origin = .schema := by
      rintro d₁ hp g hg rfl
      have hr := hp.references
      have hkey := hr.drafted.sound.keyOf?_of_lookup (hr.names.lookup_index hid)
      rw [hr.drafted.sound.keyOf?_of_mem hg] at hkey
      exact hl.of_names hr.names g hg (Option.some.inj hkey ▸ List.mem_cons_self)
    unfold addSchemas
    rw [Step.ends_bind, Step.ends_get, hid, Option.getD_some]
    split
    · rw [Step.ends_bind, Step.ends_ofExcept]
      refine ⟨fun description _ => ?_, fun _ _ => trivial⟩
      rw [Step.ends_bind, Step.ends_modify]
      exact readComponent_shares ho hrest
        ⟨⟨grows_describe _ _ _, hd.of_describe _ _, .refl⟩, rfl, hs.of_describe _ _⟩
    · exact readComponent_shares ho hrest (.refl hd hs)

/-- Adding components gives names to them, reads them and fills in what was read, unless records inside
shapes have been given names that spell components. -/
theorem addComponents_shares (hdoc : roots document) (hd : d.Ready .all document) (hs : d.Shared roots)
    (hl : ∀ origin entries, Document.schemas document = .ok (.mapping origin entries) →
      d.Leaves (componentRefs entries)) :
    addComponents.Ends d
      (fun _ d' => d.Grows d' ∧ d'.Ready .all document ∧ d'.Shared roots ∧
        d.registry.Grows Drawn d'.registry) fun _ _ => True := by
  have hdocument : d.document = document := hd.drafted.walked.recalls.document_eq
  simp only [addComponents]
  rw [Step.ends_bind, Step.ends_get, hdocument, Step.ends_bind, Step.ends_ofExcept]
  refine ⟨fun schemas hschemas => ?_, fun _ _ => trivial⟩
  split
  · next origin entries =>
    rw [Step.ends_bind]
    apply (nameComponents_shares _ hd.drafted hs).forget
    rintro _ d₁ ⟨hp₁, hnamed⟩
    have hr₁ := hp₁.references
    rw [Step.ends_bind]
    apply (addSchemas_shares entries hr₁.drafted hp₁.shared (forall_componentRefs.mpr hnamed)
      ((hl origin entries hschemas).of_names hr₁.names)).forget
    intro _ d₂ hp₂
    have hp := hp₁.trans hp₂
    have hr := hp.references
    apply (fillAll_shares hdoc hr.drafted hp.shared
      (full_of_names hd.full hr.names hp.nodes)).forget
    rintro _ d₃ ⟨hfills, hready, hs₃, hr₃⟩
    exact ⟨hr.grows.trans hfills.grows, hready, hs₃,
      (hr.names.imp fun _ => .inl).trans (hr₃.imp fun _ => .inr)⟩
  · exact Step.ends_bind_throw _ fun _ _ => trivial
  · exact Step.ends_bind_throw _ fun _ _ => trivial
  · trivial

end RouteStubs.Draft
