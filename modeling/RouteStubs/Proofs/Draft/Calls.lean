import RouteStubs.Proofs.Draft.Closed
import RouteStubs.Proofs.Draft.Hoist

/-!
# The steps of the collection

Walks through schemas, filling in, and adding the schemas of operations: each of these steps keeps
the invariant and only adds to the draft, and filling in leaves no name whose shape is known without
it.

## Main definitions

* `Draft.Walks`: how a walk from the draft ends.
* `Draft.Ready`: the draft between two steps.

## Main statements

* `Draft.shapeOf_ends`: a walk from the draft.
* `Draft.fillAll_ends`: filling in.
* `Draft.addInline_ends`: a schema of an operation.
-/

namespace RouteStubs.Draft

variable {free : FreeKeys} {document : Value} {d d' d'' : Draft} {id key : String}

/-! ### Changes of no account -/

theorem grows_describe (id description : String) (d : Draft) : d.Grows (d.describe id description) :=
  ⟨.refl, rfl, List.prefix_refl _, fun _ _ h => h, fun _ _ h => h⟩

theorem Drafted.of_describe (hd : d.Drafted free document) (id description : String) :
    (d.describe id description).Drafted free document :=
  hd.of_grows (grows_describe id description d) hd.walked hd.chain rfl rfl

/-! ### Walks -/

/-- How a walk from the draft through a schema ends that stays on a course. -/
structure Walks (free : FreeKeys) (C : Registry.naming.Course document) (schema : Value) (d : Draft)
    (node : Shape) (d' : Draft) : Prop where
  grows : d.Grows d'
  drafted : d'.Drafted free document
  reads : ∃ depth, Canon.Reads (Registry.naming.Points d'.progress) d'.progress.definitions depth
    schema node
  steps : C.Steps d.progress d'.progress
  nodes : d'.nodes = d.nodes

theorem Walks.names {C : Registry.naming.Course document} {schema : Value} {node : Shape}
    (h : Walks free C schema d node d') : d.registry.Grows (·.origin = .schema) d'.registry :=
  h.steps.extends_.names

/-- Between walks what a handle stands for is finished. -/
theorem Drafted.isSome_of_points (hd : d.Drafted free document) {name ref : String}
    (hp : Registry.naming.Points d.progress name ref) :
    (d.progress.definitions.find? name).isSome := by
  refine hp.2.resolve_right ?_
  rintro ⟨hc, -⟩
  rw [hd.chain] at hc
  cases hc

/-- A walk from the draft reads the schema and gives names to references. -/
theorem shapeOf_ends (C : Registry.naming.Course document) (hd : d.Drafted free document)
    (hh : C.Holds d.progress) (context : String) (schema : Value) :
    (onProgress (Canon.shapeOf Registry.nameFor context schema)).Ends d
      (fun node d' => Walks free C schema d node d')
      fun fault d' => fault.isSelfReferring = true →
        Registry.naming.Stuck document schema d.progress d'.progress := by
  simp only [onProgress, Step.ends_within]
  apply (C.shapeOf_ends hd.walked hh hd.chain context schema).imp_ok
  rintro node p ⟨hs, depth, hf⟩
  have he := hs.extends_
  have hg : d.Grows { d with progress := p } :=
    ⟨Registry.Grows.imp he.names fun _ _ => trivial, he.document_eq, he.definitions,
      fun _ _ h => h, fun _ _ h => h⟩
  exact ⟨hg, hd.of_grows hg hs.walked (he.chain_eq.trans hd.chain) rfl rfl, ⟨depth, hf.reads⟩, hs,
    rfl⟩

/-- The names that a walk gives are finished when it ends. -/
theorem Walks.named {schema : Value} {node : Shape}
    (h : Walks free (Registry.course document) schema d node d') : ∀ g ∈ d'.registry.given,
      g ∈ d.registry.given ∨
        (Name.Styled g.id ∧ (d'.progress.definitions.find? g.id).isSome) := fun g hg =>
  (h.steps.leads g hg).imp (fun h => h) fun ⟨styled, hp⟩ => ⟨styled, h.drafted.isSome_of_points hp⟩

/-! ### Filling in -/

/-- What is said of the name of a reference is said by its definition, whoever says it. -/
theorem ClaimedFor.of_schema (hn : d.registry.Sound) {s : Source} {g : Given}
    (hg : g ∈ d.registry.given) (ho : g.origin = .schema) (hc : d.ClaimedFor s g.id)
    (hd : d'.progress = d.progress) : d'.ClaimedFor s g.id := by
  obtain ⟨g', hg', hid, hc⟩ := hc
  obtain rfl := hn.eq_of_id hg' hg hid
  rcases hc with ⟨-, hf⟩ | ⟨ho', -⟩
  · exact ⟨g', by simpa [registry, hd] using hg', rfl, .inl ⟨ho, by rwa [hd]⟩⟩
  · rw [ho] at ho'
    cases ho'

theorem adds_describe (within : Shape → Prop) (id description : String) (d : Draft) :
    Adds free within d (d.describe id description) := ⟨fun _ hg => .inl hg, fun _ _ hl => .inl hl⟩

theorem fills_describe (id description : String) (d : Draft) : d.Fills (d.describe id description) :=
  ⟨grows_describe id description d, rfl, fun _ h => .inl h⟩

/-- The definition of a name is placed, and the name is filled in with it. -/
theorem Drafted.fill_definition (hd : d.Drafted free document) {g : Given} {node filled : Shape}
    (hg : g ∈ d.registry.given) (ho : g.origin = .schema) (hn : d.nodes.lookup g.id = none)
    (hf : d.progress.definitions.find? g.id = some node) (hp : d.Placed node filled) :
    (fill g.id filled d).Drafted free document := by
  refine hd.of_fill hg hn ?_ fun s hs => (hd.claims s g.id hs).of_schema hd.walked.valid hg ho rfl
  unfold Says
  rw [ho]
  exact ⟨node, hf, hp⟩

/-- A name whose shape is known is filled in with what its definition is placed as. -/
theorem hoistMembers_fills (hd : d.Drafted free document) {g : Given} {definition : Shape}
    (hg : g ∈ d.registry.given) (ho : g.origin = .schema) (hnone : d.nodes.lookup g.id = none)
    (hdef : d.progress.definitions.find? g.id = some definition) :
    (hoistMembers definition g.id g.key).Ends d
      (fun node d₁ => d.Fills (fill g.id node d₁) ∧ (fill g.id node d₁).Drafted free document ∧
        Adds free d.Inside d (fill g.id node d₁))
      fun fault _ => fault.isSelfReferring = false := by
  have hk : d.Hoisted free definition g.key := .inr ⟨g, hg, ho, definition, hdef, .here⟩
  apply (hoistMembers_hoists definition g.id g.key d (inside_definition hdef) hk hd).imp_ok
  rintro node d₁ ⟨hh, hd₁, hadds, hmakes⟩
  have hfills := hh.fills hd
  have hg₁ := hh.given hg
  -- placing what is inside the definition leaves the name itself as it was
  have hnone₁ : d₁.nodes.lookup g.id = none := by rw [hh.nodes g hg, hnone]
  have hdef₁ : d₁.progress.definitions.find? g.id = some definition := by rw [hfills.find?_eq, hdef]
  have hfill := fills_fill hnone₁ node
  have hfilled : d₁.Filled free d.Inside g.id node :=
    ⟨hmakes.laid, g, hg₁, rfl, definition, .inl ⟨ho, hdef₁⟩, hmakes.shows⟩
  exact ⟨hfills.trans hfill,
    hd₁.fill_definition hg₁ ho hnone₁ hdef₁ (hmakes.shows.placed definition),
    hadds.trans (adds_fill hnone₁ hfilled) hfill⟩

/-- The names among the given ones whose shapes are known are filled in. What stays so while one of them is
filled in, and while it is described, is so in the end. -/
theorem fillPending_keeps {I : Draft → Prop} (names : List Given) (hd : d.Drafted free document)
    (hf : d.Full) (hn : ∀ g ∈ names, g ∈ d.registry.given) (hi : I d)
    (hfill : ∀ g ∈ names, ∀ d₁ definition, d.Fills d₁ → d₁.Drafted free document → I d₁ →
      g ∈ d₁.registry.given → g.origin = .schema → d₁.nodes.lookup g.id = none →
      d₁.progress.definitions.find? g.id = some definition →
        (hoistMembers definition g.id g.key).Ends d₁ (fun node d₂ => I (fill g.id node d₂))
          fun _ _ => True)
    (hdescribe : ∀ d₁ id description, I d₁ → I (d₁.describe id description)) :
    (fillPending names).Ends d
      (fun _ d' => d.Fills d' ∧ d'.Drafted free document ∧ Adds free d.Inside d d' ∧
        (∀ g ∈ names,
          (d.progress.definitions.find? g.id).isSome → (d'.nodes.lookup g.id).isSome) ∧ I d')
      fun fault _ => fault.isSelfReferring = false := by
  induction names generalizing d with
  | nil => exact ⟨.refl d, hd, .refl free _ d, List.forall_mem_nil _, hi⟩
  | cons g rest ih =>
    simp only [fillPending, Step.ends_bind, Step.ends_get]
    obtain ⟨hg, hrest⟩ := List.forall_mem_cons.mp hn
    have hnext : ∀ d₁, d.Fills d₁ → d₁.Drafted free document → Adds free d.Inside d d₁ →
        ((d.progress.definitions.find? g.id).isSome → (d₁.nodes.lookup g.id).isSome) → I d₁ →
        (fillPending rest).Ends d₁
          (fun _ d' => d.Fills d' ∧ d'.Drafted free document ∧ Adds free d.Inside d d' ∧
            (∀ g' ∈ g :: rest, (d.progress.definitions.find? g'.id).isSome →
              (d'.nodes.lookup g'.id).isSome) ∧ I d')
          fun fault _ => fault.isSelfReferring = false := by
      intro d₁ hfills hd₁ hadds hdone hi₁
      apply (ih hd₁ (hfills.full hf) (fun g' hg' => hfills.grows.given (hrest g' hg')) hi₁
        fun g' hg' d₂ definition hfills' =>
          hfill g' (List.mem_cons_of_mem _ hg') d₂ definition (hfills.trans hfills')).imp_ok
      rintro _ d' ⟨hfills', hd', hadds', hall, hi'⟩
      rw [hfills.inside] at hadds'
      refine ⟨hfills.trans hfills', hd', hadds.trans hadds' hfills',
        List.forall_mem_cons.mpr ⟨fun hs => ?_, fun g' hg' hs => ?_⟩, hi'⟩
      · exact isSome_lookup_nodes hfills'.grows (hdone hs)
      · exact hall g' hg' (by rwa [hfills.find?_eq])
    split
    · -- its shape is known, so it is filled in, and described if it is a record
      next definition hnone hdef =>
      have ho : g.origin = .schema := by
        by_contra ho
        simpa [hnone] using hf g hg ho
      simp only [Step.ends_bind]
      apply ((hoistMembers_fills hd hg ho hnone hdef).and (hfill g List.mem_cons_self d definition
        (.refl d) hd hi hg ho hnone hdef)).imp ?_ fun _ _ h => h.1
      rintro node d₁ ⟨⟨hfills, hd₁, hadds⟩, hi₁⟩
      have hdone : ((fill g.id node d₁).nodes.lookup g.id).isSome := by simp
      rw [Step.ends_modify]
      split
      · next fields trailer description source =>
        simp only [Step.ends_bind, Step.ends_modify]
        split
        · exact hnext _ (hfills.trans (fills_describe _ _ _)) (hd₁.of_describe _ _)
            (hadds.trans (adds_describe _ _ _ _) (fills_describe _ _ _)) (fun _ => hdone)
            (hdescribe _ _ _ hi₁)
        · exact hnext _ hfills hd₁ hadds (fun _ => hdone) hi₁
      · exact hnext _ hfills hd₁ hadds (fun _ => hdone) hi₁
    · next hother =>
      refine hnext d (.refl d) hd (.refl free _ d) (fun hs => ?_) hi
      obtain ⟨definition, hdef⟩ := Option.isSome_iff_exists.mp hs
      by_contra hnone
      exact hother definition (Option.not_isSome_iff_eq_none.mp hnone) hdef

theorem fillPending_ends (names : List Given) (hd : d.Drafted free document) (hf : d.Full)
    (hn : ∀ g ∈ names, g ∈ d.registry.given) :
    (fillPending names).Ends d
      (fun _ d' => d.Fills d' ∧ d'.Drafted free document ∧ Adds free d.Inside d d' ∧ ∀ g ∈ names,
        (d.progress.definitions.find? g.id).isSome → (d'.nodes.lookup g.id).isSome)
      fun fault _ => fault.isSelfReferring = false := by
  apply (fillPending_keeps (I := fun _ => True) names hd hf hn trivial
    (fun _ _ _ _ _ _ _ _ _ _ _ => Step.ends_of_forall (fun _ _ => trivial) fun _ _ => trivial)
    fun _ _ _ h => h).imp_ok
  rintro _ d' ⟨hfills, hd', hadds, hall, -⟩
  exact ⟨hfills, hd', hadds, hall⟩

/-- All names whose shapes are known are filled in. -/
theorem fillAll_ends (hd : d.Drafted free document) (hf : d.Full) :
    fillAll.Ends d
      (fun _ d' => d.Fills d' ∧ d'.Drafted free document ∧ Adds free d.Inside d d' ∧
        ∀ g ∈ d'.registry.given,
          (d'.progress.definitions.find? g.id).isSome → (d'.nodes.lookup g.id).isSome)
      fun fault _ => fault.isSelfReferring = false := by
  simp only [fillAll, Step.ends_bind, Step.ends_get]
  apply (fillPending_ends d.registry.given hd hf fun _ h => h).imp_ok
  rintro _ d' ⟨hfills, hd', hadds, hall⟩
  refine ⟨hfills, hd', hadds, fun g hg hs => ?_⟩
  rw [hfills.find?_eq] at hs
  rcases hfills.filled g hg with hg | hdone
  · exact hall g hg hs
  · exact hdone

/-! ### The draft between two steps -/

variable (free document) in
/-- The invariant of the collection between two of its steps: what is known is filled in. -/
structure Ready (d : Draft) : Prop where
  drafted : d.Drafted free document
  full : d.Full
  done : ∀ g ∈ d.registry.given,
    (d.progress.definitions.find? g.id).isSome → (d.nodes.lookup g.id).isSome

/-- Filling in makes a draft ready. -/
theorem fillAll_ready (hd : d.Drafted free document) (hf : d.Full) :
    fillAll.Ends d (fun _ d' => d.Fills d' ∧ d'.Ready free document ∧ Adds free d.Inside d d')
      fun fault _ => fault.isSelfReferring = false := by
  apply (fillAll_ends hd hf).imp_ok
  rintro _ d' ⟨hfills, hd', hadds, hdone⟩
  exact ⟨hfills, ⟨hd', hfills.full hf, hdone⟩, hadds⟩

/-! ### Operations -/

/-- Adding a schema of an operation reads it, and places what it reads as. -/
theorem addInline_ends (hd : d.Ready free document) (hk : free.Has key) (schema : Value)
    (name : String) :
    (addInline schema name key).Ends d
      (fun placed d' => d.Grows d' ∧ d'.Ready free document ∧ d.Gains d' ∧
        (d'.Fits placed ∧ placed.Flat) ∧ ∃ depth node,
          Canon.Reads (Registry.naming.Points d'.progress) d'.progress.definitions depth schema node ∧
            d'.Stands node (d'.Placed node) placed)
      fun _ _ => True := by
  simp only [addInline, Step.ends_bind, Step.ends_pure]
  apply (shapeOf_ends (Registry.course document) hd.drafted trivial name schema).forget
  intro node d₁ hwalks
  have hnamed := hwalks.named
  have hn₁ := hwalks.names
  obtain ⟨hg₁, hd₁, ⟨depth, hread⟩, -, hnodes⟩ := hwalks
  -- the walk has named references only, which need not be filled in yet
  have hfull₁ : d₁.Full := by
    intro g hg ho
    rw [hnodes]
    exact hd.full g ((hn₁.mem_or_allowed hg).resolve_right ho) ho
  have hnames : node.Throughout d₁.Names := hd₁.names_reads hread
  apply (place_hoists (fun name key d => hoistMembers_hoists node name key d hnames) name key d₁
    (.inl hk) hd₁).forget
  rintro placed d₂ ⟨hh, hd₂, hadds₂, htakes⟩
  have hg₂ := hh.grows hd₁
  apply (fillAll_ready hd₂ ((hh.fills hd₁).full hfull₁)).forget
  rintro _ d₃ ⟨hfills, hready, hadds₃⟩
  have hg₃ := hg₂.trans hfills.grows
  have hnames₁ : ∀ node, d₁.Names node → d₃.Names node := fun _ => Names.mono hg₃
  have hadds : Adds free d₃.Names d₁ d₃ := (hadds₂.imp hnames₁).trans
    (hadds₃.imp fun _ h => (hd₂.names_inside h).mono hfills.grows) hfills
  have hgains : d.Gains d₃ := by
    refine ⟨fun g hg => ?_, fun g hg => ?_, fun id filled hl => ?_⟩
    · rcases hadds.styled g hg with hg | styled
      · exact (hnamed g hg).imp (fun h => h) And.left
      · exact .inr styled
    · -- what the walk has named is finished, and so it is filled in by now
      rcases ((hh.fills hd₁).trans hfills).filled g hg with hg₁ | hfilled
      · refine (hnamed g hg₁).imp (fun h => h) fun hnew => hready.done g hg ?_
        exact Naming.isSome_find?_mono hg₃.definitions hnew.2
      · exact .inr hfilled
    · rw [← hnodes]
      exact (hadds.nodes id filled hl).imp (fun h => h) fun hf => hf.laid.fits fun _ h => h
  have hinlaid := htakes.inlaid.mono hfills hnames₁
  exact ⟨hg₁.trans hg₃, hready, hgains,
    ⟨hinlaid.laid.fits fun _ h => h, hinlaid.flat.self⟩, depth, node,
    hread.mono (fun _ _ => hg₃.points hd₁.chain) hg₃.definitions,
    htakes.stands.mono hfills.grows fun _ h => (h.placed node).mono hfills.grows⟩

end RouteStubs.Draft
