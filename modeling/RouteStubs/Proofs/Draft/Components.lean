import RouteStubs.Proofs.Draft.Calls

/-!
# Components

Adding components gives a name to each of them, walks from each of them and fills in what has been
found. The walks may be followed on a course.

## Main definitions

* `Draft.refSchema`: the schema that refers to a component.
* `Draft.References`: drafts that are reached by giving names to references.
* `Draft.Refers`: a step on a draft with references only.
* `Draft.Added`: the drafts on the way through the components.

## Main statements

* `Draft.addComponents_added`, `Draft.addComponents_ends`: adding components.
-/

namespace RouteStubs.Draft

variable {free : FreeKeys} {document : Value} {C : Registry.naming.Course document}
  {d d' d'' : Draft} {id key : String}

/-- The schema that refers to a component. -/
abbrev refSchema (ref : String) : Value := .mapping 0 [(.text "$ref", .text ref)]

/-- All names that are given are names of references. -/
def OnlyReferences (d : Draft) : Prop := ∀ g ∈ d.registry.given, g.origin = .schema

theorem OnlyReferences.of_grows (h : d.OnlyReferences)
    (hd : d.registry.Grows (·.origin = .schema) d'.registry) : d'.OnlyReferences :=
  fun g hg => (hd.mem_or_allowed hg).elim (h g) id

theorem OnlyReferences.full (h : d.OnlyReferences) : d.Full := fun g hg ho => absurd (h g hg) ho

/-- The second draft is reached from the first, and only references were given names. -/
structure References (free : FreeKeys) (document : Value) (d d' : Draft) : Prop where
  grows : d.Grows d'
  drafted : d'.Drafted free document
  names : d.registry.Grows (·.origin = .schema) d'.registry

theorem References.refl (hd : d.Drafted free document) : References free document d d :=
  ⟨.refl d, hd, .refl⟩

theorem References.trans (h : References free document d d') (h' : References free document d' d'') :
    References free document d d'' :=
  ⟨h.grows.trans h'.grows, h'.drafted, h.names.trans h'.names⟩

variable (free C) in
/-- The second draft is reached from the first while only references are given names and nothing is
filled in. The second one is on the course. -/
structure Referring (d d' : Draft) : Prop where
  references : References free document d d'
  nodes : d'.nodes = d.nodes
  holds : C.Holds d'.progress

theorem Referring.refl (hd : d.Drafted free document) (hh : C.Holds d.progress) :
    Referring free C d d :=
  ⟨.refl hd, rfl, hh⟩

theorem Referring.trans (h : Referring free C d d') (h' : Referring free C d' d'') :
    Referring free C d d'' where
  references := h.references.trans h'.references
  nodes := h'.nodes.trans h.nodes
  holds := h'.holds

section Refers

variable {α β : Type} {roots : List Value} {step : Step Draft α} {Q Q' : α → Draft → Prop}
  {R : β → Draft → Prop}

variable (free C) in
/-- A step on a draft with references only keeps it so and has this outcome, or it is stuck in a loop
from one of the roots if it is refused because of one. -/
def Refers (roots : List Value) (d : Draft) (step : Step Draft α) (Q : α → Draft → Prop) : Prop :=
  d.Drafted free document → d.OnlyReferences → C.Holds d.progress →
    step.Ends d (fun a d' => Referring free C d d' ∧ Q a d')
      fun fault d' => fault.isSelfReferring = true →
        ∃ root ∈ roots, Registry.naming.Stuck document root d.progress d'.progress

theorem refers_pure {a : α} (h : Q a d) : Refers free C roots d (pure a) Q := fun hd _ hh =>
  ⟨.refl hd hh, h⟩

theorem refers_get {next : Draft → Step Draft α}
    (h : d.Drafted free document → d.OnlyReferences → Refers free C roots d (next d) Q) :
    Refers free C roots d (get >>= next) Q := fun hd ho hh => h hd ho hd ho hh

theorem refers_ofExcept {outcome : Except Fault α} (hp : Fault.Plain outcome) :
    Refers free C roots d (Step.ofExcept outcome) fun _ d' => d' = d := by
  intro hd _ hh
  rw [Step.ends_ofExcept]
  refine ⟨fun _ _ => ⟨.refl hd hh, rfl⟩, fun fault hf hself => ?_⟩
  rw [hp fault hf] at hself
  cases hself

/-- A change that has nothing to do with the walk. -/
theorem refers_modify {f : Draft → Draft} (hp : (f d).progress = d.progress)
    (hn : (f d).nodes = d.nodes)
    (h : d.Drafted free document → d.OnlyReferences →
      d.Grows (f d) ∧ (f d).Drafted free document) :
    Refers free C roots d (modify f) fun _ d' => d' = f d := by
  intro hd ho hh
  have hr : (f d).registry = d.registry := congrArg Progress.names hp
  obtain ⟨hg, hd'⟩ := h hd ho
  refine ⟨⟨⟨hg, hd', hr ▸ .refl⟩, hn, ?_⟩, rfl⟩
  rw [hp]
  exact hh

/-- A weaker outcome. -/
theorem Refers.imp (h : Refers free C roots d step Q)
    (hq : ∀ a d', Referring free C d d' → Q a d' → Q' a d') : Refers free C roots d step Q' := by
  intro hd ho hh
  apply (h hd ho hh).imp_ok
  rintro a d' ⟨hr, h⟩
  exact ⟨hr, hq a d' hr h⟩

theorem Refers.bind {next : α → Step Draft β} (h : Refers free C roots d step Q)
    (hn : ∀ a d', Referring free C d d' → Q a d' → Refers free C roots d' (next a) R) :
    Refers free C roots d (step >>= next) R := by
  intro hd ho hh
  rw [Step.ends_bind]
  apply (h hd ho hh).imp_ok
  rintro a d' ⟨hr, hq⟩
  apply (hn a d' hr hq hr.references.drafted (ho.of_grows hr.references.names) hr.holds).imp
  · rintro _ _ ⟨hr', hq'⟩
    exact ⟨hr.trans hr', hq'⟩
  · intro _ _ hf hself
    obtain ⟨root, hroot, hstuck⟩ := hf hself
    exact ⟨root, hroot, hstuck.of_later hr.references.names⟩

end Refers

/-! ### Names -/

/-- A name is given to a reference. -/
theorem nameFor_refers (roots : List Value) (ref : String) (d : Draft) :
    Refers free C roots d (onRegistry (Registry.nameFor ref))
      fun _ d' => d'.progress.definitions = d.progress.definitions ∧
        ∀ g ∈ d'.registry.given, g ∈ d.registry.given ∨ (Name.Styled g.id ∧ g.key = ref) := by
  intro hd _ hh
  simp only [onRegistry, onProgress, Progress.onNames, Step.ends_within]
  apply (Step.ends_self (Registry.nameFor ref) d.progress.names).imp
  · intro id r hrun
    obtain ⟨hr, -, hnew⟩ := (Registry.nameFor_ends d.registry ref).of_ok hrun
    have hg : d.Grows { d with progress := { d.progress with names := r } } :=
      ⟨hr.imp fun _ _ => trivial, rfl, List.prefix_refl _, fun _ _ h => h, fun _ _ h => h⟩
    exact ⟨⟨⟨hg, hd.of_grows hg (hd.walked.of_grows hr hd.chain) hd.chain rfl rfl, hr⟩,
      rfl, C.named hrun hh⟩, trivial, fun g hg => (hnew g hg).imp_right fun h => ⟨h.1, h.2.2⟩⟩
  · intro fault r hrun hself
    rw [((Registry.nameFor_ends d.registry ref).of_error hrun).2] at hself
    cases hself

theorem nameComponents_refers (roots : List Value) (names : List String) (d : Draft) :
    Refers free C roots d (nameComponents names)
      fun _ d' => d'.progress.definitions = d.progress.definitions ∧
        ∀ g ∈ d'.registry.given, g ∈ d.registry.given ∨
          (Name.Styled g.id ∧ g.key ∈ names.map Registry.componentRef) := by
  induction names generalizing d with
  | nil => exact refers_pure ⟨rfl, fun _ hg => .inl hg⟩
  | cons name rest ih =>
    refine (nameFor_refers roots _ d).bind fun _ d₁ _ hnamed => ?_
    obtain ⟨hdefs, hnew⟩ := hnamed
    rw [← hdefs]
    apply (ih d₁).imp
    rintro _ d' - ⟨hdefs', hnew'⟩
    refine ⟨hdefs', fun g hg => ?_⟩
    rcases hnew' g hg with hg | ⟨styled, hkey⟩
    · refine (hnew g hg).imp (fun h => h) fun ⟨styled, hkey⟩ => ⟨styled, ?_⟩
      exact hkey ▸ List.mem_cons_self
    · exact .inr ⟨styled, List.mem_cons_of_mem _ hkey⟩

/-- Giving names to components is never refused because of a loop. -/
theorem nameComponents_plain (hd : d.Drafted free document) (ho : d.OnlyReferences)
    (names : List String) :
    (nameComponents names).Ends d (fun _ _ => True) fun fault _ => fault.isSelfReferring = false := by
  apply (nameComponents_refers (C := Registry.course document) [] names d hd ho trivial).imp
  · intro _ _ _
    trivial
  · -- there is no root that a loop could be met from
    intro fault _ hf
    by_contra hself
    obtain ⟨root, hroot, -⟩ := hf (by simpa using hself)
    cases hroot

/-! ### Walks -/

/-- The name of a component is the declaration of the mapping that its record was read from. -/
theorem Drafted.of_claim (hd : d.Drafted free document)
    (ho : ∀ g ∈ d.registry.given, g.id = id → g.origin = .schema) {fields : List (Field Shape)}
    {trailer : Option Shape} {description : String} {source : Option Source}
    (hf : d.progress.definitions.find? id = some (.record fields trailer description source)) :
    d.Grows (claim source id d) ∧ (claim source id d).Drafted free document := by
  have hg : d.Grows (claim source id d) := by
    refine ⟨?_, ?_, ?_, fun id' node hn => ?_, fun s id' hl => ?_⟩
    · rw [registry_claim]
      exact .refl
    · rw [Draft.document, progress_claim]
      rfl
    · rw [progress_claim]
    · rwa [nodes_claim]
    · rw [bySource_claim, hl, Option.some_or]
  refine ⟨hg, ⟨?_, ?_, fun id' filled hl => ?_, fun s id' hl => ?_⟩⟩
  · rw [progress_claim]
    exact hd.walked
  · rw [progress_claim]
    exact hd.chain
  · -- nothing is filled in
    rw [nodes_claim] at hl
    obtain ⟨g, hgm, hid, hsaid⟩ := hd.filled id' filled hl
    exact ⟨g, hg.given hgm, hid, hsaid.mono hg⟩
  · rw [bySource_claim, Option.or_eq_some_iff] at hl
    rcases hl with hl | ⟨-, hl⟩
    · exact (hd.claims s id' hl).mono hg (by rw [nodes_claim])
    · obtain ⟨rfl, ⟨⟩⟩ := Option.ite_none_right_eq_some.mp hl
      obtain ⟨g, hgm, hid, -⟩ := hd.exists_given hf
      exact ⟨g, hg.given hgm, hid,
        .inl ⟨ho g hgm hid, fields, trailer, description, by rwa [progress_claim]⟩⟩

/-- The reference to a component reads as a handle that stands for it. -/
theorem points_of_reads {N : Naming Registry.nameFor} {p : Progress Registry} {ref : String}
    {node : Shape} {depth : Nat}
    (hr : Canon.Reads (N.Points p) p.definitions depth (refSchema ref) node) :
    ∃ name, node = .handle name ∧ N.Points p name ref := by
  cases depth with
  | zero => cases hr
  | succ depth =>
    obtain ⟨plain, ⟨r, name, hr, hp, rfl⟩, hn⟩ := hr
    cases hr
    exact ⟨name, hn, hp⟩

/-- The reference is finished: a name that stands for it is defined. -/
def Finished (d : Draft) (ref : String) : Prop :=
  ∃ name, Registry.naming.stands d.progress.names name = some ref ∧
    (d.progress.definitions.find? name).isSome

theorem Drafted.finished (hd : d.Drafted free document) {name ref : String}
    (hp : Registry.naming.Points d.progress name ref) : d.Finished ref := by
  refine ⟨name, hp.1, hp.2.resolve_right ?_⟩
  rintro ⟨hc, -⟩
  rw [hd.chain] at hc
  cases hc

theorem Finished.exists_points {ref : String} (h : d.Finished ref) :
    ∃ name, Registry.naming.Points d.progress name ref := by
  obtain ⟨name, hs, hdone⟩ := h
  exact ⟨name, hs, .inl hdone⟩

theorem Finished.mono {ref : String} (h : d.Finished ref) (hg : d.Grows d') : d'.Finished ref := by
  obtain ⟨name, hs, hdone⟩ := h
  exact ⟨name, hg.registry.keyOf? hs, Naming.isSome_find?_mono hg.definitions hdone⟩

/-- A walk from a component finishes it. -/
theorem shapeOf_refers {roots : List Value} {ref : String} (hm : refSchema ref ∈ roots)
    (context : String) (d : Draft) :
    Refers free C roots d (onProgress (Canon.shapeOf Registry.nameFor context (refSchema ref)))
      fun _ d' => d'.Finished ref ∧ C.Steps d.progress d'.progress := by
  intro hd _ hh
  apply (shapeOf_ends C hd hh context (refSchema ref)).imp
  · intro _ d' hw
    obtain ⟨_, hread⟩ := hw.reads
    obtain ⟨_, -, hp⟩ := points_of_reads hread
    exact ⟨⟨⟨hw.grows, hw.drafted, hw.names⟩, hw.nodes, hw.steps.holds⟩,
      hw.drafted.finished hp, hw.steps⟩
  · intro _ _ hf hself
    exact ⟨_, hm, hf hself⟩

/-- The references to the components of a mapping. -/
def componentRefs (entries : List (Scalar × Value)) : List String :=
  entries.map fun e => Registry.componentRef e.1.display

theorem map_componentRef (entries : List (Scalar × Value)) :
    (entries.map fun e => e.1.display).map Registry.componentRef = componentRefs entries := by
  rw [List.map_map]
  rfl

theorem forall_componentRefs {entries : List (Scalar × Value)} {P : String → Prop} :
    (∀ ref ∈ componentRefs entries, P ref) ↔
      ∀ name ∈ entries.map fun e => e.1.display, P (Registry.componentRef name) := by
  rw [← map_componentRef]
  exact List.forall_mem_map

theorem addSchemas_refers {roots : List Value} (entries : List (Scalar × Value))
    (hm : (componentRefs entries).map refSchema ⊆ roots) (d : Draft) :
    Refers free C roots d (addSchemas entries)
      fun _ d' => (∀ ref ∈ componentRefs entries, d'.Finished ref) ∧
        C.Steps d.progress d'.progress := by
  induction entries generalizing d with
  | nil =>
    intro hd _ hh
    refine ⟨.refl hd hh, ?_, Naming.Course.steps_refl hd.walked hh⟩
    intro ref href
    cases href
  | cons e rest ih =>
    obtain ⟨name, raw⟩ := e
    obtain ⟨hroot, hroots⟩ := List.cons_subset.mp hm
    have hrest : ∀ d₁, d₁.Finished (Registry.componentRef name.display) →
        C.Steps d.progress d₁.progress → Refers free C roots d₁ (addSchemas rest)
          fun _ d' => (∀ ref ∈ componentRefs ((name, raw) :: rest), d'.Finished ref) ∧
            C.Steps d.progress d'.progress := by
      intro d₁ hfin hs
      apply (ih hroots d₁).imp
      rintro _ d' hr ⟨hall, hs'⟩
      refine ⟨fun ref href => ?_, hs.trans hs'⟩
      rcases List.mem_cons.mp href with rfl | href
      · exact hfin.mono hr.references.grows
      · exact hall ref href
    unfold addSchemas
    refine refers_get fun _ _ => ?_
    -- the walk from the component comes after its description, if it has one
    split
    on_goal 1 =>
      refine (refers_ofExcept (Prose.plain_ofMember _ _)).bind fun description d₁ _ hd₁ => ?_
      subst hd₁
      refine (refers_modify rfl rfl fun hd _ => ⟨grows_describe _ _ _, hd.of_describe _ _⟩).bind
        fun _ d₂ _ hd₂ => ?_
      subst hd₂
    all_goals
      refine (shapeOf_refers hroot "<inline>" _).bind fun _ d₂ _ hwalk => refers_get fun _ _ => ?_
      obtain ⟨hfin, hs⟩ := hwalk
      split
      · next hdef =>
        refine (refers_modify (progress_claim _ _ _) (nodes_claim _ _ _)
          fun hd ho => hd.of_claim (fun g hg _ => ho g hg) hdef).bind fun _ d₃ hr₃ hd₃ => ?_
        refine hrest d₃ (hfin.mono hr₃.references.grows) ?_
        rw [hd₃, progress_claim]
        exact hs
      · exact hrest _ hfin hs

variable (free) in
theorem drafted_start (document : Value) (reserved : List String) :
    (start document reserved).Drafted free document where
  walked := Naming.walked_start (Registry.sound_start reserved)
  chain := rfl
  filled := fun _ _ h => by cases h
  claims := fun _ _ h => by cases h

theorem onlyReferences_start (document : Value) (reserved : List String) :
    (start document reserved).OnlyReferences := by
  intro g hg
  cases hg

/-- The drafts on the way through the components: their names are given, they are walked from, and
what has been found is filled in. -/
structure Added (free : FreeKeys) (C : Registry.naming.Course document)
    (entries : List (Scalar × Value)) (d d₀ d₁ d' : Draft) : Prop where
  naming : Referring free C d d₀
  named : ∀ g ∈ d₀.registry.given, g ∈ d.registry.given ∨
    (Name.Styled g.id ∧ g.key ∈ componentRefs entries)
  walking : Referring free C d₀ d₁
  steps : C.Steps d₀.progress d₁.progress
  finished : ∀ ref ∈ componentRefs entries, d₁.Finished ref
  fills : d₁.Fills d'
  ready : d'.Ready free document
  adds : Adds free d₁.Inside d₁ d'

/-- Components are named, and then walked from, before anything is filled in. -/
theorem components_refers {C : Registry.naming.Course document} (entries : List (Scalar × Value))
    (d : Draft) :
    Refers free C ((componentRefs entries).map refSchema) d
      (nameComponents (entries.map fun e => e.1.display) >>= fun _ => addSchemas entries)
      fun _ d' => ∃ d₀, Referring free C d d₀ ∧
        (∀ g ∈ d₀.registry.given, g ∈ d.registry.given ∨
          (Name.Styled g.id ∧ g.key ∈ componentRefs entries)) ∧
        Referring free C d₀ d' ∧ C.Steps d₀.progress d'.progress ∧
        ∀ ref ∈ componentRefs entries, d'.Finished ref := by
  refine (nameComponents_refers _ _ d).bind fun _ d₀ hr₀ hnamed => ?_
  rw [map_componentRef] at hnamed
  apply (addSchemas_refers entries (fun _ h => h) d₀).imp
  rintro _ d₁ hr₁ ⟨hall, hs₁⟩
  exact ⟨d₀, hr₀, hnamed.2, hr₁, hs₁, hall⟩

/-- Adding components finishes each of them, before any record inside a shape is named. It is refused
as a composition that leads back to itself only if a walk from one of them is stuck in a loop. -/
theorem addComponents_added (C : Registry.naming.Course document) (hd : d.Drafted free document)
    (ho : d.OnlyReferences) (hh : C.Holds d.progress) :
    addComponents.Ends d
      (fun _ d' => ∃ origin entries, Document.schemas document = .ok (.mapping origin entries) ∧
        ∃ d₀ d₁, Added free C entries d d₀ d₁ d')
      fun fault d' => fault.isSelfReferring = true → ∃ origin entries,
        Document.schemas document = .ok (.mapping origin entries) ∧ ∃ ref ∈ componentRefs entries,
          Registry.naming.Stuck document (refSchema ref) d.progress d'.progress := by
  have hdoc : d.document = document := hd.walked.recalls.document_eq
  -- whatever is refused for another reason
  have hother : ∀ (fault : Fault) (d' : Draft), fault.isSelfReferring = false →
      fault.isSelfReferring = true → ∃ origin entries,
        Document.schemas document = .ok (.mapping origin entries) ∧ ∃ ref ∈ componentRefs entries,
          Registry.naming.Stuck document (refSchema ref) d.progress d'.progress := by
    intro fault d' hf hself
    rw [hf] at hself
    cases hself
  simp only [addComponents, Step.ends_bind, Step.ends_get, hdoc]
  rw [Step.ends_ofExcept]
  refine ⟨fun schemas hs => ?_, fun fault hf => hother fault d (Document.plain_schemas _ fault hf)⟩
  split
  · next origin entries =>
    have hstuck : ∀ (fault : Fault) (d' : Draft), (fault.isSelfReferring = true →
        ∃ root ∈ (componentRefs entries).map refSchema,
          Registry.naming.Stuck document root d.progress d'.progress) →
        fault.isSelfReferring = true → ∃ origin' entries',
          Document.schemas document = .ok (.mapping origin' entries') ∧
            ∃ ref ∈ componentRefs entries',
              Registry.naming.Stuck document (refSchema ref) d.progress d'.progress := by
      intro fault d' hf hself
      obtain ⟨root, hroot, hl⟩ := hf hself
      obtain ⟨ref, href, rfl⟩ := List.mem_map.mp hroot
      exact ⟨origin, entries, hs, ref, href, hl⟩
    have hends := components_refers entries d hd ho hh
    rw [Step.ends_bind] at hends ⊢
    apply hends.imp _ hstuck
    intro _ _ hadded
    rw [Step.ends_bind]
    apply hadded.imp _ hstuck
    rintro _ d₁ ⟨hr, d₀, hr₀, hnamed, hr₁, hs₁, hall⟩
    have hr := hr.references
    apply (fillAll_ready hr.drafted (ho.of_grows hr.names).full).imp _ hother
    rintro _ d' ⟨hfills, hready, hadds⟩
    exact ⟨origin, entries, hs, d₀, d₁, hr₀, hnamed, hr₁, hs₁, hall, hfills, hready, hadds⟩
  · rw [Step.ends_bind]
    apply (nameComponents_plain hd ho _).imp _ hother
    intro _ d₁ _
    exact hother _ d₁ rfl
  · rw [Step.ends_bind]
    apply (nameComponents_plain hd ho _).imp _ hother
    intro _ d₁ _
    exact hother _ d₁ rfl
  · exact hother _ d rfl

theorem addComponents_ends (hd : d.Drafted free document) (ho : d.OnlyReferences) :
    addComponents.Ends d
      (fun _ d' => d.Grows d' ∧ d'.Ready free document ∧
        ∃ origin entries, Document.schemas document = .ok (.mapping origin entries) ∧
          ∃ d₁, References free document d d₁ ∧ d₁.Grows d' ∧
            ∀ ref ∈ componentRefs entries, d₁.Finished ref)
      fun fault d' => fault.isSelfReferring = true → ∃ origin entries,
        Document.schemas document = .ok (.mapping origin entries) ∧ ∃ ref ∈ componentRefs entries,
          Registry.naming.Stuck document (refSchema ref) d.progress d'.progress := by
  apply (addComponents_added (Registry.course document) hd ho trivial).imp_ok
  rintro _ d' ⟨origin, entries, hs, d₀, d₁, ha⟩
  have hr := ha.naming.references.trans ha.walking.references
  exact ⟨hr.grows.trans ha.fills.grows, ha.ready, origin, entries, hs, d₁, hr, ha.fills.grows,
    ha.finished⟩

end RouteStubs.Draft
