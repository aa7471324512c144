import RouteStubs.Proofs.Draft.Additions
import RouteStubs.Proofs.Keys

/-!
# Registered components

When the components of a document have been walked from, each of them is defined, and if it is a record
then something is declared for its mapping. When they have been filled in, the same holds for the record
that comes first among the variants of a union. Such a record is what the component is read as when it is
met again and the other variants are dropped as repetitions of the first one.

## Main definitions

* `Shape.Foremost`: the shape itself, or what comes first in the first variant of a union.
* `Draft.Registered`: a name is defined, and if it is a record something is declared for its mapping.
* `Draft.Preempts`: something is declared for the record that comes first in a definition.

## Main statements

* `Shape.Alike.exists_foremost`: what is alike to a record has one that comes first.
* `Draft.addSchemas_registers`, `Draft.Shared.preempts`: components.
-/

namespace RouteStubs

/-! ### What comes first -/

namespace Shape

variable {key : String → Option String} {stands : Shape → String → Prop}
  {settles : List Shape → Option String → Option String → Prop}
  {node other placed record variant : Shape}

/-- The shape itself, or what comes first in the first variant of a union. -/
inductive Foremost (record : Shape) : Shape → Prop
  | here : Foremost record record
  | first {first : Shape} {others : List Shape} {discriminator : Option String}
      (h : Foremost record first) : Foremost record (.union (first :: others) discriminator)

/-- What is alike to a record with fields is one, or a union in which such a record of the same mapping
comes first. -/
theorem Alike.exists_foremost {fields : List (Field Shape)} {trailer : Option Shape}
    {description : String} {source : Option Source} (hne : fields ≠ [])
    (h : Alike key (.record fields trailer description source) other) :
    ∃ record, Foremost record other ∧ ¬ record.Flat ∧ record.source? = source := by
  induction hsize : sizeOf other using Nat.strongRecOn generalizing other with
  | ind n ih =>
    cases h with
    | record hf _ =>
      refine ⟨_, .here, fun hflat => ?_, rfl⟩
      cases hflat _ _ _ _ rfl
      cases hf
      exact hne rfl
    | @fewer nodes others _ discriminator hnodes hn =>
      -- the only shape is the first one, and the first variant is alike to it
      cases hnodes with
      | nil => cases hn
      | @cons node first nodes others head _ =>
        obtain ⟨kept, hkept⟩ := distinct_cons node nodes
        obtain ⟨kept', hkept'⟩ := distinct_cons first others
        cases hn.symm.trans hkept
        rw [hkept'] at hsize ⊢
        obtain ⟨record, hrecord, hfields⟩ :=
          ih (sizeOf first) (by rw [← hsize]; simp; omega) head rfl
        exact ⟨record, hrecord.first, hfields⟩
    | orNull _ hn _ => exact absurd hn.symm orNull_ne_record

/-- The first variant of a union is mirrored inside it. -/
theorem Mirrors.exists_variant {others : List Shape} {discriminator : Option String}
    (h : Mirrors stands settles (.union (variant :: others) discriminator) placed) :
    ∃ placed, MirrorsInside stands settles variant placed := by
  cases h with
  | union _ hv =>
    cases hv with
    | cons h _ => exact ⟨_, h⟩
  | leaf hl => cases hl

/-- A handle stands for the record with fields that comes first in a shape inside another one. -/
theorem MirrorsInside.exists_of_foremost (hf : Foremost record node) (hr : ¬ record.Flat)
    (h : MirrorsInside stands settles node placed) : ∃ id, stands record id := by
  induction hf generalizing placed with
  | here =>
    cases h with
    | handle _ hs => exact ⟨_, hs⟩
    | parts hflat _ => exact absurd hflat hr
  | first _ ih =>
    cases h with
    | handle hflat _ =>
      obtain ⟨_, _, _, _, _, heq⟩ := not_flat_iff.mp hflat
      cases heq
    | parts _ h =>
      obtain ⟨_, h⟩ := h.exists_variant
      exact ih h

/-- A handle stands for the record with fields that comes first in a union. -/
theorem Mirrors.exists_of_foremost (hf : Foremost record node) (hr : ¬ record.Flat)
    (hne : record ≠ node) (h : Mirrors stands settles node placed) : ∃ id, stands record id := by
  cases hf with
  | here => exact absurd rfl hne
  | first hf =>
    obtain ⟨_, h⟩ := h.exists_variant
    exact h.exists_of_foremost hf hr

end Shape

namespace Draft

open Registry Shape Value

variable {free : FreeKeys} {document : Value} {C : naming.Course document}
  {roots : Value → Prop} {reserved : List String} {d d' : Draft} {id : String}

/-! ### Components that have been walked from -/

/-- The name is defined, and if it is defined as a record then something is declared for the mapping of
the record. -/
def Registered (d : Draft) (id : String) : Prop :=
  ∃ node, d.progress.definitions.find? id = some node ∧
    ∀ s, node.source? = some s → (d.bySource.lookup s).isSome

theorem isSome_lookup_bySource (hg : d.Grows d') {s : Source} (h : (d.bySource.lookup s).isSome) :
    (d'.bySource.lookup s).isSome := by
  obtain ⟨id, hid⟩ := Option.isSome_iff_exists.mp h
  exact Option.isSome_iff_exists.mpr ⟨id, hg.sources s id hid⟩

theorem Registered.mono (hg : d.Grows d') (h : d.Registered id) : d'.Registered id := by
  obtain ⟨node, hn, hs⟩ := h
  exact ⟨node, Definitions.find?_mono hg.definitions hn, fun s hsource =>
    isSome_lookup_bySource hg (hs s hsource)⟩

theorem isSome_lookup_claim (s : Source) (id : String) (d : Draft) :
    ((claim (some s) id d).bySource.lookup s).isSome := by
  rw [bySource_claim, if_pos rfl, Option.isSome_or, Option.isSome_some, Bool.or_true]

/-- A component that is finished is defined under the name that it has. -/
theorem Finished.isSome_find? {ref : String} (h : d.Finished ref) (hd : d.Drafted free document)
    (ho : d.OnlyReferences) (hg : (empty reserved).Grows (fun _ => True) d.registry)
    (hid : d.registry.index.lookup ref = some id) : (d.progress.definitions.find? id).isSome := by
  obtain ⟨name, hname, hsome⟩ := h
  have hstands : naming.stands d.progress.names id = some ref := hd.sound.keyOf?_of_lookup hid
  rwa [ho.name_unique hg hname hstands] at hsome

/-- A component is walked from, and claimed if it is a record; then the others follow. -/
theorem readComponent_registers {ref : String} {refs : List Value} {rest : Step Draft Unit}
    {Q : Unit → Draft → Prop} (hroot : refSchema ref ∈ refs)
    (hg : (empty reserved).Grows (fun _ => True) d.registry)
    (hid : d.registry.index.lookup ref = some id)
    (hrest : ∀ d₁, Referring free C d d₁ → d₁.Registered id → Refers free C refs d₁ rest Q) :
    Refers free C refs d
      (do
        let _ ← onProgress (Canon.shapeOf nameFor "<inline>" (refSchema ref))
        match (← get).progress.definitions.find? id with
        | some (.record _ _ _ source) => modify (claim source id)
        | _ => pure ()
        rest : Step Draft Unit) Q := by
  refine (shapeOf_refers hroot "<inline>" d).bind fun _ d₂ hr₂ hwalk => ?_
  refine refers_get fun hd₂ ho₂ => ?_
  have hnames := hr₂.references.names
  have hsome := hwalk.1.isSome_find? hd₂ ho₂ (hg.trans (hnames.imp fun _ _ => trivial))
    (hnames.lookup_index hid)
  split
  · next source hdef =>
    refine (refers_modify (progress_claim _ _ _) (nodes_claim _ _ _)
      fun hd ho => hd.of_claim (fun g hg _ => ho g hg) hdef).bind fun _ d₃ hr₃ hd₃ => ?_
    refine hrest d₃ (hr₂.trans hr₃) ⟨_, Definitions.find?_mono hr₃.references.grows.definitions hdef,
      fun s hs => ?_⟩
    cases hs
    rw [hd₃]
    exact isSome_lookup_claim s id d₂
  · next hno =>
    obtain ⟨node, hnode⟩ := Option.isSome_iff_exists.mp hsome
    refine hrest d₂ hr₂ ⟨node, hnode, fun s hs => ?_⟩
    cases node with
    | record _ _ _ source => exact absurd hnode (hno _ _ _ _)
    | _ => cases hs

/-- The components are walked from, one after the other, and registered. -/
theorem addSchemas_registers {refs : List Value} (entries : List (Scalar × Value))
    (hm : (componentRefs entries).map refSchema ⊆ refs) (d : Draft)
    (hg : (empty reserved).Grows (fun _ => True) d.registry)
    (hnamed : ∀ ref ∈ componentRefs entries, ∃ id, d.registry.index.lookup ref = some id) :
    Refers free C refs d (addSchemas entries) fun _ d' => ∀ ref ∈ componentRefs entries,
      ∀ id, d'.registry.index.lookup ref = some id → d'.Registered id := by
  induction entries generalizing d with
  | nil => exact refers_pure (List.forall_mem_nil _)
  | cons e rest ih =>
    obtain ⟨name, raw⟩ := e
    obtain ⟨hroot, hroots⟩ := List.cons_subset.mp hm
    obtain ⟨⟨id, hid⟩, hnamed⟩ := List.forall_mem_cons.mp hnamed
    have hrest : ∀ d₁, Referring free C d d₁ → d₁.Registered id →
        Refers free C refs d₁ (addSchemas rest) fun _ d' =>
          ∀ ref ∈ componentRefs ((name, raw) :: rest), ∀ id,
            d'.registry.index.lookup ref = some id → d'.Registered id := by
      intro d₁ hr hdone
      have hnames := hr.references.names
      refine (ih hroots d₁ (hg.trans (hnames.imp fun _ _ => trivial)) fun ref href => ?_).imp
        fun _ d' hr' hall => List.forall_mem_cons.mpr ⟨fun id' hid' => ?_, hall⟩
      · obtain ⟨id', hid'⟩ := hnamed ref href
        exact ⟨id', hnames.lookup_index hid'⟩
      · cases (hr'.references.names.lookup_index (hnames.lookup_index hid)).symm.trans hid'
        exact hdone.mono hr'.references.grows
    unfold addSchemas
    refine refers_get fun _ _ => ?_
    rw [hid, Option.getD_some]
    -- the walk from the component comes after its description, if it has one
    split
    · refine (refers_ofExcept (Prose.plain_ofMember _ _)).bind fun description d₁ _ hd₁ => ?_
      subst hd₁
      refine (refers_modify rfl rfl fun hd _ => ⟨grows_describe _ _ _, hd.of_describe _ _⟩).bind
        fun _ d₂ hr₂ hd₂ => ?_
      subst hd₂
      exact readComponent_registers hroot hg hid fun d₃ hr₃ => hrest d₃ (hr₂.trans hr₃)
    · exact readComponent_registers hroot hg hid hrest

/-! ### Components that have been filled in -/

/-- Something is declared for the mapping of the record with fields that comes first in the definition of
the name. -/
def Preempts (d : Draft) (id : String) : Prop :=
  ∃ node, d.progress.definitions.find? id = some node ∧ ∀ record s, Foremost record node →
    ¬ record.Flat → record.source? = some s → (d.bySource.lookup s).isSome

/-- A registered reference that is filled in preempts its record. -/
theorem Shared.preempts (h : d.Shared roots) {g : Given} (hg : g ∈ d.registry.given)
    (ho : g.origin = .schema) (hfilled : (d.nodes.lookup g.id).isSome) (hr : d.Registered g.id) :
    d.Preempts g.id := by
  obtain ⟨node, hnode, hsource⟩ := hr
  refine ⟨node, hnode, fun record s hfirst hflat hs => ?_⟩
  by_cases heq : record = node
  · exact hsource s (heq ▸ hs)
  · obtain ⟨filled, hl⟩ := Option.isSome_iff_exists.mp hfilled
    obtain ⟨node', hnode', hrenders⟩ := h.rendered g hg ho filled hl
    cases hnode.symm.trans hnode'
    obtain ⟨id, hclaims⟩ := hrenders.exists_of_foremost hfirst hflat heq
    rw [Claims, hs] at hclaims
    exact Option.isSome_iff_exists.mpr ⟨id, hclaims⟩

end Draft

end RouteStubs
