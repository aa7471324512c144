import RouteStubs.Proofs.Draft.Run
import RouteStubs.Proofs.Hoisting
import RouteStubs.Proofs.Keys

/-!
# What a document comes to

Everything that is declared for a document comes from it. A name is given to a reference, to a record
inside a shape, or to the record of the parameters or the responses of an operation. What is filled in
for a reference renders its definition, and a record inside a shape is declared for its mapping. So
each step of the collection leaves it, and the table shows it.

## Main definitions

* `Draft.Gathered`: what holds of a draft into which a document is collected.
* `Draft.table`: the table that shows what a draft says.

## Main statements

* `Draft.Gathered.invariant`: what the steps of the collection of operations keep.
* `Plan.gathered_of_collect`: what a document comes to.
-/

namespace RouteStubs

open Registry Shape Value

/-- What is taken from a document adds no identities to those of the document. -/
theorem Value.Identified.takenFrom {document : Value} (h : Identified (Part · document)) :
    Identified (TakenFrom · document) := by
  have hpart : ∀ {root : Value} {origin : Nat} {entries : Entries}, root.TakenFrom document →
      Part (.mapping origin entries) root → Part (.mapping origin entries) document := by
    rintro root origin entries (⟨s, rfl⟩ | hroot) hp
    · cases hp
    · exact hp.trans hroot
  intro origin entries entries' root root' hroot hroot' hp hp'
  exact h origin entries entries' document document .refl .refl (hpart hroot hp) (hpart hroot' hp')

namespace Draft

variable {free : FreeKeys} {document v : Value} {roots : Value → Prop} {d d' : Draft}
  {id name key description : String} {node : Shape} {fields : List (Field Shape)}

/-! ### Any keys -/

theorem Says.all {g : Given} (h : d.Says free g node) : d.Says .all g node := by
  unfold Says at *
  split at h
  · exact h
  · obtain ⟨record, -, hp⟩ := h
    exact ⟨record, .inl trivial, hp⟩
  · trivial

/-- What holds whichever keys are free holds if all of them are. -/
theorem Ready.all (h : d.Ready free document) : d.Ready .all document where
  drafted := {
    walked := h.drafted.walked
    chain := h.drafted.chain
    filled := fun id filled hf => by
      obtain ⟨g, hg, hid, hs⟩ := h.drafted.filled id filled hf
      exact ⟨g, hg, hid, hs.all⟩
    claims := h.drafted.claims }
  full := h.full
  done := h.done

/-! ### The invariant -/

/-- What the draft says under each name. -/
def table (d : Draft) : Declarations := ⟨d.registry.given.map d.declarationOf, d.registry.index⟩

/-- The draft is made of a document: declarations are shared, and a name is that of a reference, of a
record inside a shape, or of the record of parameters or responses. -/
structure Gathered (document : Value) (d : Draft) : Prop where
  ready : d.Ready .paths document
  shared : d.Shared (TakenFrom · document)
  named : ∃ reserved, Registry.Grows (fun _ => True) (Registry.empty reserved) d.registry
  given : ∀ g ∈ d.registry.given,
    Drawn g ∨ ∃ fields, d.nodes.lookup g.id = some (.record fields none "" none)

/-- What is declared for a mapping renders a record that was read from a mapping of the document. -/
theorem Gathered.exists_rendered (h : d.Gathered document) {s : Source}
    (hl : d.bySource.lookup s = some id) :
    ∃ found filled, found.source? = some s ∧ found.Throughout (d.Sprung (TakenFrom · document)) ∧
      d.nodes.lookup id = some filled ∧ d.Renders found filled :=
  @Draft.exists_rendered document (TakenFrom · document) d id s Part.refl.takenFrom h.ready.all
    h.shared hl

theorem Gathered.sprung_definition (h : d.Gathered document)
    (hn : d.progress.definitions.find? name = some node) :
    node.Throughout (d.Sprung (TakenFrom · document)) :=
  @Draft.sprung_definition document (TakenFrom · document) d name node Part.refl.takenFrom
    h.ready.drafted.walked hn

theorem Gathered.named_of_grows (h : d.Gathered document) (hg : d.Grows d') :
    ∃ reserved, Registry.Grows (fun _ => True) (Registry.empty reserved) d'.registry := by
  obtain ⟨reserved, hr⟩ := h.named
  exact ⟨reserved, hr.trans hg.registry⟩

theorem Gathered.given_of_grows (h : d.Gathered document) (hg : d.Grows d')
    (hr : d.registry.Grows Drawn d'.registry) : ∀ g ∈ d'.registry.given,
      Drawn g ∨ ∃ fields, d'.nodes.lookup g.id = some (.record fields none "" none) := by
  intro g hgm
  rcases hr.mem_or_allowed hgm with hgm | hdrawn
  · refine (h.given g hgm).imp_right ?_
    rintro ⟨fields, hn⟩
    exact ⟨fields, hg.nodes _ _ hn⟩
  · exact .inl hdrawn

/-- A record of parameters or responses is declared for no mapping. -/
theorem Shared.of_envelope (h : d.Shared roots) (hd : d.Drafted free document) (hg : d.Grows d')
    (fresh : id ∉ d.registry.taken) (hr : d'.registry = d.registry.add ⟨id, key, .envelope⟩)
    (hn : d'.nodes = Keyed.put d.nodes id node) (hb : d'.bySource = d.bySource) :
    d'.Shared roots := by
  have hgiven : ∀ g ∈ d'.registry.given, g.origin ≠ .envelope → g ∈ d.registry.given := by
    intro g hgm ho
    rw [hr, given_add, List.mem_append, List.mem_singleton] at hgm
    refine hgm.resolve_right ?_
    rintro rfl
    exact ho rfl
  have hnodes : ∀ g ∈ d.registry.given, d'.nodes.lookup g.id = d.nodes.lookup g.id := by
    intro g hgm
    rw [hn, Keyed.lookup_put_of_ne _ (notMem_of_fresh fresh hgm)]
  refine ⟨fun s id' hl => ?_, fun g hgm ho filled hf => ?_, fun g hgm ho => ?_⟩
  · rw [hb] at hl
    obtain ⟨g, hgm, rfl, -⟩ := h.declared s id' hl
    exact (h.declared s g.id hl).mono hg hd.chain (hnodes g hgm)
  · have hgm' := hgiven g hgm (by simp [ho])
    rw [hnodes g hgm'] at hf
    obtain ⟨definition, hdef, hrenders⟩ := h.rendered g hgm' ho filled hf
    exact ⟨definition, Definitions.find?_mono hg.definitions hdef, hrenders.mono hg⟩
  · rw [hb]
    exact h.claimed g (hgiven g hgm (by simp [ho])) ho

theorem Gathered.inline {schema : Value} (h : d.Gathered document) (hs : schema.TakenFrom document)
    (hk : FreeKeys.paths.Has key) (name : String) :
    (addInline schema name key).Ends d (fun _ d' => d'.Gathered document) fun _ _ => True := by
  have hshares := @addInline_shares document (TakenFrom · document) d Part.refl.takenFrom h.ready.all
    h.shared schema hs name key
  apply ((addInline_ends h.ready hk schema name).and hshares).forget
  rintro _ d' ⟨⟨hg, hready, -⟩, -, -, hshared, hr, -⟩
  exact ⟨hready, hshared, h.named_of_grows hg, h.given_of_grows hg hr⟩

theorem Gathered.envelope (h : d.Gathered document) (hk : FreeKeys.paths.Has key)
    (fields : List (Field Shape)) (name description : String) :
    (addEnvelope name (.record fields none "" none) key description).Ends d
      (fun _ d' => d'.Gathered document) fun _ _ => True := by
  apply (h.ready.envelope hk name _ description).forget
  rintro id d' ⟨hg, hready, -, fresh, hr, hn, hb⟩
  refine ⟨hready, h.shared.of_envelope h.ready.drafted hg fresh hr hn hb, h.named_of_grows hg,
    fun g hgm => ?_⟩
  rw [hr, given_add, List.mem_append, List.mem_singleton] at hgm
  rcases hgm with hgm | rfl
  · refine (h.given g hgm).imp_right ?_
    rintro ⟨others, hl⟩
    exact ⟨others, hg.nodes _ _ hl⟩
  · exact .inr ⟨fields, by rw [hn, Keyed.lookup_put_self]⟩

theorem Gathered.lookup (h : d.Gathered document) (v : Value) :
    (onResolver (Resolver.resolveNode v)).Ends d
      (fun found d' => d'.Gathered document ∧ (found = v ∨ Part found document))
      fun _ _ => True := by
  apply (h.ready.lookup v).forget
  rintro found d' ⟨hg, hready, hr, hn, hb, hfound⟩
  have hshared := h.shared.of_names h.ready.drafted hready.drafted hg (hr ▸ .refl) hn hb
  exact ⟨⟨hready, hshared, h.named_of_grows hg, h.given_of_grows hg (hr ▸ .refl)⟩, hfound⟩

/-- The draft stays one of the document while operations are collected. -/
theorem Gathered.invariant (document : Value) :
    Collect.Invariant document (Gathered document) where
  document_eq _ h := h.ready.document_eq
  inline schema name _ hs hk := by
    intro d h
    exact (h.inline hs hk name).imp_ok fun _ _ h' => ⟨h', trivial⟩
  envelope fields name _ description hk := by
    intro d h
    exact (h.envelope hk fields name description).imp_ok fun _ _ h' => ⟨h', trivial⟩
  lookup v := by
    intro d h
    exact h.lookup v

/-- Adding the components to an empty draft makes it one of the document. -/
theorem gathered_addComponents (document : Value) (reserved : List String) :
    addComponents.Ends (start document reserved) (fun _ d => d.Gathered document)
      fun _ _ => True := by
  have hempty : (start document reserved).registry.given = [] := rfl
  have hshares := @addComponents_shares document (TakenFrom · document) _ Part.refl.takenFrom
    (ready_start document reserved) (shared_start _ document reserved) fun _ _ _ _ hg => nomatch hg
  apply ((addComponents_ends (drafted_start .paths document reserved)
    (onlyReferences_start document reserved)).and hshares).forget
  rintro _ d ⟨⟨hg, hready, -⟩, -, -, hshared, hr⟩
  refine ⟨hready, hshared, ⟨reserved, hg.registry⟩, fun g hgm => ?_⟩
  rcases hr.mem_or_allowed hgm with hgm | hdrawn
  · rw [hempty] at hgm
    cases hgm
  · exact .inl hdrawn

end Draft

/-- Whatever the declarations of a document are worked out to, the draft is one of the document, and
the table shows what it says under each name. -/
theorem Plan.gathered_of_collect {document : Value} {reserved : List String} {d : Draft}
    {operations : List Operation} {table : Declarations}
    (h : Plan.collect.runFrom (Draft.start document reserved) = (.ok (operations, table), d)) :
    d.Gathered document ∧ table = d.table := by
  have hends : Plan.collect.Ends (Draft.start document reserved)
      (fun result d => d.Gathered document ∧ result.2 = d.table) fun _ _ => True := by
    simp only [Plan.collect, Step.ends_bind, Step.ends_pure]
    apply (Draft.gathered_addComponents document reserved).forget
    intro _ d₁ h₁
    apply ((Draft.Gathered.invariant document).operations d₁ h₁).forget
    rintro _ d₂ ⟨h₂, -⟩
    -- nothing is left to be filled in
    have hbuild := Draft.build_of_done h₂.ready.done
    apply (Step.ends_self _ d₂).forget
    intro table d₃ hrun
    rw [hbuild] at hrun
    cases hrun
    exact ⟨h₂, rfl⟩
  exact hends.of_ok h

end RouteStubs
