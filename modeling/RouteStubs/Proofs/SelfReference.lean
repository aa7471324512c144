import RouteStubs.Proofs.Keys
import RouteStubs.Proofs.Part
import RouteStubs.Proofs.Schema.Course

/-!
# Compositions that lead back to themselves

A member of a composition is looked up among the definitions when it is merged. It is refused as one
that leads back to the composition when the lookup ends at a reference whose definition is still
being found, or in a circle. That definition need not be the one of the composition: the
composition may stand under a property of it, an item or a variant. So a document is refused for this
reason only if there is a loop through schemas of any kind, and if the loop closes at the component
that is walked first, the document is refused.

## Main definitions

* `Canon.Closes`: a member of a composition leads to a reference.
* `Canon.Composes`: a schema has a member that is another one, by references alone.

## Main statements

* `Naming.Walked.not_merged`: what is merged does not lead to what is not finished.
* `Draft.addComponents_selfReferring`: which documents are refused.
-/

namespace RouteStubs

variable {ν : Type} {namer : Namer ν}

namespace Canon

/-- A composition that is met from the root has a member that is another name for the reference. -/
def Closes (document root : Value) (ref : String) : Prop :=
  ∃ schema member first, Visits document root schema ∧ member ∈ mergedMembers schema ∧
    IsRef member first ∧ Relation.ReflTransGen (Renames document) first ref

/-- The target of the first reference refers to the second. -/
def Forwards (document : Value) (ref ref' : String) : Prop :=
  ∃ found, Resolver.target document ref = .ok found ∧ found.member? "$ref" = some (.text ref')

/-- The target of the first reference is a composition with a member that is the target of the second,
by references alone. -/
def Composes (document : Value) (ref ref' : String) : Prop :=
  ∃ found members member first, Resolver.target document ref = .ok found ∧
    found.member? "allOf" = some (.list members) ∧ member ∈ members ∧
      member.member? "$ref" = some (.text first) ∧
        Relation.ReflTransGen (Forwards document) first ref'

end Canon

/-! ### What has been merged -/

namespace Naming

variable {N : Naming namer} {document : Value} {p : Progress ν} {finished : Definitions}
  {root schema member : Value} {name ref : String}

open Canon

/-- A schema that refers to something reads as a handle that stands for the reference. -/
theorem exists_points_of_rule {definitions : Definitions} {depth origin : Nat} {entries : Entries}
    {node : Shape} (h : Reads (N.Points p) definitions depth (.mapping origin entries) node)
    (rule : ruleOf entries = .reference (.text ref)) : ∃ name, N.Points p name ref := by
  cases depth with
  | zero => cases h
  | succ depth =>
    obtain ⟨_, he, -⟩ := h
    simp only [ReadsEntries, rule] at he
    obtain ⟨r, name, hr, hp, -⟩ := he
    cases hr
    exact ⟨name, hp⟩

/-- Between walks, what is met from a schema that reads, reads by means of definitions that were
finished before the last one of those it was met by. -/
theorem Walked.reads_of_visits (hw : N.Walked document p) (hc : p.resolver.chain = [])
    (hf : ∀ earlier definition later, p.definitions = earlier ++ definition :: later →
      earlier <+: finished)
    (hroot : ∃ earlier depth node, earlier <+: finished ∧
      Reads (N.Points p) earlier depth root node)
    (hv : Visits document root schema) : ∃ earlier depth node, earlier <+: finished ∧
      Reads (N.Points p) earlier depth schema node := by
  induction hv with
  | refl => exact hroot
  | tail _ hm ih =>
    obtain ⟨earlier, depth, node, hearlier, hr⟩ := ih
    cases hm with
    | part hp =>
      -- a schema inside reads by means of the same definitions
      obtain ⟨depth', node', hr'⟩ := hr.exists_of_mem hp
      exact ⟨earlier, depth', node', hearlier, hr'⟩
    | target rule leads =>
      -- a target reads by means of the definitions before its own
      obtain ⟨name, hp⟩ := exists_points_of_rule hr rule
      obtain ⟨node', -, -, hn, -⟩ := hw.exists_read hc hp
      obtain ⟨before, later, found, depth', hsplit, ht, hr'⟩ := hw.reads_definition hp.1 hn
      cases leads.symm.trans ht
      exact ⟨before, depth', node', hf _ _ _ hsplit, hr'⟩

/-- Handles lead nowhere if each of their references is not finished, or is another name for one of
the same kind. -/
theorem Walked.followIn_eq_none (hw : N.Walked document p) {earlier : Definitions}
    {Endless : String → Prop} (he : earlier <+: p.definitions)
    (unique : ∀ name name' ref, N.Points p name ref → N.Points p name' ref → name = name')
    (hends : ∀ ref, Endless ref → (∀ name, N.Points p name ref → earlier.find? name = none) ∨
      ∃ ref', Renames document ref ref' ∧ Endless ref')
    (hp : N.Points p name ref) (hr : Endless ref) (steps : Nat) :
    Definitions.followIn earlier.find? steps (.handle name) = none := by
  induction steps generalizing name ref with
  | zero => rfl
  | succ steps ih =>
    rw [Definitions.followIn]
    cases hf : earlier.find? name with
    | none => rfl
    | some node =>
      rw [Option.bind_some]
      rcases hends ref hr with hnone | ⟨ref', ⟨found, ht, hi⟩, hr'⟩
      · -- what is not finished is not looked up
        rw [hnone name hp] at hf
        cases hf
      · obtain ⟨before, later, hsplit⟩ :=
          Definitions.exists_split (Definitions.find?_mono he hf)
        obtain ⟨ref₁, found₁, depth, hs, ht₁, hread⟩ := hw.read _ _ _ _ hsplit
        cases hp.1.symm.trans hs
        cases ht.symm.trans ht₁
        obtain ⟨name', hp', rfl⟩ := hi.exists_handle (fun a b => unique a b ref') hread
        exact ih hp' hr'

/-- Between walks, what a finished reference is another name for is finished. -/
theorem Walked.exists_points_of_renames (hw : N.Walked document p) (hc : p.resolver.chain = [])
    (unique : ∀ name name' ref, N.Points p name ref → N.Points p name' ref → name = name')
    {first last : String} (hp : N.Points p name first)
    (h : Relation.ReflTransGen (Renames document) first last) : ∃ name, N.Points p name last := by
  induction h with
  | refl => exact ⟨name, hp⟩
  | tail _ hr ih =>
    obtain ⟨found, ht, hi⟩ := hr
    obtain ⟨name', hp'⟩ := ih
    obtain ⟨node, found', depth, -, ht', hread⟩ := hw.exists_read hc hp'
    cases ht.symm.trans ht'
    obtain ⟨name'', hp'', -⟩ := hi.exists_handle (fun a b => unique a b _) hread
    exact ⟨name'', hp''⟩

/-- Between walks, what the members of compositions lead to is finished. -/
theorem Walked.exists_points_of_mem_merged (hw : N.Walked document p) (hc : p.resolver.chain = [])
    (unique : ∀ name name' ref, N.Points p name ref → N.Points p name' ref → name = name')
    (hroot : ∃ depth node, Reads (N.Points p) p.definitions depth root node)
    (hv : Visits document root schema) (hm : member ∈ mergedMembers schema) {first last : String}
    (hi : IsRef member first) (h : Relation.ReflTransGen (Renames document) first last) :
    ∃ name, N.Points p name last := by
  obtain ⟨depth₀, node₀, hr₀⟩ := hroot
  have hearlier : ∀ earlier definition later, p.definitions = earlier ++ definition :: later →
      earlier <+: p.definitions := fun _ _ _ hs => hs ▸ List.prefix_append _ _
  obtain ⟨earlier, depth, node, -, hr⟩ := hw.reads_of_visits hc hearlier
    ⟨p.definitions, depth₀, node₀, List.prefix_refl _, hr₀⟩ hv
  obtain ⟨depth', node', found, hr', -⟩ := hr.exists_of_mem_merged hm
  obtain ⟨name, hp, -⟩ := hi.exists_handle (fun a b => unique a b first) hr'
  exact hw.exists_points_of_renames hc unique hp h

/-- A member of a composition that has been merged is no other name for a reference that leads
nowhere. -/
theorem Walked.not_merged (finished : Definitions) (Endless : String → Prop)
    (hw : N.Walked document p) (hc : p.resolver.chain = [])
    (hf : ∀ earlier definition later, p.definitions = earlier ++ definition :: later →
      earlier <+: finished) (hfinished : finished <+: p.definitions)
    (unique : ∀ name name' ref, N.Points p name ref → N.Points p name' ref → name = name')
    (hends : ∀ ref, Endless ref → (∀ name, N.Points p name ref → finished.find? name = none) ∨
      ∃ ref', Renames document ref ref' ∧ Endless ref')
    (hroot : ∃ earlier depth node, earlier <+: finished ∧
      Reads (N.Points p) earlier depth root node)
    (hv : Visits document root schema) (hm : member ∈ mergedMembers schema)
    (hi : IsRef member ref) : ¬ Endless ref := by
  intro hendless
  obtain ⟨earlier, depth, node, he, hr⟩ := hw.reads_of_visits hc hf hroot hv
  obtain ⟨depth', node', found, hr', hd⟩ := hr.exists_of_mem_merged hm
  obtain ⟨name, hp, rfl⟩ := hi.exists_handle (fun a b => unique a b ref) hr'
  have hnone := hw.followIn_eq_none (he.trans hfinished) unique (fun ref href =>
    (hends ref href).imp_left fun hnone name hp => by
      rw [Option.eq_none_iff_forall_ne_some]
      intro node hn
      simpa [hnone name hp] using Definitions.find?_mono he hn) hp hendless
      (earlier.length + 1)
  rw [Definitions.dereference, hnone] at hd
  cases hd

end Naming

/-! ### Components -/

namespace Draft

open Registry Canon

variable {free : FreeKeys} {document : Value} {reserved : List String} {d d' : Draft} {ref : String}

/-- When a walk over references is stuck, the reference that it is stuck at is not finished. -/
theorem looped_of_stuck {root : Value}
    (h : naming.Stuck document root (start document reserved).progress d.progress) :
    LoopedAt (fun ref => ¬ d.Finished ref) document root := by
  apply h.looped.imp
  rintro ref ⟨name, hname, hnone⟩ ⟨name', hs, hdone⟩
  have hnames : (empty reserved).Grows (·.origin = .schema) d.registry := h.names
  have ho : d.OnlyReferences := (onlyReferences_start document reserved).of_grows hnames
  have hcurrent := naming.stands_of_current ((sound_start reserved).of_grows hnames) hname
  rw [ho.name_unique (hnames.imp fun _ _ => trivial) hs hcurrent, hnone] at hdone
  cases hdone

/-- A walk from a component before anything is defined finishes the component last. -/
theorem shapeOf_first (hd : d.Drafted free document) (hdefs : d.progress.definitions = [])
    (context ref : String) :
    (onProgress (Canon.shapeOf Registry.nameFor context (refSchema ref))).Ends d
      (fun _ d' => References free document d d' ∧ ∃ name earlier node,
        naming.Points d'.progress name ref ∧
          d'.progress.definitions = earlier ++ [(name, node)])
      fun _ _ => True := by
  simp only [onProgress, Canon.shapeOf, Step.ends_within, Step.ends_bind, Step.ends_get]
  have hs : Surrounds document (refSchema ref) d.progress.resolver.chain (refSchema ref) :=
    ⟨.refl, fun r hr => by rw [hd.chain] at hr; cases hr⟩
  have hrule : ruleOf [(.text "$ref", .text ref)] = .reference (.text ref) := rfl
  unfold bound shape
  simp only [ofEntries_eq, hrule, Step.ends_bind]
  apply (Naming.Course.reference_goes hrule ((Naming.Course.bare naming document).shape_goes _)
    d.progress hd.walked trivial hs).forget
  rintro _ p ⟨⟨he, -, hw, -⟩, _, name, ⟨⟩, hp, rfl, hlast⟩
  obtain ⟨earlier, shape, hdefs'⟩ := hlast hdefs hd.chain
  have hg : d.Grows { d with progress := p } :=
    ⟨Registry.Grows.imp he.names fun _ _ => trivial, he.document_eq, he.definitions,
      fun _ _ h => h, fun _ _ h => h⟩
  exact ⟨⟨hg, hd.of_grows hg hw (he.chain_eq.trans hd.chain) rfl rfl, he.names⟩, name, earlier,
    shape, hp, hdefs'⟩

theorem addSchemas_first (hd : d.Drafted free document) (hdefs : d.progress.definitions = [])
    (name : Scalar) (raw : Value) (rest : List (Scalar × Value)) :
    (addSchemas ((name, raw) :: rest)).Ends d
      (fun _ _ => ∃ d₁, References free document d d₁ ∧ ∃ id earlier node,
        naming.Points d₁.progress id (componentRef name.display) ∧
          d₁.progress.definitions = earlier ++ [(id, node)])
      fun _ _ => True := by
  simp only [addSchemas, Step.ends_bind, Step.ends_get]
  split
  · refine Step.ends_bind.mpr (Step.ends_ofExcept.mpr ⟨fun description _ => ?_, fun _ _ => trivial⟩)
    refine Step.ends_bind.mpr (Step.ends_bind.mpr ?_)
    apply (shapeOf_first (hd.of_describe _ description) hdefs _ _).forget
    rintro _ d₁ ⟨hr, hlast⟩
    have hg := (grows_describe _ description d).trans hr.grows
    exact Step.ends_of_forall (fun _ _ => ⟨d₁, ⟨hg, hr.drafted, hr.names⟩, hlast⟩)
      fun _ _ => trivial
  · rw [Step.ends_bind]
    apply (shapeOf_first hd hdefs _ _).forget
    intro _ d₁ hfirst
    exact Step.ends_of_forall (fun _ _ => ⟨d₁, hfirst⟩) fun _ _ => trivial

/-- The component that comes first is finished last of all that it is walked by. -/
theorem addComponents_first (hd : d.Drafted free document) (ho : d.OnlyReferences)
    (hdefs : d.progress.definitions = []) {origin : Nat} {entries : List (Scalar × Value)}
    (hs : Document.schemas document = .ok (.mapping origin entries))
    (hfirst : (componentRefs entries).head? = some ref) :
    addComponents.Ends d
      (fun _ _ => ∃ d₁, References free document d d₁ ∧ ∃ id earlier node,
        naming.Points d₁.progress id ref ∧ d₁.progress.definitions = earlier ++ [(id, node)])
      fun _ _ => True := by
  obtain _ | ⟨⟨name, raw⟩, rest⟩ := entries
  · cases hfirst
  obtain rfl : componentRef name.display = ref := Option.some.inj hfirst
  have hdoc : d.document = document := hd.walked.recalls.document_eq
  simp only [addComponents, Step.ends_bind, Step.ends_get, hdoc, hs]
  refine Step.ends_ofExcept.mpr ⟨fun schemas hschemas => ?_, fun _ _ => trivial⟩
  cases hschemas
  rw [Step.ends_bind]
  apply (nameComponents_refers (C := Registry.course document) [] _ d hd ho trivial).forget
  rintro _ d₁ ⟨⟨hr₁, -, -⟩, hdefs₁, -⟩
  rw [Step.ends_bind]
  apply (addSchemas_first hr₁.drafted (hdefs₁.trans hdefs) name raw rest).forget
  rintro _ _ ⟨d₂, hr₂, hlast⟩
  exact Step.ends_of_forall (fun _ _ => ⟨d₂, hr₁.trans hr₂, hlast⟩) fun _ _ => trivial

/-- The schema of a reference reads as a handle that stands for it. -/
theorem reads_refSchema {definitions : Definitions} {name : String}
    (hp : naming.Points d.progress name ref) :
    Reads (naming.Points d.progress) definitions 1 (refSchema ref) (.handle name) :=
  ⟨.handle name, ⟨ref, name, rfl, hp, rfl⟩, rfl⟩

/-- No loop closes at a component that is finished last. -/
theorem not_closes_of_last (hd : d.Drafted free document) (ho : d.OnlyReferences)
    (hg : (start document reserved).Grows d) {id : String} {earlier : Definitions} {node : Shape}
    (hp : naming.Points d.progress id ref) (hdefs : d.progress.definitions = earlier ++ [(id, node)]) :
    ¬ Closes document (refSchema ref) ref := by
  rintro ⟨schema, member, first, hv, hm, hi, hren⟩
  have hnone : earlier.find? id = none := by
    have hnodup := hd.walked.nodup
    rw [hdefs, List.map_append, List.nodup_append] at hnodup
    rw [Option.eq_none_iff_forall_ne_some]
    exact fun _ hf => hnodup.2.2 _ (Definitions.mem_keys_of_find? hf) id (by simp) rfl
  refine Naming.Walked.not_merged earlier
    (fun r => Relation.ReflTransGen (Renames document) r ref) hd.walked hd.chain
    (fun before _ _ hs => ?_) (hdefs ▸ List.prefix_append _ _) (ho.points_unique hg)
    (fun r hr => ?_)
    ⟨earlier, 1, .handle id, List.prefix_refl _, reads_refSchema hp⟩ hv hm hi hren
  · rw [hdefs] at hs
    rcases Keyed.split_concat hs with ⟨rfl, -⟩ | ⟨after, rfl⟩
    · exact List.prefix_refl _
    · exact List.prefix_append _ _
  · rcases Relation.ReflTransGen.cases_head hr with rfl | ⟨r', hren, hr'⟩
    · exact .inl fun name hp' => ho.points_unique hg _ _ _ hp hp' ▸ hnone
    · exact .inr ⟨r', hren, hr'⟩

/-- No member of a composition that is met from a finished component is another name for references
in a circle. -/
theorem not_closes_of_circle (hd : d.Drafted free document) (ho : d.OnlyReferences)
    (hg : (start document reserved).Grows d) (hfin : d.Finished ref) {last : String}
    (hcircle : Relation.TransGen (Renames document) last last) :
    ¬ Closes document (refSchema ref) last := by
  rintro ⟨schema, member, first, hv, hm, hi, hren⟩
  obtain ⟨id, hp⟩ := hfin.exists_points
  refine Naming.Walked.not_merged d.progress.definitions
    (fun r => Relation.ReflTransGen (Renames document) r last) hd.walked hd.chain
    (fun before _ _ hs => hs ▸ List.prefix_append _ _) (List.prefix_refl _) (ho.points_unique hg)
    (fun r hr => .inr ?_)
    ⟨_, 1, .handle id, List.prefix_refl _, reads_refSchema hp⟩ hv hm hi hren
  rcases Relation.ReflTransGen.cases_head hr with rfl | ⟨r', hren, hr'⟩
  · exact Relation.TransGen.head'_iff.mp hcircle
  · exact ⟨r', hren, hr'⟩

/-- No loop from a finished component ends at what is not finished. -/
theorem not_looped_of_finished (hd : d.Drafted free document) (ho : d.OnlyReferences)
    (hg : (start document reserved).Grows d) (hfin : d.Finished ref) :
    ¬ LoopedAt (fun last => ¬ d.Finished last) document (refSchema ref) := by
  rintro ⟨schema, member, first, last, hv, hm, hi, hren, ⟨hopen, -⟩ | hcircle⟩
  · obtain ⟨id, hp⟩ := hfin.exists_points
    obtain ⟨name, hp'⟩ := hd.walked.exists_points_of_mem_merged hd.chain (ho.points_unique hg)
      ⟨1, .handle id, reads_refSchema hp⟩ hv hm hi hren
    exact hopen (hd.finished hp')
  · exact not_closes_of_circle hd ho hg hfin hcircle ⟨schema, member, first, hv, hm, hi, hren⟩

/-- From one of the components of the document a loop ends at a reference that the draft has not
finished. -/
def LeavesLoop (document : Value) (d : Draft) : Prop :=
  ∃ origin entries, Document.schemas document = .ok (.mapping origin entries) ∧
    ∃ ref ∈ componentRefs entries, LoopedAt (fun last => ¬ d.Finished last) document (refSchema ref)

/-- Over every document and every order of its components. If components are refused as ones with a
composition that leads back to itself, a loop from one of them has been left at a reference that is
not finished, and if such a loop has been left, they are refused. So they are not refused for this
reason if no loop is met from a component, and they are refused, for this reason or an earlier one,
if a loop closes at the component that comes first. -/
theorem addComponents_selfReferring (document : Value) (reserved : List String) :
    (∀ outcome d, addComponents.runFrom (start document reserved) = (outcome, d) →
      (∀ fault, outcome = .error fault → fault.isSelfReferring = true) →
        ((∃ fault, outcome = .error fault) ↔ LeavesLoop document d)) ∧
    (∀ fault d, addComponents.runFrom (start document reserved) = (.error fault, d) →
      fault.isSelfReferring = true →
        ∃ origin entries, Document.schemas document = .ok (.mapping origin entries) ∧
          ∃ ref ∈ componentRefs entries, Looped document (refSchema ref)) ∧
    ∀ origin ref entries, Document.schemas document = .ok (.mapping origin entries) →
      (componentRefs entries).head? = some ref → Closes document (refSchema ref) ref →
        ∀ d, addComponents.runFrom (start document reserved) ≠ (.ok (), d) := by
  have hd := drafted_start .paths document reserved
  have ho := onlyReferences_start document reserved
  have hends := addComponents_ends hd ho
  have hleaves : ∀ fault d, addComponents.runFrom (start document reserved) = (.error fault, d) →
      fault.isSelfReferring = true → LeavesLoop document d := fun fault d hr hself => by
    obtain ⟨origin, entries, hs, ref, hm, hstuck⟩ := hends.of_error hr hself
    exact ⟨origin, entries, hs, ref, hm, looped_of_stuck hstuck⟩
  refine ⟨fun outcome d hr hself => ⟨?_, fun hleft => ?_⟩, fun fault d hr hself => ?_,
    fun origin ref entries hs hfirst hcloses d hr => ?_⟩
  · -- the run is stuck in a loop that it leaves
    rintro ⟨fault, rfl⟩
    exact hleaves fault d hr (hself fault rfl)
  · cases outcome with
    | error fault => exact ⟨fault, rfl⟩
    | ok _ =>
      -- all components were finished before records inside shapes had names
      obtain ⟨-, -, origin, entries, hs, d₁, hr₁, hg, hall⟩ := hends.of_ok hr
      obtain ⟨_, _, hs', ref, hm, hloop⟩ := hleft
      cases hs.symm.trans hs'
      refine absurd (hloop.imp fun last hopen (hfin : d₁.Finished last) => hopen (hfin.mono hg)) ?_
      exact not_looped_of_finished hr₁.drafted (ho.of_grows hr₁.names) hr₁.grows (hall ref hm)
  · obtain ⟨origin, entries, hs, ref, hm, hloop⟩ := hleaves fault d hr hself
    exact ⟨origin, entries, hs, ref, hm, hloop.imp fun _ _ => trivial⟩
  · obtain ⟨d₁, hr₁, id, earlier, node, hp, hdefs⟩ :=
      (addComponents_first hd ho rfl hs hfirst).of_ok hr
    exact not_closes_of_last hr₁.drafted (ho.of_grows hr₁.names) hr₁.grows hp hdefs hcloses

/-! ### A composition under a property -/

/-- The reference to the component with a composition. -/
abbrev refA : String := "#/components/schemas/A"

/-- The reference to the other component. -/
abbrev refB : String := "#/components/schemas/B"

/-- A composition of the other component and a record. -/
def schemaA : Value :=
  .mapping 10 [(.text "allOf", .list [refSchema refB, .mapping 11 [(.text "properties",
    .mapping 12 [(.text "x", .mapping 13 [(.text "type", .text "string")])])]])]

/-- A record with a property that is the composition. -/
def schemaB : Value :=
  .mapping 20 [(.text "type", .text "object"),
    (.text "properties", .mapping 21 [(.text "a", refSchema refA)])]

/-- A document with the components in an order. -/
def ordered (schemas : List (Scalar × Value)) : Value :=
  .mapping 1 [(.text "components", .mapping 2 [(.text "schemas", .mapping 3 schemas)])]

/-- The record comes before the composition. -/
abbrev recordFirst : Value := ordered [(.text "B", schemaB), (.text "A", schemaA)]

theorem target_recordFirst : Resolver.target recordFirst refA = .ok schemaA ∧
    Resolver.target recordFirst refB = .ok schemaB := by
  exact ⟨rfl, rfl⟩

theorem closes_recordFirst : Closes recordFirst (refSchema refB) refB := by
  have hvisits : Visits recordFirst (refSchema refB) schemaA := by
    refine .head (b := schemaB) (.target rfl target_recordFirst.2) ?_
    refine .head (b := refSchema refA) (.part ?_) (.single (.target rfl target_recordFirst.1))
    exact List.mem_cons_self
  refine ⟨schemaA, refSchema refB, refB, hvisits, ?_, .reference rfl rfl, .refl⟩
  exact List.mem_cons_self

theorem refused_recordFirst : ∃ fault d,
    addComponents.runFrom (start recordFirst []) = (.error fault, d) ∧
      fault.isSelfReferring = true := by
  have hfault : (addComponents.runFrom (start recordFirst [])).1 =
      .error (.unsupportedComposition "A" (.selfReferring 0)) := rfl
  exact ⟨_, _, Prod.ext hfault rfl, rfl⟩

/-- With the record first the components are refused since there is a loop, and since it closes at the
record. -/
theorem looped_recordFirst : (∃ fault d,
      addComponents.runFrom (start recordFirst []) = (.error fault, d) ∧
        fault.isSelfReferring = true) ∧
    (∃ origin entries, Document.schemas recordFirst = .ok (.mapping origin entries) ∧
      ∃ ref ∈ componentRefs entries, Looped recordFirst (refSchema ref)) ∧
    Closes recordFirst (refSchema refB) refB ∧
    ∀ d, addComponents.runFrom (start recordFirst []) ≠ (.ok (), d) := by
  obtain ⟨-, hlooped, hfirst⟩ := addComponents_selfReferring recordFirst []
  obtain ⟨fault, d, hr, hs⟩ := refused_recordFirst
  exact ⟨⟨fault, d, hr, hs⟩, hlooped fault d hr hs, closes_recordFirst,
    hfirst 3 refB _ rfl (by decide) closes_recordFirst⟩

theorem references_recordFirst : recordFirst.references = [refA, refB] := by decide

/-- What is referred to in the document says something itself. -/
theorem eq_of_forwards {first ref : String} (hm : first = refA ∨ first = refB)
    (h : Relation.ReflTransGen (Forwards recordFirst) first ref) : ref = first := by
  rcases Relation.ReflTransGen.cases_head h with rfl | ⟨_, ⟨found, ht, hf⟩, -⟩
  · rfl
  · rcases hm with rfl | rfl
    · cases ht.symm.trans target_recordFirst.1
      cases hf
    · cases ht.symm.trans target_recordFirst.2
      cases hf

theorem eq_of_composes {ref ref' : String} (h : Composes recordFirst ref ref') :
    ref' = refA ∨ ref' = refB := by
  obtain ⟨found, members, member, first, ht, hl, hm, hf, hren⟩ := h
  have hpart : Value.Part member recordFirst := by
    refine Value.Part.trans ?_ (Resolver.part_of_target ht).1
    cases found with
    | mapping origin entries => exact (Value.Part.refl.item hm).trans (Value.part_of_text? hl)
    | _ => cases hl
  have hfirst : first ∈ recordFirst.references :=
    hpart.references (Value.mem_references_of_member? hf)
  rw [references_recordFirst] at hfirst
  have hor : first = refA ∨ first = refB := by simpa using hfirst
  rw [eq_of_forwards hor hren]
  exact hor

theorem not_composes_refB (ref : String) : ¬ Composes recordFirst refB ref := by
  rintro ⟨found, members, _, _, ht, hl, -⟩
  cases ht.symm.trans target_recordFirst.2
  cases hl

theorem eq_refB_of_composes {ref : String} (h : Composes recordFirst refA ref) : ref = refB := by
  obtain ⟨found, members, member, first, ht, hl, hm, hf, hren⟩ := h
  cases ht.symm.trans target_recordFirst.1
  cases hl
  rcases List.mem_cons.mp hm with rfl | hm
  · cases hf
    exact eq_of_forwards (.inr rfl) hren
  · cases List.mem_singleton.mp hm
    cases hf

/-- No composition of the document is its own member. Yet the components are refused because of a
composition that leads back to itself when the record comes first, and accepted when the composition
does. -/
theorem selfReferring_recordFirst :
    (∀ ref, ¬ Relation.TransGen (Composes recordFirst) ref ref) ∧
      (∃ fault d, addComponents.runFrom (start recordFirst []) = (.error fault, d) ∧
        fault.isSelfReferring = true) ∧
      ∃ d, addComponents.runFrom
        (start (ordered [(.text "A", schemaA), (.text "B", schemaB)]) []) = (.ok (), d) := by
  refine ⟨fun ref h => ?_, ?_, ?_⟩
  · have hno : ∀ ref, ¬ Relation.TransGen (Composes recordFirst) refB ref := fun ref h => by
      obtain ⟨_, hc, -⟩ := Relation.TransGen.head'_iff.mp h
      exact not_composes_refB _ hc
    obtain ⟨_, -, hlast⟩ := Relation.TransGen.tail'_iff.mp h
    rcases eq_of_composes hlast with rfl | rfl
    · obtain ⟨next, hc, hrest⟩ := Relation.TransGen.head'_iff.mp h
      obtain rfl := eq_refB_of_composes hc
      rcases Relation.reflTransGen_iff_eq_or_transGen.mp hrest with he | ht
      · exact absurd he (by decide)
      · exact hno _ ht
    · exact hno _ h
  · exact refused_recordFirst
  · exact (Step.exists_of_isOk (by decide +kernel)).elim fun _ h => h

end Draft

end RouteStubs
