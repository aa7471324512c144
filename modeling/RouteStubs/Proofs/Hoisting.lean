import RouteStubs.Proofs.Discriminators
import RouteStubs.Proofs.Draft.Additions

/-!
# Hoisting preserves structure

Whatever the collection fills in has the structure of the shape that it was filled in for, with handles
in the place of the records inside it that have fields. The handle of a record is that of the declaration
of its mapping, and what is declared there has the structure of a record of the same mapping, as deep as
one looks. The two records may have been read when different parts of the document were known: the one
may have discriminators that the other one lacks, and an alternative that only a discriminator tells from
another one may be a variant in the one, and dropped as a repetition in the other.

## Main definitions

* `Draft.Calls`: components and schemas of operations are added, in any order.
* `Draft.Declares`: a handle leads to what has the structure of a record.
* `Draft.Mirrored`: all that has been filled in has the structure of what it was filled in for.

## Main statements

* `Draft.Calls.mirrored`: hoisting preserves structure, over every document and all calls.
* `Draft.not_mirrored_to_the_letter`: three ways in which it does not do so more closely.
-/

namespace RouteStubs.Draft

open Registry Shape Value

variable {document : Value} {reserved : List String} {roots : Value → Prop} {d d' d'' : Draft}
  {id : String} {s : Source} {node other record : Shape}

/-! ### Calls -/

/-- The second draft is reached from the first by adding components and schemas of operations, in any
order. Components are not added once a record inside a shape, or a schema of an operation, has been given
a name for a key that spells one of them. -/
inductive Calls (roots : Value → Prop) (document : Value) (d : Draft) : Draft → Prop
  | refl : Calls roots document d d
  | components {d₁ d₂ : Draft} (h : Calls roots document d d₁)
      (hl : ∀ origin entries, Document.schemas document = .ok (.mapping origin entries) →
        d₁.Leaves (componentRefs entries))
      (hs : addComponents.runFrom d₁ = (.ok (), d₂)) : Calls roots document d d₂
  | inline {d₁ d₂ : Draft} {schema : Value} {name key : String} {placed : Shape}
      (h : Calls roots document d d₁) (hroot : roots schema)
      (hs : (addInline schema name key).runFrom d₁ = (.ok placed, d₂)) : Calls roots document d d₂

/-- Calls keep what holds between two steps of the collection, and declarations stay shared. -/
theorem Calls.keeps (h : Calls roots document d d') (hdoc : roots document)
    (hd : d.Ready .all document) (hs : d.Shared roots) :
    d.Grows d' ∧ d'.Ready .all document ∧ d'.Shared roots := by
  induction h with
  | refl => exact ⟨.refl d, hd, hs⟩
  | components _ hl hrun ih =>
    obtain ⟨hg, hd₁, hs₁⟩ := ih
    obtain ⟨hg', hd₂, hs₂, -⟩ := (addComponents_shares hdoc hd₁ hs₁ hl).of_ok hrun
    exact ⟨hg.trans hg', hd₂, hs₂⟩
  | inline _ hroot hrun ih =>
    obtain ⟨hg, hd₁, hs₁⟩ := ih
    obtain ⟨hg', hd₂, hs₂, -⟩ := (addInline_shares hdoc hd₁ hs₁ hroot _ _).of_ok hrun
    exact ⟨hg.trans hg', hd₂, hs₂⟩

theorem ready_start (document : Value) (reserved : List String) :
    (start document reserved).Ready .all document :=
  ⟨drafted_start .all document reserved, (onlyReferences_start document reserved).full, by
    intro g hg
    cases hg⟩

/-! ### Declared records -/

/-- The handle leads to what is declared for the mapping that the record was read from: to what has the
structure, as many records deep as is said, of a record that was read from it too and is alike. -/
def Declares (roots : Value → Prop) (d : Draft) : (depth : Nat) → Shape → String → Prop
  | 0, _, _ => True
  | depth + 1, record, id => ∃ s found filled, d.Springs roots s record ∧ d.Springs roots s found ∧
      d.bySource.lookup s = some id ∧ d.nodes.lookup id = some filled ∧
      record.Alike (naming.stands d.registry) found ∧
      found.Mirrors (Declares roots d depth) d.Settles filled

/-- What is declared for a mapping renders a record of it. -/
theorem exists_rendered (hdoc : roots document) (hd : d.Ready .all document) (hs : d.Shared roots)
    (hl : d.bySource.lookup s = some id) :
    ∃ found filled, found.source? = some s ∧ found.Throughout (d.Sprung roots) ∧
      d.nodes.lookup id = some filled ∧ d.Renders found filled := by
  obtain ⟨g, hg, rfl, ⟨ho, record, hf, hsource⟩ | ⟨ho, hall⟩⟩ := hs.declared s id hl
  · -- a reference whose definition is known is filled in with it
    have hdone := hd.done g hg (by rw [hf]; rfl)
    obtain ⟨filled, hfilled⟩ := Option.isSome_iff_exists.mp hdone
    obtain ⟨node, hnode, hr⟩ := hs.rendered g hg ho filled hfilled
    cases hf.symm.trans hnode
    exact ⟨record, filled, hsource, sprung_definition hdoc hd.drafted.walked hf, hfilled, hr⟩
  · have hfull := hd.full g hg (by simp [ho])
    obtain ⟨filled, hfilled⟩ := Option.isSome_iff_exists.mp hfull
    obtain ⟨record, hsource, hsprung, hr⟩ := hall filled hfilled
    exact ⟨record, filled, hsource, hsprung, hfilled, hr⟩

theorem throughout_of_reflTransGen {P : Shape → Prop} (h : node.Throughout P)
    (hi : Relation.ReflTransGen Child other node) : other.Throughout P :=
  fun part hp => h part (hp.trans hi)

section Mirrored

variable (hi : Identified roots) (hdoc : roots document) (hd : d.Ready .all document)
  (hs : d.Shared roots)
include hi hdoc hd hs

/-- The handle of a record leads to what has the structure of an alike record. -/
theorem declares_of_claims (depth : Nat) (hw : record.Throughout (d.Sprung roots))
    (hc : d.Claims record id) :
    d.Declares roots depth record id := by
  induction depth generalizing record id with
  | zero => trivial
  | succ depth ih =>
    obtain ⟨s, hsource, hl⟩ := Option.bind_eq_some_iff.mp hc
    obtain ⟨found, filled, hfound, hsprung, hfilled, hr⟩ := exists_rendered hdoc hd hs hl
    have hrecord := hw.self.springs hsource
    have hdeclared := hsprung.self.springs hfound
    have halike := alike_of_springs hi hd.drafted.walked hrecord hdeclared
    refine ⟨s, found, filled, hrecord, hdeclared, hl, hfilled, halike, ?_⟩
    refine Mirrors.imp (fun _ _ _ h => h) found (fun inner hinner id' => ?_) hr
    exact ih (throughout_of_reflTransGen hsprung hinner.to_reflTransGen)

theorem mirrors_of_renders (hw : node.Throughout (d.Sprung roots)) (hr : d.Renders node other)
    (depth : Nat) :
    node.Mirrors (d.Declares roots depth) d.Settles other :=
  Mirrors.imp (fun _ _ _ h => h) node (fun _ hinner _ => declares_of_claims hi hdoc hd hs depth
    (throughout_of_reflTransGen hw hinner.to_reflTransGen)) hr

theorem mirrorsInside_of_renders (hw : node.Throughout (d.Sprung roots))
    (hr : d.RendersInside node other) (depth : Nat) :
    node.MirrorsInside (d.Declares roots depth) d.Settles other :=
  MirrorsInside.imp (fun _ _ _ h => h) (fun _ hinner _ => declares_of_claims hi hdoc hd hs depth
    (throughout_of_reflTransGen hw hinner)) hr

end Mirrored

/-! ### All that is filled in -/

/-- All that is filled in has the structure of what it was filled in for, to any depth: definitions of
references, and records that are declared for their mappings. Each mapping has one declaration, and the
table shows what is filled in. -/
structure Mirrored (roots : Value → Prop) (d : Draft) : Prop where
  references : ∀ g ∈ d.registry.given, g.origin = .schema → ∀ node,
    d.progress.definitions.find? g.id = some node →
      ∃ filled, d.nodes.lookup g.id = some filled ∧
        ∀ depth, node.Mirrors (d.Declares roots depth) d.Settles filled
  records : ∀ g ∈ d.registry.given, g.origin = .inline →
    ∃ s record filled, d.bySource.lookup s = some g.id ∧ d.Springs roots s record ∧
      d.nodes.lookup g.id = some filled ∧
        ∀ depth, record.Mirrors (d.Declares roots depth) d.Settles filled
  once : ∀ g ∈ d.registry.given, ∀ g' ∈ d.registry.given, g.origin = .inline → g'.origin = .inline →
    ∀ filled filled', d.nodes.lookup g.id = some filled → d.nodes.lookup g'.id = some filled' →
      filled.source? = filled'.source? → g = g'
  table : build.runFrom d = (.ok ⟨d.registry.given.map d.declarationOf, d.registry.index⟩, d)

/-- Declarations that are shared mirror what they were filled in for. -/
theorem mirrored_of_shared (hi : Identified roots) (hdoc : roots document)
    (hd : d.Ready .all document) (hs : d.Shared roots) : d.Mirrored roots where
  references g hg ho node hf := by
    obtain ⟨filled, hfilled⟩ := Option.isSome_iff_exists.mp (hd.done g hg (by rw [hf]; rfl))
    obtain ⟨definition, hdef, hr⟩ := hs.rendered g hg ho filled hfilled
    cases hf.symm.trans hdef
    have hsprung := sprung_definition hdoc hd.drafted.walked hf
    exact ⟨filled, hfilled, mirrors_of_renders hi hdoc hd hs hsprung hr⟩
  records g hg ho := by
    obtain ⟨s, hl⟩ := hs.claimed g hg ho
    obtain ⟨record, filled, hsource, hsprung, hfilled, hr⟩ := exists_rendered hdoc hd hs hl
    exact ⟨s, record, filled, hl, hsprung.self.springs hsource, hfilled,
      mirrors_of_renders hi hdoc hd hs hsprung hr⟩
  once g hg g' hg' ho ho' filled filled' hf hf' heq := by
    obtain ⟨s, hl⟩ := hs.claimed g hg ho
    obtain ⟨s', hl'⟩ := hs.claimed g' hg' ho'
    obtain ⟨record, _, hsource, -, hfilled, hr⟩ := exists_rendered hdoc hd hs hl
    obtain ⟨record', _, hsource', -, hfilled', hr'⟩ := exists_rendered hdoc hd hs hl'
    cases hf.symm.trans hfilled
    cases hf'.symm.trans hfilled'
    -- both are the declaration of the one mapping
    rw [hr.source?_eq, hr'.source?_eq, hsource, hsource', Option.some.injEq] at heq
    subst heq
    exact hd.drafted.sound.eq_of_id hg hg' (Option.some.inj (hl.symm.trans hl'))
  table := build_of_done hd.done

/-- A field with two alternatives that only their discriminators tell apart. -/
def twiceTagged : Scalar × Value :=
  recordOf 14 "m" [(.text "u", .mapping 16 [(.text "oneOf",
    .list [(eitherBy 17 "" "k").2, (eitherBy 21 "" "t").2])])]

/-- The field belongs to a component that its alternatives lead back to. -/
def twiceTaggedDocument : Value :=
  withComponents [recordOf 10 "A" [constant 12 "k" "a", constant 13 "t" "a", twiceTagged],
    recordOf 30 "B" [constant 32 "k" "b", constant 33 "t" "b"]]

/-- The first field of a record, or the first variant of a union. -/
def firstPart? : Shape → Option Shape
  | .record (f :: _) _ _ _ => some f.node
  | .union (node :: _) _ => some node
  | _ => none

/-- After some calls, what a schema reads as, and what is declared under the handle that adding it
results in. -/
def readAndDeclared (document : Value) (calls : Step Draft Unit) (schema : Value) :
    Option (Shape × Shape) :=
  match calls.runFrom (start document []) with
  | (.ok (), d) =>
    match ((onProgress (Canon.shapeOf nameFor "Body" schema)).runFrom d).1,
      (addInline schema "Body" "paths./x").runFrom d with
    | .ok node, (.ok (.handle id), d') => (d'.nodes.lookup id).map fun filled => (node, filled)
    | _, _ => none
  | _ => none

end RouteStubs.Draft
