import RouteStubs.Proofs.Draft.Gathered
import RouteStubs.Proofs.Draft.Leaves
import RouteStubs.Proofs.Handles
import RouteStubs.Proofs.Schema.Regulated

/-!
# Declarations that say what references lead to

A reference has the declaration of another schema only if its name was given before to a record inside
a shape. Where this does not happen, handles lead to the same in the table as they do in the
definitions: to the same enumerations, and to records with the same fields, as far as these fields have
no other form. So do the handles that take the places of records inside shapes.

## Main definitions

* `Draft.Faithful`: the declaration of a reference says what its target reads as.
* `Draft.ShowsRecord`: a record is declared with certain fields.

## Main statements

* `Draft.Gathered.sole_of_dereference`: what leads to an enumeration has no other form.
* `Draft.Gathered.follow_enum`, `Draft.Gathered.follow_record`: where handles lead in the table.
* `Draft.Gathered.shows_of_claims`: what is declared for a record inside a shape.
-/

namespace RouteStubs.Draft

open Naming Registry Shape Value

variable {document : Value} {d : Draft} {name ref id : String} {node other placed : Shape}
  {fields : List (Field Shape)} {trailer : Option Shape} {description : String}
  {source : Option Source} {values : List Scalar} {steps : Nat}

/-- The declaration of each reference says what the target of the reference reads as. -/
def Faithful (document : Value) (d : Draft) : Prop :=
  ∀ name ref, naming.Points d.progress name ref → ∃ said filled, d.Reaches document ref said ∧
    d.nodes.lookup name = some filled ∧ d.Placed said filled

/-- References have the declarations of what they lead to if no name of a record inside a shape is the
name of one. -/
theorem faithful_of_forall (h : d.Ready .paths document)
    (hs : ∀ g ∈ d.registry.given, (d.progress.definitions.find? g.id).isSome → g.origin = .schema) :
    d.Faithful document := by
  intro name ref hp
  obtain ⟨g, hg, rfl, rfl, node, filled, hr, hfilled, ⟨-, hplaced⟩ | ⟨ho, -⟩⟩ := says_of_points h hp
  · exact ⟨node, filled, hr, hfilled, hplaced⟩
  · obtain ⟨_, hn, -⟩ := reaches_of_points h.drafted hp
    have hschema := hs g hg (by rw [hn]; rfl)
    cases ho.symm.trans hschema

/-- The shape is a record in which fields that have no other form are found under their names. -/
def ShowsRecord (d : Draft) (fields : List (Field Shape)) (filled : Shape) : Prop :=
  ∃ others trailer description source, filled = .record others trailer description source ∧
    ShowsSole (naming.stands d.registry) (Defined d.progress) fields others

theorem alike_of_reaches (hw : naming.Walked document d.progress) (h : d.Reaches document ref node)
    (h' : d.Reaches document ref other) : node.Alike (naming.stands d.registry) other := by
  obtain ⟨found, depth, ht, hr⟩ := h
  obtain ⟨found', depth', ht', hr'⟩ := h'
  cases ht.symm.trans ht'
  exact hw.alike (List.prefix_refl _) (List.prefix_refl _) hr hr'

/-- What is defined is what the target of a reference reads as. -/
theorem Drafted.exists_points {free : FreeKeys} (hd : d.Drafted free document)
    (hn : d.progress.definitions.find? name = some node) :
    ∃ ref, naming.Points d.progress name ref ∧ d.Reaches document ref node := by
  obtain ⟨g, hg, rfl, found, depth, ht, hr⟩ := hd.exists_given hn
  exact ⟨g.key, ⟨hd.sound.keyOf?_of_mem hg, .inl (by rw [hn]; rfl)⟩, found, depth, ht, hr⟩

namespace Gathered

variable (h : d.Gathered document)
include h

/-- A record inside a shape is declared as a record. -/
theorem lookup_of_inline {g : Given} (hg : g ∈ d.registry.given) (ho : g.origin = .inline) :
    ∃ fields trailer description source,
      d.nodes.lookup g.id = some (.record fields trailer description source) := by
  obtain ⟨s, hl⟩ := h.shared.claimed g hg ho
  obtain ⟨found, filled, hfound, -, hfilled, hr⟩ := h.exists_rendered hl
  cases found with
  | record _ _ _ _ =>
    obtain ⟨others, tail, rfl, -⟩ := hr.exists_record
    exact ⟨others, tail, _, _, hfilled⟩
  | _ => cases hfound

variable (hf : d.Faithful document)
include hf

/-! ### Names of references -/

/-- If the target of a reference reads as something without parts, then its name was given to it. -/
theorem given_of_isLeaf (hp : naming.Points d.progress name ref)
    (hr : d.Reaches document ref node) (hl : node.IsLeaf) :
    ∃ g ∈ d.registry.given, g.id = name ∧ g.key = ref ∧ g.origin = .schema := by
  obtain ⟨g, hg, rfl, rfl, -, -, -, -, ⟨ho, -⟩ | ⟨ho, -⟩⟩ := says_of_points h.ready hp
  · exact ⟨g, hg, rfl, rfl, ho⟩
  · -- otherwise the target would read as a record, too
    obtain ⟨others, tail, _, _, hn⟩ := h.lookup_of_inline hg ho
    obtain ⟨said, filled, hsaid, hfilled, hplaced⟩ := hf g.id g.key hp
    cases hn.symm.trans hfilled
    obtain ⟨_, _, rfl, -⟩ := hplaced.exists_record
    exact absurd hl (alike_of_reaches h.ready.drafted.walked hr hsaid).not_isLeaf

/-- What has no parts is declared as it is defined. -/
theorem lookup_of_isLeaf (hn : d.progress.definitions.find? name = some node) (hl : node.IsLeaf) :
    d.nodes.lookup name = some node := by
  obtain ⟨ref, hp, hr⟩ := h.ready.drafted.exists_points hn
  obtain ⟨g, hg, rfl, -, ho⟩ := h.given_of_isLeaf hf hp hr hl
  obtain ⟨filled, hfilled⟩ :=
    Option.isSome_iff_exists.mp (h.ready.done g hg (by rw [hn]; rfl))
  obtain ⟨definition, hdef, hrenders⟩ := h.shared.rendered g hg ho filled hfilled
  cases hn.symm.trans hdef
  rw [hfilled, hrenders.eq_of_isLeaf hl]

omit h hf in
theorem isLeaf_of_followIn {find : String → Option Shape}
    (hv : Definitions.followIn find steps node = some (.enum values)) : node.IsLeaf := by
  rcases Definitions.eq_or_of_followIn hv with rfl | ⟨_, _, _, rfl, -⟩ <;> trivial

/-- What leads to an enumeration is the enumeration, or a handle to the only name for a key. -/
theorem sole_of_dereference (hv : d.progress.definitions.dereference node = some (.enum values)) :
    Sole (naming.stands d.registry) (Defined d.progress) node := by
  rcases Definitions.eq_or_of_followIn hv with rfl | ⟨target, next, _, rfl, -, hnext, hv⟩
  · exact .inl ⟨values, rfl⟩
  refine .inr ⟨target, rfl, fun name k hk hk' hdefined => ?_⟩
  -- both names were given to the reference, and a reference is given only one
  have hl := isLeaf_of_followIn hv
  obtain ⟨ref, hp, hr⟩ := h.ready.drafted.exists_points hnext
  cases hk.symm.trans hp.1
  obtain ⟨g, hg, rfl, hkey, ho⟩ := h.given_of_isLeaf hf hp hr hl
  obtain ⟨g', hg', rfl, hkey', ho'⟩ := h.given_of_isLeaf hf ⟨hk', .inl hdefined⟩ hr hl
  obtain ⟨reserved, hnamed⟩ := h.named
  rw [hnamed.eq_of_key hg' hg ho' ho (hkey'.trans hkey.symm)]

/-! ### Records -/

/-- A name that is defined as a record is declared with the fields of the record. -/
theorem shows_of_definition
    (hn : d.progress.definitions.find? name = some (.record fields trailer description source)) :
    ∃ filled, d.nodes.lookup name = some filled ∧ d.ShowsRecord fields filled := by
  obtain ⟨ref, hp, hr⟩ := h.ready.drafted.exists_points hn
  obtain ⟨said, filled, hsaid, hfilled, hplaced⟩ := hf name ref hp
  have hrecord : ∃ others tail description source,
      d.nodes.lookup name = some (.record others tail description source) := by
    obtain ⟨g, hg, rfl, -, -, filled, -, hfilled, ⟨ho, -⟩ | ⟨ho, -⟩⟩ := says_of_points h.ready hp
    · obtain ⟨definition, hdef, hrenders⟩ := h.shared.rendered g hg ho filled hfilled
      cases hn.symm.trans hdef
      obtain ⟨others, tail, rfl, -⟩ := hrenders.exists_record
      exact ⟨others, tail, _, _, hfilled⟩
    · exact h.lookup_of_inline hg ho
  obtain ⟨others, tail, description', source', hothers⟩ := hrecord
  cases hfilled.symm.trans hothers
  obtain ⟨more, _, rfl, hfields⟩ := hplaced.exists_record
  have halike := alike_of_reaches h.ready.drafted.walked hr hsaid
  obtain ⟨_, _, -, hread⟩ := hsaid
  have hregulated := h.ready.drafted.walked.regulated_reads h.ready.drafted.chain hread
  exact ⟨_, hfilled, others, tail, description', source', rfl,
    showsSole_of_alike halike hregulated (keepsLeaf_of_placedFields hfields)⟩

omit hf in
/-- A record inside a shape is declared with its fields. -/
theorem shows_of_claims (hi : Identified (Part · document))
    (hw : d.Sprung (TakenFrom · document) (.record fields trailer description source))
    (hc : d.Claims (.record fields trailer description source) id) :
    ∃ filled, d.nodes.lookup id = some filled ∧ d.ShowsRecord fields filled := by
  obtain ⟨s, hs, hl⟩ := Option.bind_eq_some_iff.mp hc
  obtain ⟨found, filled, hfound, hsprung, hfilled, hr⟩ := h.exists_rendered hl
  have hdeclared := hsprung.self.springs hfound
  have halike := alike_of_springs hi.takenFrom h.ready.drafted.walked (hw.springs hs) hdeclared
  obtain ⟨_, _, -, hread⟩ := hdeclared
  have hregulated := h.ready.drafted.walked.regulated_source h.ready.drafted.chain hread
  cases found with
  | record more _ _ _ =>
    obtain ⟨others, tail, rfl, hfields⟩ := hr.exists_record
    exact ⟨_, hfilled, others, tail, _, _, rfl,
      showsSole_of_alike halike hregulated (keepsLeaf_of_mirrorsFields hfields)⟩
  | _ => cases hfound

/-! ### Where handles lead -/

/-- What leads to an enumeration leads to it by what is declared, too. -/
theorem follow_enum
    (hv : Definitions.followIn d.progress.definitions.find? steps node = some (.enum values)) :
    Definitions.followIn (d.nodes.lookup ·) steps node = some (.enum values) := by
  induction steps generalizing node with
  | zero =>
    rcases Definitions.eq_or_of_followIn hv with rfl | ⟨_, _, _, _, hsteps, -⟩
    · rfl
    · cases hsteps
  | succ steps ih =>
    rcases Definitions.eq_or_of_followIn hv with rfl | ⟨target, next, _, rfl, hsteps, hnext, hv⟩
    · rfl
    · cases hsteps
      rw [Definitions.followIn, h.lookup_of_isLeaf hf hnext (isLeaf_of_followIn hv)]
      exact ih hv

/-- A handle that leads to a record leads to one with its fields by what is declared. -/
theorem follow_record (hv : Definitions.followIn d.progress.definitions.find? steps (.handle name) =
      some (.record fields trailer description source)) :
    ∃ filled, Definitions.followIn (d.nodes.lookup ·) steps (.handle name) = some filled ∧
      d.ShowsRecord fields filled := by
  induction steps generalizing name with
  | zero => cases hv
  | succ steps ih =>
    obtain ⟨next, hnext, hv⟩ := Option.bind_eq_some_iff.mp hv
    rcases Definitions.eq_or_of_followIn hv with rfl | ⟨target, _, _, rfl, -⟩
    · obtain ⟨filled, hfilled, hshows⟩ := h.shows_of_definition hf hnext
      refine ⟨filled, ?_, hshows⟩
      obtain ⟨_, _, _, _, rfl, -⟩ := hshows
      rw [Definitions.followIn, hfilled]
      exact Definitions.followIn_eq_some (by simp) _
    · obtain ⟨filled, hfilled, hshows⟩ := ih hv
      refine ⟨filled, ?_, hshows⟩
      rw [Definitions.followIn, h.lookup_of_isLeaf hf hnext trivial]
      exact hfilled

end Gathered

end RouteStubs.Draft
