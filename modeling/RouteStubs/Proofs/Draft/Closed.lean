import RouteStubs.Proofs.Draft.Drafted
import RouteStubs.Proofs.Draft.Traced
import RouteStubs.Proofs.Schema.Course
import RouteStubs.Proofs.Schema.Returns

/-!
# Closed drafts

A walk gives names to the references that it meets. The names are in the style of declarations, and
the walk does not end before each of them is finished. The handles in what is read are of names that
were given.

What is filled in refers to given names only, and there is no record with fields inside it. In a
closed draft this holds of all shapes that are filled in, and every name that was given is in the style
of declarations and is filled in.

## Main definitions

* `Registry.Named`: the names that are given on the way from one state of the walk to another.
* `Registry.course`: the course on which these names are followed.
* `Draft.Names`: a handle is of a name that was given.
* `Draft.Fits`: a shape that refers to given names, without a record with fields below its root.
* `Draft.Closed`: a draft that consists of such shapes.
* `Draft.Gains`: what is closed on the way from one draft to another.

## Main statements

* `Draft.Drafted.names_definition`, `Draft.Drafted.names_reads`: the handles in what is read.
* `Draft.Laid.fits`: what is laid out fits.
* `Draft.Closed.of_gains`: a closed draft stays closed.
-/

namespace RouteStubs

/-! ### Names given on walks -/

namespace Registry

open Naming

variable {document : Value} {p p' p'' : Progress Registry} {names : Registry} {name ref : String}

/-- A name that is given on the way is in the style of declarations, and its reference is finished or on the
chain. -/
def Named (p p' : Progress Registry) : Prop :=
  ∀ g ∈ p'.names.given, g ∈ p.names.given ∨ (Name.Styled g.id ∧ naming.Points p' g.id g.key)

theorem Named.trans (he : naming.Extends p' p'') (h : Named p p') (h' : Named p' p'') :
    Named p p'' := by
  intro g hg
  rcases h' g hg with hg | hnew
  · rcases h g hg with hg | ⟨styled, hp⟩
    · exact .inl hg
    · exact .inr ⟨styled, hp.of_extends he⟩
  · exact .inr hnew

/-- The only name that a reference is given is its own. -/
theorem given_of_nameFor {r : Registry} (h : (nameFor ref).runFrom r = (.ok name, names)) {g : Given}
    (hg : g ∈ names.given) : g ∈ r.given ∨ (Name.Styled g.id ∧ g.id = name ∧ g.key = ref) :=
  ((nameFor_ends r ref).of_ok h).2.2 g hg

/-- The course on which the names that are given are followed. -/
def course (document : Value) : naming.Course document where
  Holds := fun _ => True
  Leads := Named
  Ties := fun _ _ _ _ _ => True
  refl := fun _ _ hg => .inl hg
  trans := fun _ he h h' => h.trans he h'
  looks := fun _ _ => ⟨fun _ hg => .inl hg, trivial⟩
  named := fun _ _ => trivial
  meets := by
    intro p names name ref hrun hp g hg
    refine (given_of_nameFor hrun hg).imp (fun h => h) ?_
    rintro ⟨styled, rfl, rfl⟩
    exact ⟨styled, hp⟩
  enters := fun _ => trivial
  finishes := by
    intro p p' names name ref found node depth hrun _ hleads _ hkept hp _ _ _ _
    refine ⟨fun g hg => ?_, trivial⟩
    rcases hleads g hg with hg | ⟨styled, hg⟩
    · refine (given_of_nameFor hrun hg).imp (fun h => h) ?_
      rintro ⟨styled, rfl, rfl⟩
      exact ⟨styled, hp⟩
    · exact .inr ⟨styled, hkept hg⟩
  later := fun _ _ _ => trivial
  finds := fun _ _ _ _ _ _ _ => trivial
  defers := by
    intro p root origin entries members nodes depth _ _ _ _ _ _ _ _
    obtain ⟨deferred, hp⟩ :=
      Course.exists_deferred (Shape.distinct nodes) (Canon.explicitDiscriminator entries) p
    rw [hp]
    exact ⟨fun _ hg => .inl hg, trivial, trivial⟩

end Registry

namespace Draft

open Registry Shape

variable {free : FreeKeys} {document : Value} {within : Shape → Prop} {d d' d'' : Draft}
  {id : String} {node : Shape}

/-- If the shape is a handle, then it is one of a name that was given. -/
def Names (d : Draft) (node : Shape) : Prop :=
  ∀ id, node = .handle id → ∃ g ∈ d.registry.given, g.id = id

theorem names_of_knows (h : naming.Knows d.progress node) : d.Names node := by
  intro id hid
  obtain ⟨ref, hp⟩ := h id hid
  obtain ⟨g, hg, he, -⟩ := exists_of_keyOf? hp.1
  exact ⟨g, hg, he⟩

theorem Names.mono (h : d.Grows d') (hn : d.Names node) : d'.Names node := by
  intro id hid
  obtain ⟨g, hg, he⟩ := hn id hid
  exact ⟨g, h.given hg, he⟩

/-- The handles in definitions are of names that were given. -/
theorem Drafted.names_definition (hd : d.Drafted free document)
    (hf : d.progress.definitions.find? id = some node) : node.Throughout d.Names :=
  (hd.walked.knows_definition hf).imp fun _ => names_of_knows

/-- The handles in what a schema reads as are of names that were given. -/
theorem Drafted.names_reads (hd : d.Drafted free document) {depth : Nat} {schema : Value}
    (hr : Canon.Reads (naming.Points d.progress) d.progress.definitions depth schema node) :
    node.Throughout d.Names :=
  (hd.walked.knows_reads hr).imp fun _ => names_of_knows

/-! ### Shapes that refer to given names -/

/-- The handles in the shape are of names that were given, and below its root there is no record with
fields. -/
structure Fits (d : Draft) (node : Shape) : Prop where
  names : node.Throughout d.Names
  flat : node.Below Shape.Flat

/-- Each name is in the style of declarations, and filled in with a shape that fits. -/
structure Closed (d : Draft) : Prop where
  styled : ∀ g ∈ d.registry.given, Name.Styled g.id
  filled : ∀ g ∈ d.registry.given, (d.nodes.lookup g.id).isSome
  fits : ∀ id node, d.nodes.lookup id = some node → d.Fits node

/-- Between the drafts names in the style of declarations were given and filled in, with shapes that fit. -/
structure Gains (d d' : Draft) : Prop where
  styled : ∀ g ∈ d'.registry.given, g ∈ d.registry.given ∨ Name.Styled g.id
  filled : ∀ g ∈ d'.registry.given, g ∈ d.registry.given ∨ (d'.nodes.lookup g.id).isSome
  fits : ∀ id node, d'.nodes.lookup id = some node →
    d.nodes.lookup id = some node ∨ d'.Fits node

theorem Closed.legal (hc : d.Closed) (g : Given) (hg : g ∈ d.registry.given) : Name.Legal g.id :=
  (hc.styled g hg).legal

theorem Fits.mono (h : d.Grows d') (hc : d.Fits node) : d'.Fits node :=
  ⟨hc.names.imp fun _ => Names.mono h, hc.flat⟩

theorem Closed.of_gains (hc : d.Closed) (hg : d.Grows d') (h : d.Gains d') : d'.Closed where
  styled g hgiven := (h.styled g hgiven).elim (hc.styled g) fun hl => hl
  filled g hgiven :=
    (h.filled g hgiven).elim (fun hold => isSome_lookup_nodes hg (hc.filled g hold)) fun hf => hf
  fits id node hl := (h.fits id node hl).elim (fun hold => (hc.fits id node hold).mono hg)
    fun hnew => hnew

theorem names_of_traced (hw : ∀ node, within node → d.Names node) (h : Traced within d node) :
    d.Names node := by
  intro id hid
  rcases h id hid with hin | hgiven
  · exact hw _ hin id rfl
  · exact hgiven

/-- What is laid out fits if the handles that were placed are of given names. -/
theorem Laid.fits (h : Laid within d node) (hw : ∀ node, within node → d.Names node) :
    d.Fits node :=
  ⟨h.traced.imp fun _ => names_of_traced hw, h.flat⟩

/-- The handles inside definitions are of names that were given. -/
theorem Drafted.names_inside (hd : d.Drafted free document) (h : d.Inside node) : d.Names node := by
  obtain ⟨id, root, hf, hp⟩ := h
  exact hd.names_definition hf node hp

end Draft

end RouteStubs
