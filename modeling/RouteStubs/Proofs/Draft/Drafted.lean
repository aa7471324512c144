import RouteStubs.Proofs.Draft.Placed

/-!
# What drafts say

What holds of the draft between any two steps of the collection. A name that is filled in says what
was asked of it: the name of a reference says the definition of the reference, the name of a record
inside another shape says that record, and the key of any other name is free. A declaration of a
mapping is one of a record that was read from the mapping.

## Main definitions

* `FreeKeys`: the keys that are given from outside.
* `Draft.Hoisted`: a shape that stands at a place inside a definition.
* `Draft.Says`, `Draft.ClaimedFor`: what the name and the mapping of a declaration have to do with
  its shape.
* `Draft.Drafted`: the invariant of the collection.
* `Draft.Hoists`: what hoisting leaves as it was.

## Main statements

* `Draft.Drafted.of_grows`: the walk and the names may go on.
* `Draft.Hoists.grows`: hoisting only adds to a draft.
-/

namespace RouteStubs

/-- The keys that are given to shapes from outside the definitions, and what stands inside them. -/
structure FreeKeys where
  /-- Whether a key is free. -/
  Has : String → Prop
  append : ∀ {key}, Has key → ∀ more, Has (key ++ more)

namespace Draft

variable (free : FreeKeys) (document : Value) (d d' : Draft)

/-- The shape stands at this place inside a definition, or the place is free. -/
def Hoisted (node : Shape) (key : String) : Prop :=
  free.Has key ∨ ∃ g ∈ d.registry.given, g.origin = .schema ∧ ∃ root,
    d.progress.definitions.find? g.id = some root ∧ root.At g.key node key

/-- The shape of a name is what was asked of it. -/
def Says (g : Given) (filled : Shape) : Prop :=
  match g.origin with
  | .schema => ∃ node, d.progress.definitions.find? g.id = some node ∧ d.Placed node filled
  | .inline => ∃ record, d.Hoisted free record g.key ∧ d.Placed record filled
  | _ => free.Has g.key

/-- The name is that of a declaration of this mapping. -/
def ClaimedFor (s : Source) (id : String) : Prop :=
  ∃ g ∈ d.registry.given, g.id = id ∧
    ((g.origin = .schema ∧ ∃ fields trailer description, d.progress.definitions.find? id =
        some (.record fields trailer description (some s))) ∨
      (g.origin = .inline ∧ ∀ filled, d.nodes.lookup id = some filled →
        ∃ fields trailer description,
          d.Placed (.record fields trailer description (some s)) filled))

/-- The invariant of the collection. -/
structure Drafted : Prop where
  walked : Registry.naming.Walked document d.progress
  chain : d.progress.resolver.chain = []
  filled : ∀ id filled, d.nodes.lookup id = some filled →
    ∃ g ∈ d.registry.given, g.id = id ∧ d.Says free g filled
  claims : ∀ s id, d.bySource.lookup s = some id → d.ClaimedFor s id

/-- All names are filled in but those of references. -/
def Full : Prop :=
  ∀ g ∈ d.registry.given, g.origin ≠ .schema → (d.nodes.lookup g.id).isSome

/-- What a step that only hoists leaves as it was: all but the new names. -/
structure Hoists : Prop where
  registry : d.registry.Grows (·.origin = .inline) d'.registry
  progress : d'.progress = { d.progress with names := d'.registry }
  nodes : ∀ g ∈ d.registry.given, d'.nodes.lookup g.id = d.nodes.lookup g.id
  filled : ∀ g ∈ d'.registry.given, g ∈ d.registry.given ∨ (d'.nodes.lookup g.id).isSome
  sources : ∀ s id, d.bySource.lookup s = some id → d'.bySource.lookup s = some id
  earlier : ∀ s, ∀ g ∈ d.registry.given,
    d'.bySource.lookup s = some g.id → d.bySource.lookup s = some g.id

variable {free document d d'} {d'' : Draft}

/-! ### Growth -/

theorem Grows.given (h : d.Grows d') {g : Given} (hg : g ∈ d.registry.given) :
    g ∈ d'.registry.given :=
  h.registry.given_mono.subset hg

theorem Hoisted.mono (h : d.Grows d') {node : Shape} {key : String}
    (hh : d.Hoisted free node key) : d'.Hoisted free node key := by
  refine hh.imp id ?_
  rintro ⟨g, hg, ho, root, hf, ha⟩
  exact ⟨g, h.given hg, ho, root, Definitions.find?_mono h.definitions hf, ha⟩

theorem Says.mono (h : d.Grows d') {g : Given} {filled : Shape} (hs : d.Says free g filled) :
    d'.Says free g filled := by
  unfold Says at *
  split at hs
  · obtain ⟨node, hf, hp⟩ := hs
    exact ⟨node, Definitions.find?_mono h.definitions hf, hp.mono h⟩
  · obtain ⟨record, hh, hp⟩ := hs
    exact ⟨record, hh.mono h, hp.mono h⟩
  · exact hs

/-- Between walks a handle stands for the same reference as the draft grows. -/
theorem Grows.points (hg : d.Grows d') (hc : d.progress.resolver.chain = []) {name ref : String}
    (hp : Registry.naming.Points d.progress name ref) :
    Registry.naming.Points d'.progress name ref := by
  refine ⟨hg.registry.keyOf? hp.1, .inl ?_⟩
  rcases hp.2 with hs | ⟨hm, -⟩
  · exact Naming.isSome_find?_mono hg.definitions hs
  · rw [hc] at hm
    cases hm

/-- A declaration of a mapping stays one while its name is not filled in anew. -/
theorem ClaimedFor.mono (h : d.Grows d') {s : Source} {id : String} (hc : d.ClaimedFor s id)
    (hn : d'.nodes.lookup id = d.nodes.lookup id) : d'.ClaimedFor s id := by
  obtain ⟨g, hg, hid, hc⟩ := hc
  refine ⟨g, h.given hg, hid, hc.imp ?_ ?_⟩
  · rintro ⟨ho, fields, trailer, description, hf⟩
    exact ⟨ho, fields, trailer, description, Definitions.find?_mono h.definitions hf⟩
  · rintro ⟨ho, hall⟩
    refine ⟨ho, fun filled hf => ?_⟩
    obtain ⟨fields, trailer, description, hp⟩ := hall filled (hn ▸ hf)
    exact ⟨fields, trailer, description, hp.mono h⟩

theorem Drafted.sound (hd : d.Drafted free document) : d.registry.Sound := hd.walked.valid

/-- What is defined is what the target of a reference reads as, and its name was given for the
reference. -/
theorem Drafted.exists_given (hd : d.Drafted free document) {id : String} {node : Shape}
    (hf : d.progress.definitions.find? id = some node) :
    ∃ g ∈ d.registry.given, g.id = id ∧ ∃ found depth,
      Resolver.target document g.key = .ok found ∧ Canon.Reads
        (Registry.naming.Points d.progress) d.progress.definitions depth found node := by
  obtain ⟨earlier, later, hsplit⟩ := Definitions.exists_split hf
  obtain ⟨ref, found, depth, hs, ht, hr⟩ := hd.walked.read _ _ _ _ hsplit
  obtain ⟨g, hg, hid, rfl⟩ := Registry.exists_of_keyOf? hs
  exact ⟨g, hg, hid, found, depth, ht,
    hr.mono (fun _ _ h => h) (hsplit ▸ List.prefix_append _ _)⟩

/-- The walk goes on, or names are given, and no name is filled in. -/
theorem Drafted.of_grows (h : d.Drafted free document) (hg : d.Grows d')
    (hw : Registry.naming.Walked document d'.progress) (hc : d'.progress.resolver.chain = [])
    (hn : d'.nodes = d.nodes) (hs : d'.bySource = d.bySource) : d'.Drafted free document where
  walked := hw
  chain := hc
  filled id filled hf := by
    obtain ⟨g, hgm, hid, hsaid⟩ := h.filled id filled (hn ▸ hf)
    exact ⟨g, hg.given hgm, hid, hsaid.mono hg⟩
  claims s id hl := (h.claims s id (hs ▸ hl)).mono hg (by rw [hn])

end Draft

/-! ### Names given between walks -/

namespace Naming

open Registry

variable {document : Value} {p : Progress Registry} {r : Registry}

/-- Between walks no reference is on the chain, and a handle stands for what it stood for when more
names are given, of whatever kind. -/
theorem Points.of_grows {allowed : Given → Prop} {name ref : String}
    (hg : p.names.Grows allowed r) (hc : p.resolver.chain = [])
    (hp : naming.Points p name ref) : naming.Points { p with names := r } name ref := by
  refine ⟨hg.keyOf? hp.1, .inl ?_⟩
  rcases hp.2 with hs | ⟨hm, -⟩
  · exact hs
  · rw [hc] at hm
    cases hm

theorem Walked.of_grows {allowed : Given → Prop} (h : naming.Walked document p)
    (hg : p.names.Grows allowed r) (hc : p.resolver.chain = []) :
    naming.Walked document { p with names := r } where
  valid := Sound.of_grows h.valid hg
  recalls := h.recalls
  pending ref hr := by
    rw [hc] at hr
    cases hr
  read earlier name node later hsplit := by
    obtain ⟨ref, found, depth, hs, ht, hr⟩ := h.read earlier name node later hsplit
    exact ⟨ref, found, depth, hg.keyOf? hs, ht,
      hr.mono (fun _ _ => Points.of_grows hg hc) (List.prefix_refl _)⟩
  nodup := h.nodup

end Naming

namespace Draft

variable {free : FreeKeys} {document : Value} {d d' d'' : Draft}

/-! ### Hoisting -/

theorem Hoists.refl (d : Draft) : d.Hoists d :=
  ⟨.refl, rfl, fun _ _ => rfl, fun _ hg => .inl hg, fun _ _ h => h, fun _ _ _ h => h⟩

theorem Hoists.given (h : d.Hoists d') {g : Given} (hg : g ∈ d.registry.given) :
    g ∈ d'.registry.given :=
  h.registry.given_mono.subset hg

theorem Hoists.trans (h : d.Hoists d') (h' : d'.Hoists d'') : d.Hoists d'' where
  registry := h.registry.trans h'.registry
  progress := by rw [h'.progress, h.progress]
  nodes g hg := (h'.nodes g (h.given hg)).trans (h.nodes g hg)
  filled g hg := by
    rcases h'.filled g hg with hg' | hf
    · rcases h.filled g hg' with hg | hf
      · exact .inl hg
      · exact .inr (h'.nodes g hg' ▸ hf)
    · exact .inr hf
  sources s id hs := h'.sources s id (h.sources s id hs)
  earlier s g hg hs := h.earlier s g hg (h'.earlier s g (h.given hg) hs)

/-- Hoisting only adds to a draft in which each name that is filled in has been given. -/
theorem Hoists.grows (h : d.Hoists d') (hd : d.Drafted free document) : d.Grows d' where
  registry := h.registry.imp fun _ _ => trivial
  document_eq := congrArg (·.resolver.document) h.progress
  definitions := by simp [h.progress]
  nodes id node hn := by
    obtain ⟨g, hg, rfl, -⟩ := hd.filled id node hn
    rw [h.nodes g hg, hn]
  sources := h.sources

end Draft

end RouteStubs
