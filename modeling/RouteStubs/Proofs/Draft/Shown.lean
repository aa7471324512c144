import RouteStubs.Proofs.Draft.Traced

/-!
# What filled shapes show

A shape that is filled in shows the shape that its name was given for: place by place, with handles
in the place of records, and with the discriminators that unions get when they are looked for once
more. While more is filled in the walk stays where it is, so these discriminators do not change.

## Main definitions

* `Draft.Shows d node placed`: the shape with what it is made of placed, and its unions settled.
* `Draft.Filled`: what is filled in under a name.
* `Draft.Adds`: what is given and filled in on the way from one draft to another.

## Main statements

* `Draft.Shows.mono`, `Draft.Adds.trans`: this stays so while more is filled in.
* `Draft.Shows.placed`: what is shown is placed.
-/

namespace RouteStubs.Draft

variable {free : FreeKeys} {document : Value} {within within' : Shape → Prop} {d d' d'' : Draft}
  {id : String} {node filled : Shape}

/-! ### Shown shapes -/

mutual

/-- The shape with what it is made of placed, and with the discriminators that its unions settle
for. -/
def Shows (d : Draft) : Shape → Shape → Prop
  | .record fields trailer description source, placed => ∃ fields' trailer',
      ShowsFields d fields fields' ∧ ShowsTrailer d trailer trailer' ∧
        placed = .record fields' trailer' description source
  | .array element, placed => ∃ element', d.Stands element (Shows d element) element' ∧
      placed = .array element'
  | .union variants discriminator, placed => ∃ variants' settled,
      Canon.settled variants discriminator d.progress = .ok settled ∧
        ShowsVariants d variants variants' ∧ placed = .union variants' settled
  | .primitive kind format, placed => placed = .primitive kind format
  | .enum values, placed => placed = .enum values
  | .handle target, placed => placed = .handle target
  | .unknown, placed => placed = .unknown
termination_by structural node => node

/-- The fields of a record, shown. -/
def ShowsFields (d : Draft) : List (Field Shape) → List (Field Shape) → Prop
  | [], placed => placed = []
  | ⟨name, node, required, description⟩ :: rest, placed => ∃ node' rest',
      d.Stands node (Shows d node) node' ∧ ShowsFields d rest rest' ∧
        placed = ⟨name, node', required, description⟩ :: rest'

/-- The trailer of a record, shown. -/
def ShowsTrailer (d : Draft) : Option Shape → Option Shape → Prop
  | none, placed => placed = none
  | some node, placed => ∃ node', d.Stands node (Shows d node) node' ∧ placed = some node'

/-- The variants of a union, shown. -/
def ShowsVariants (d : Draft) : List Shape → List Shape → Prop
  | [], placed => placed = []
  | node :: rest, placed => ∃ node' rest', d.Stands node (Shows d node) node' ∧
      ShowsVariants d rest rest' ∧ placed = node' :: rest'

end

/-- A union settles for the same discriminator before and after filling in. -/
theorem Fills.settled (h : d.Fills d') (variants : List Shape) (discriminator : Option String) :
    Canon.settled variants discriminator d'.progress =
      Canon.settled variants discriminator d.progress := by
  rw [h.progress]
  rfl

mutual

theorem Shows.mono (h : d.Fills d') : ∀ (node : Shape) {placed : Shape},
    d.Shows node placed → d'.Shows node placed
  | .record fields trailer _ _, _, ⟨fs, t, hf, ht, he⟩ =>
    ⟨fs, t, ShowsFields.mono h fields hf, ShowsTrailer.mono h trailer ht, he⟩
  | .array element, _, ⟨e, hs, he⟩ => ⟨e, hs.mono h.grows fun _ => Shows.mono h element, he⟩
  | .union variants discriminator, _, ⟨vs, s, hs, hv, he⟩ =>
    ⟨vs, s, (h.settled variants discriminator).trans hs, ShowsVariants.mono h variants hv, he⟩
  | .primitive _ _, _, hp => hp
  | .enum _, _, hp => hp
  | .handle _, _, hp => hp
  | .unknown, _, hp => hp

theorem ShowsFields.mono (h : d.Fills d') : ∀ (fields : List (Field Shape))
    {placed : List (Field Shape)}, d.ShowsFields fields placed → d'.ShowsFields fields placed
  | [], _, hp => hp
  | ⟨_, node, _, _⟩ :: rest, _, ⟨n, r, hn, hr, he⟩ =>
    ⟨n, r, hn.mono h.grows fun _ => Shows.mono h node, ShowsFields.mono h rest hr, he⟩

theorem ShowsTrailer.mono (h : d.Fills d') : ∀ (trailer : Option Shape) {placed : Option Shape},
    d.ShowsTrailer trailer placed → d'.ShowsTrailer trailer placed
  | none, _, hp => hp
  | some node, _, ⟨n, hn, he⟩ => ⟨n, hn.mono h.grows fun _ => Shows.mono h node, he⟩

theorem ShowsVariants.mono (h : d.Fills d') : ∀ (variants : List Shape) {placed : List Shape},
    d.ShowsVariants variants placed → d'.ShowsVariants variants placed
  | [], _, hp => hp
  | node :: rest, _, ⟨n, r, hn, hr, he⟩ =>
    ⟨n, r, hn.mono h.grows fun _ => Shows.mono h node, ShowsVariants.mono h rest hr, he⟩

end

mutual

/-- What is shown is placed. -/
theorem Shows.placed : ∀ (node : Shape) {placed : Shape}, d.Shows node placed → d.Placed node placed
  | .record fields trailer _ _, _, ⟨fs, t, hf, ht, he⟩ =>
    ⟨fs, t, ShowsFields.placed fields hf, ShowsTrailer.placed trailer ht, he⟩
  | .array element, _, ⟨e, hs, he⟩ => ⟨e, hs.mono (.refl d) fun _ => Shows.placed element, he⟩
  | .union variants _, _, ⟨vs, s, hs, hv, he⟩ =>
    ⟨vs, s, ⟨d.progress, List.prefix_refl _, hs⟩, ShowsVariants.placed variants hv, he⟩
  | .primitive _ _, _, hp => hp
  | .enum _, _, hp => hp
  | .handle _, _, hp => hp
  | .unknown, _, hp => hp

theorem ShowsFields.placed : ∀ (fields : List (Field Shape)) {placed : List (Field Shape)},
    d.ShowsFields fields placed → d.PlacedFields fields placed
  | [], _, hp => hp
  | ⟨_, node, _, _⟩ :: rest, _, ⟨n, r, hn, hr, he⟩ =>
    ⟨n, r, hn.mono (.refl d) fun _ => Shows.placed node, ShowsFields.placed rest hr, he⟩

theorem ShowsTrailer.placed : ∀ (trailer : Option Shape) {placed : Option Shape},
    d.ShowsTrailer trailer placed → d.PlacedTrailer trailer placed
  | none, _, hp => hp
  | some node, _, ⟨n, hn, he⟩ => ⟨n, hn.mono (.refl d) fun _ => Shows.placed node, he⟩

theorem ShowsVariants.placed : ∀ (variants : List Shape) {placed : List Shape},
    d.ShowsVariants variants placed → d.PlacedVariants variants placed
  | [], _, hp => hp
  | node :: rest, _, ⟨n, r, hn, hr, he⟩ =>
    ⟨n, r, hn.mono (.refl d) fun _ => Shows.placed node, ShowsVariants.placed rest hr, he⟩

end

/-! ### Filling in -/

/-- The name was given for this shape: for a definition, or for what stands inside one. -/
def Asked (free : FreeKeys) (d : Draft) (g : Given) (node : Shape) : Prop :=
  (g.origin = .schema ∧ d.progress.definitions.find? g.id = some node) ∨
    (g.origin = .inline ∧ d.Hoisted free node g.key)

/-- What is filled in under a name: everything in it is traced, and it shows what the name was given
for. -/
structure Filled (free : FreeKeys) (within : Shape → Prop) (d : Draft) (id : String)
    (filled : Shape) : Prop where
  laid : Laid within d filled
  shown : ∃ g ∈ d.registry.given, g.id = id ∧ ∃ node, d.Asked free g node ∧ d.Shows node filled

/-- Between the drafts names in the style of declarations were given, and filled in with what they were given for. -/
structure Adds (free : FreeKeys) (within : Shape → Prop) (d d' : Draft) : Prop where
  styled : ∀ g ∈ d'.registry.given, g ∈ d.registry.given ∨ Name.Styled g.id
  nodes : ∀ id filled, d'.nodes.lookup id = some filled →
    d.nodes.lookup id = some filled ∨ Filled free within d' id filled

theorem Asked.mono (h : d.Grows d') {g : Given} (ha : d.Asked free g node) :
    d'.Asked free g node := by
  refine ha.imp ?_ ?_
  · rintro ⟨ho, hf⟩
    exact ⟨ho, Definitions.find?_mono h.definitions hf⟩
  · rintro ⟨ho, hh⟩
    exact ⟨ho, hh.mono h⟩

theorem Filled.mono (h : d.Fills d') (hw : ∀ node, within node → within' node)
    (hf : Filled free within d id filled) : Filled free within' d' id filled where
  laid := hf.laid.mono h hw
  shown := by
    obtain ⟨g, hg, hid, node, ha, hs⟩ := hf.shown
    exact ⟨g, h.grows.given hg, hid, node, ha.mono h.grows, hs.mono h⟩

theorem Adds.refl (free : FreeKeys) (within : Shape → Prop) (d : Draft) : Adds free within d d :=
  ⟨fun _ hg => .inl hg, fun _ _ hl => .inl hl⟩

theorem Adds.trans (h : Adds free within d d') (h' : Adds free within d' d'') (hf : d'.Fills d'') :
    Adds free within d d'' where
  styled g hg := by
    rcases h'.styled g hg with hg | hl
    · exact h.styled g hg
    · exact .inr hl
  nodes id filled hl := by
    rcases h'.nodes id filled hl with hl | hl
    · exact (h.nodes id filled hl).imp (fun h => h) (Filled.mono hf fun _ h => h)
    · exact .inr hl

theorem Adds.imp (h : Adds free within d d') (hw : ∀ node, within node → within' node) :
    Adds free within' d d' :=
  ⟨h.styled, fun id filled hl => (h.nodes id filled hl).imp (fun h => h) (Filled.mono (.refl d') hw)⟩

end RouteStubs.Draft
