import RouteStubs.Proofs.Schema.Walked

/-!
# Placed shapes

What a declaration says is the shape of its schema with each record inside it replaced by a handle.
The handle is that of the declaration of the same mapping, or else of a declaration of its own, which
says what the record says, placed in the same way. Once a shape is placed it stays so while the
draft grows.

## Main definitions

* `Shape.At`: where the parts of a shape stand.
* `Draft.Placed d node placed`: the shape with what it is made of placed.
* `Draft.Stands d node members placed`: what stands in the place of a shape inside another one.
* `Draft.Grows`: what every step of the collection only adds to.

## Main statements

* `Draft.Placed.mono`: a placed shape stays placed.
-/

namespace RouteStubs

/-- The part of a shape that stands at a place, given the place of the whole. -/
inductive Shape.At (root : Shape) (place : String) : Shape → String → Prop
  | here : At root place root place
  | field {fields : List (Field Shape)} {trailer : Option Shape} {description key : String}
      {source : Option Source} {f : Field Shape}
      (h : At root place (.record fields trailer description source) key) (hf : f ∈ fields) :
      At root place f.node (key ++ "/properties/" ++ f.name)
  | further {fields : List (Field Shape)} {tail : Shape} {description key : String}
      {source : Option Source} (h : At root place (.record fields (some tail) description source) key) :
      At root place tail (key ++ "/additionalProperties")
  | element {inner : Shape} {key : String} (h : At root place (.array inner) key) :
      At root place inner (key ++ "/items")
  | variant {variants : List Shape} {discriminator : Option String} {key : String} {inner : Shape}
      {index : Nat} (h : At root place (.union variants discriminator) key)
      (hv : variants[index]? = some inner) :
      At root place inner (key ++ "/oneOf/" ++ toString index)

namespace Draft

variable {d d' d'' : Draft}

/-! ### Placed shapes -/

/-- The discriminator of a union, looked for once more if it was not found before. -/
def Settles (d : Draft) (variants : List Shape) (discriminator settled : Option String) : Prop :=
  ∃ p : Progress Registry, p.definitions <+: d.progress.definitions ∧
    Canon.settled variants discriminator p = .ok settled

/-- What stands in the place of a shape inside another one: for a record with fields the handle of
the declaration of the same mapping, or of one that is filled in with what the record is made of. -/
def Stands (d : Draft) (node : Shape) (members : Shape → Prop) (placed : Shape) : Prop :=
  match node with
  | .record (_ :: _) _ _ source => ∃ id, placed = .handle id ∧ (d.ofSource? source = some id ∨
      ∃ filled, d.nodes.lookup id = some filled ∧ members filled)
  | _ => members placed

mutual

/-- The shape with what it is made of placed. -/
def Placed (d : Draft) : Shape → Shape → Prop
  | .record fields trailer description source, placed => ∃ fields' trailer',
      PlacedFields d fields fields' ∧ PlacedTrailer d trailer trailer' ∧
        placed = .record fields' trailer' description source
  | .array element, placed => ∃ element', Stands d element (Placed d element) element' ∧
      placed = .array element'
  | .union variants discriminator, placed => ∃ variants' settled,
      Settles d variants discriminator settled ∧ PlacedVariants d variants variants' ∧
        placed = .union variants' settled
  | .primitive kind format, placed => placed = .primitive kind format
  | .enum values, placed => placed = .enum values
  | .handle target, placed => placed = .handle target
  | .unknown, placed => placed = .unknown
termination_by structural node => node

/-- The fields of a record, placed. -/
def PlacedFields (d : Draft) : List (Field Shape) → List (Field Shape) → Prop
  | [], placed => placed = []
  | ⟨name, node, required, description⟩ :: rest, placed => ∃ node' rest',
      Stands d node (Placed d node) node' ∧ PlacedFields d rest rest' ∧
        placed = ⟨name, node', required, description⟩ :: rest'

/-- The trailer of a record, placed. -/
def PlacedTrailer (d : Draft) : Option Shape → Option Shape → Prop
  | none, placed => placed = none
  | some node, placed => ∃ node', Stands d node (Placed d node) node' ∧ placed = some node'

/-- The variants of a union, placed. -/
def PlacedVariants (d : Draft) : List Shape → List Shape → Prop
  | [], placed => placed = []
  | node :: rest, placed => ∃ node' rest', Stands d node (Placed d node) node' ∧
      PlacedVariants d rest rest' ∧ placed = node' :: rest'

end

/-! ### Growth -/

/-- The second draft is reached from the first: names, definitions, shapes and declarations of
mappings are added. -/
structure Grows (d d' : Draft) : Prop where
  registry : d.registry.Grows (fun _ => True) d'.registry
  document_eq : d'.document = d.document
  definitions : d.progress.definitions <+: d'.progress.definitions
  nodes : ∀ id node, d.nodes.lookup id = some node → d'.nodes.lookup id = some node
  sources : ∀ s id, d.bySource.lookup s = some id → d'.bySource.lookup s = some id

theorem Grows.refl (d : Draft) : d.Grows d :=
  ⟨.refl, rfl, List.prefix_refl _, fun _ _ h => h, fun _ _ h => h⟩

theorem Grows.trans (h : d.Grows d') (h' : d'.Grows d'') : d.Grows d'' :=
  ⟨h.registry.trans h'.registry, h'.document_eq.trans h.document_eq,
    h.definitions.trans h'.definitions, fun id node hn => h'.nodes id node (h.nodes id node hn),
    fun s id hs => h'.sources s id (h.sources s id hs)⟩

theorem Grows.ofSource? (h : d.Grows d') {source : Option Source} {id : String}
    (hs : d.ofSource? source = some id) : d'.ofSource? source = some id := by
  obtain ⟨s, rfl, hs⟩ := Option.bind_eq_some_iff.mp hs
  exact h.sources s id hs

theorem Settles.mono (h : d.Grows d') {variants : List Shape} {discriminator settled : Option String}
    (hs : d.Settles variants discriminator settled) : d'.Settles variants discriminator settled := by
  obtain ⟨p, hp, he⟩ := hs
  exact ⟨p, hp.trans h.definitions, he⟩

theorem Stands.mono (h : d.Grows d') {node placed : Shape} {members members' : Shape → Prop}
    (hm : ∀ filled, members filled → members' filled) (hs : d.Stands node members placed) :
    d'.Stands node members' placed := by
  unfold Stands at *
  split at hs
  · obtain ⟨id, rfl, hid⟩ := hs
    refine ⟨id, rfl, hid.imp h.ofSource? ?_⟩
    rintro ⟨filled, hf, hfilled⟩
    exact ⟨filled, h.nodes id filled hf, hm filled hfilled⟩
  · exact hm placed hs

mutual

theorem Placed.mono (h : d.Grows d') : ∀ (node : Shape) {placed : Shape},
    d.Placed node placed → d'.Placed node placed
  | .record fields trailer _ _, _, ⟨fs, t, hf, ht, he⟩ =>
    ⟨fs, t, PlacedFields.mono h fields hf, PlacedTrailer.mono h trailer ht, he⟩
  | .array element, _, ⟨e, hs, he⟩ => ⟨e, hs.mono h fun _ => Placed.mono h element, he⟩
  | .union variants _, _, ⟨vs, s, hs, hv, he⟩ =>
    ⟨vs, s, hs.mono h, PlacedVariants.mono h variants hv, he⟩
  | .primitive _ _, _, hp => hp
  | .enum _, _, hp => hp
  | .handle _, _, hp => hp
  | .unknown, _, hp => hp

theorem PlacedFields.mono (h : d.Grows d') : ∀ (fields : List (Field Shape))
    {placed : List (Field Shape)}, d.PlacedFields fields placed → d'.PlacedFields fields placed
  | [], _, hp => hp
  | ⟨_, node, _, _⟩ :: rest, _, ⟨n, r, hn, hr, he⟩ =>
    ⟨n, r, hn.mono h fun _ => Placed.mono h node, PlacedFields.mono h rest hr, he⟩

theorem PlacedTrailer.mono (h : d.Grows d') : ∀ (trailer : Option Shape) {placed : Option Shape},
    d.PlacedTrailer trailer placed → d'.PlacedTrailer trailer placed
  | none, _, hp => hp
  | some node, _, ⟨n, hn, he⟩ => ⟨n, hn.mono h fun _ => Placed.mono h node, he⟩

theorem PlacedVariants.mono (h : d.Grows d') : ∀ (variants : List Shape) {placed : List Shape},
    d.PlacedVariants variants placed → d'.PlacedVariants variants placed
  | [], _, hp => hp
  | node :: rest, _, ⟨n, r, hn, hr, he⟩ =>
    ⟨n, r, hn.mono h fun _ => Placed.mono h node, PlacedVariants.mono h rest hr, he⟩

end

end Draft

end RouteStubs
