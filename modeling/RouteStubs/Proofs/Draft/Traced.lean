import RouteStubs.Proofs.Draft.Drafted
import RouteStubs.Proofs.Shape.Throughout

/-!
# What is inside filled shapes

A shape that is placed has no record with fields inside it. The handles inside it are of names that
were given, or stood inside what was placed.

## Main definitions

* `Shape.Flat`: no record with fields.
* `Draft.Fills`: what filling in leaves as it was.
* `Draft.Inside`: the shapes inside definitions.
* `Draft.Traced`: where a handle inside a filled shape comes from.
* `Draft.Laid`, `Draft.Inlaid`: what may be filled in, and what may stand inside it.

## Main statements

* `Draft.Laid.mono`, `Draft.Inlaid.mono`: this stays so while more is filled in.
-/

namespace RouteStubs

/-- The shape is no record with fields. -/
def Shape.Flat (node : Shape) : Prop :=
  ∀ fields trailer description source, node = .record fields trailer description source →
    fields = []

/-- What is not flat is a record with fields. -/
theorem Shape.not_flat_iff {node : Shape} : ¬ node.Flat ↔ ∃ f fields trailer description source,
    node = .record (f :: fields) trailer description source := by
  constructor
  · intro h
    simp only [Flat, Classical.not_forall] at h
    obtain ⟨fields, trailer, description, source, rfl, hne⟩ := h
    obtain ⟨f, fields, rfl⟩ := List.exists_cons_of_ne_nil hne
    exact ⟨f, fields, trailer, description, source, rfl⟩
  · rintro ⟨f, fields, trailer, description, source, rfl⟩ h
    cases h _ _ _ _ rfl

namespace Draft

variable {free : FreeKeys} {document : Value} {within within' : Shape → Prop} {d d' d'' : Draft}
  {id : String} {node placed : Shape}

/-! ### Filling in -/

/-- What a step that fills in leaves as it was. -/
structure Fills (d d' : Draft) : Prop where
  grows : d.Grows d'
  progress : d'.progress = { d.progress with names := d'.registry }
  filled : ∀ g ∈ d'.registry.given, g ∈ d.registry.given ∨ (d'.nodes.lookup g.id).isSome

theorem isSome_lookup_nodes (h : d.Grows d') (hs : (d.nodes.lookup id).isSome) :
    (d'.nodes.lookup id).isSome := by
  obtain ⟨node, hn⟩ := Option.isSome_iff_exists.mp hs
  exact Option.isSome_iff_exists.mpr ⟨node, h.nodes id node hn⟩

theorem Fills.refl (d : Draft) : d.Fills d := ⟨.refl d, rfl, fun _ h => .inl h⟩

theorem Fills.trans (h : d.Fills d') (h' : d'.Fills d'') : d.Fills d'' where
  grows := h.grows.trans h'.grows
  progress := by rw [h'.progress, h.progress]
  filled g hg := by
    rcases h'.filled g hg with hg' | hf
    · exact (h.filled g hg').imp id (isSome_lookup_nodes h'.grows)
    · exact .inr hf

theorem Fills.full (h : d.Fills d') (hf : d.Full) : d'.Full := fun g hg ho => by
  rcases h.filled g hg with hg' | hs
  · exact isSome_lookup_nodes h.grows (hf g hg' ho)
  · exact hs

theorem Hoists.fills (h : d.Hoists d') (hd : d.Drafted free document) : d.Fills d' :=
  ⟨h.grows hd, h.progress, h.filled⟩

theorem Fills.definitions (h : d.Fills d') : d'.progress.definitions = d.progress.definitions := by
  rw [h.progress]

theorem Fills.find?_eq (h : d.Fills d') (id : String) :
    d'.progress.definitions.find? id = d.progress.definitions.find? id := by
  rw [h.definitions]

/-- The shape is a definition or stands inside one. -/
def Inside (d : Draft) (inner : Shape) : Prop :=
  ∃ id node, d.progress.definitions.find? id = some node ∧
    Relation.ReflTransGen Shape.Child inner node

theorem inside_definition (hf : d.progress.definitions.find? id = some node) :
    node.Throughout d.Inside := fun _ hi => ⟨id, node, hf, hi⟩

theorem Fills.inside (h : d.Fills d') : d'.Inside = d.Inside := by
  unfold Inside
  rw [h.definitions]

/-! ### Where shapes come from -/

/-- A handle is of a given name, or was placed itself. -/
def Traced (within : Shape → Prop) (d : Draft) (node : Shape) : Prop :=
  ∀ id, node = .handle id → within (.handle id) ∨ ∃ g ∈ d.registry.given, g.id = id

/-- Everything inside the shape is traced, and below its root there is no record with fields. -/
structure Laid (within : Shape → Prop) (d : Draft) (placed : Shape) : Prop where
  traced : placed.Throughout (Traced within d)
  flat : placed.Below Shape.Flat

/-- The shape may stand inside a filled one: everything in it is traced, and nothing in it is a record
with fields. -/
structure Inlaid (within : Shape → Prop) (d : Draft) (placed : Shape) : Prop where
  traced : placed.Throughout (Traced within d)
  flat : placed.Throughout Shape.Flat

theorem Traced.mono (h : d.Fills d') (hw : ∀ node, within node → within' node)
    (ht : Traced within d node) : Traced within' d' node := by
  intro id hid
  refine (ht id hid).imp (hw _) ?_
  rintro ⟨g, hg, hgid⟩
  exact ⟨g, h.grows.given hg, hgid⟩

theorem Laid.mono (h : d.Fills d') (hw : ∀ node, within node → within' node)
    (hl : Laid within d placed) : Laid within' d' placed :=
  ⟨hl.traced.imp fun _ => Traced.mono h hw, hl.flat⟩

theorem Inlaid.mono (h : d.Fills d') (hw : ∀ node, within node → within' node)
    (hl : Inlaid within d placed) : Inlaid within' d' placed :=
  ⟨hl.traced.imp fun _ => Traced.mono h hw, hl.flat⟩

theorem Inlaid.laid (h : Inlaid within d placed) : Laid within d placed := ⟨h.traced, h.flat.below⟩

theorem Laid.inlaid (h : Laid within d placed) (hf : placed.Flat) : Inlaid within d placed :=
  ⟨h.traced, Shape.throughout_iff.mpr ⟨hf, h.flat⟩⟩

/-! ### By the parts -/

section Parts

variable {fields : List (Field Shape)} {trailer : Option Shape} {description : String}
  {source : Option Source} {variants : List Shape}

theorem laid_record (hf : ∀ f ∈ fields, Inlaid within d f.node)
    (ht : ∀ tail, trailer = some tail → Inlaid within d tail) :
    Laid within d (.record fields trailer description source) where
  traced := Shape.throughout_record nofun (fun f hm => (hf f hm).traced)
    fun tail hm => (ht tail hm).traced
  flat := Shape.below_record.mpr ⟨fun f hm => (hf f hm).flat, fun tail hm => (ht tail hm).flat⟩

theorem laid_array (h : Inlaid within d node) : Laid within d (.array node) :=
  ⟨Shape.throughout_array nofun h.traced, Shape.below_array.mpr h.flat⟩

theorem laid_union (settled : Option String) (hv : ∀ v ∈ variants, Inlaid within d v) :
    Laid within d (.union variants settled) where
  traced := Shape.throughout_union nofun fun v hm => (hv v hm).traced
  flat := Shape.below_union.mpr fun v hm => (hv v hm).flat

theorem laid_of_isLeaf (hl : node.IsLeaf) (h : Traced within d node) : Laid within d node :=
  ⟨Shape.throughout_of_isLeaf hl h, Shape.below_of_isLeaf hl⟩

/-- The handle of a given name. -/
theorem inlaid_handle {g : Given} (hg : g ∈ d.registry.given) : Inlaid within d (.handle g.id) := by
  have hl : Laid within d (.handle g.id) := laid_of_isLeaf trivial fun id hid => by
    cases hid
    exact Or.inr ⟨g, hg, rfl⟩
  apply hl.inlaid
  rintro _ _ _ _ ⟨⟩

end Parts

/-- A placed shape is a record with fields only if it was one before. -/
theorem Placed.flat (h : d.Placed node placed) (hn : node.Flat) : placed.Flat := by
  rintro fields trailer description source rfl
  cases node with
  | record before _ _ _ =>
    obtain ⟨fields', trailer', hf, -, he⟩ := h
    cases he
    obtain rfl := hn before _ _ _ rfl
    exact hf
  | array _ => obtain ⟨_, _, he⟩ := h; cases he
  | union _ _ => obtain ⟨_, _, _, _, he⟩ := h; cases he
  | primitive _ _ => cases h
  | enum _ => cases h
  | handle _ => cases h
  | unknown => cases h

end Draft

end RouteStubs
