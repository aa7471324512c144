import RouteStubs.Proofs.Draft.Traced

/-!
# Mirrored shapes

What hoisting makes of a shape has the same parts in the same places. Only the records with fields
inside it have gone: handles stand for them. And unions whose discriminators were not found before may
have got them.

## Main definitions

* `Shape.source?`: the identity of a record.
* `Shape.Mirrors stands settles`: a shape with handles for the records inside it.
* `Shape.MirrorsInside stands settles`: what takes the place of a shape inside another one.

## Main statements

* `Shape.Mirrors.imp`: what is known of the handles counts for the records inside the shape only.
-/

namespace RouteStubs.Shape

/-- The identity of a record. -/
def source? : Shape → Option Source
  | .record _ _ _ source => source
  | _ => none

section

variable (stands : Shape → String → Prop)
  (settles : List Shape → Option String → Option String → Prop)

mutual

/-- The second shape is the first one with handles for the records inside it, each of a name that
`stands` for the record, and with unions that have the discriminators they settle for. -/
inductive Mirrors : Shape → Shape → Prop
  | record {fields others : List (Field Shape)} {trailer tail : Option Shape} {description : String}
      {source : Option Source} (hf : MirrorsFields fields others) (ht : MirrorsTrailer trailer tail) :
      Mirrors (.record fields trailer description source) (.record others tail description source)
  | array {element other : Shape} (h : MirrorsInside element other) :
      Mirrors (.array element) (.array other)
  | union {variants others : List Shape} {discriminator settled : Option String}
      (hs : settles variants discriminator settled) (hv : MirrorsVariants variants others) :
      Mirrors (.union variants discriminator) (.union others settled)
  | leaf {node : Shape} (hl : node.IsLeaf) : Mirrors node node

/-- What takes the place of a shape inside another one: a handle for a record with fields, and for
other shapes what they are made of. -/
inductive MirrorsInside : Shape → Shape → Prop
  | handle {record : Shape} {id : String} (hr : ¬ record.Flat) (hs : stands record id) :
      MirrorsInside record (.handle id)
  | parts {node other : Shape} (hf : node.Flat) (h : Mirrors node other) : MirrorsInside node other

/-- The fields of a record: their names, whether they are required and their descriptions stay. -/
inductive MirrorsFields : List (Field Shape) → List (Field Shape) → Prop
  | nil : MirrorsFields [] []
  | cons {name description : String} {node other : Shape} {required : Bool}
      {fields others : List (Field Shape)} (h : MirrorsInside node other)
      (rest : MirrorsFields fields others) :
      MirrorsFields (⟨name, node, required, description⟩ :: fields)
        (⟨name, other, required, description⟩ :: others)

/-- The trailer of a record. -/
inductive MirrorsTrailer : Option Shape → Option Shape → Prop
  | none : MirrorsTrailer none none
  | some {node other : Shape} (h : MirrorsInside node other) :
      MirrorsTrailer (some node) (some other)

/-- The variants of a union. -/
inductive MirrorsVariants : List Shape → List Shape → Prop
  | nil : MirrorsVariants [] []
  | cons {node other : Shape} {variants others : List Shape} (h : MirrorsInside node other)
      (rest : MirrorsVariants variants others) : MirrorsVariants (node :: variants) (other :: others)

end

end

variable {stands stands' : Shape → String → Prop}
  {settles settles' : List Shape → Option String → Option String → Prop} {node other : Shape}

/-- A record that is mirrored keeps its identity. -/
theorem Mirrors.source?_eq (h : Mirrors stands settles node other) : other.source? = node.source? := by
  cases h <;> rfl

/-! ### More handles -/

theorem MirrorsInside.imp_of
    (hm : ∀ other, Mirrors stands settles node other → Mirrors stands' settles' node other)
    (hr : ∀ id, stands node id → stands' node id) (h : MirrorsInside stands settles node other) :
    MirrorsInside stands' settles' node other := by
  cases h with
  | handle hn hs => exact .handle hn (hr _ hs)
  | parts hf h => exact .parts hf (hm _ h)

mutual

theorem Mirrors.imp (hs : ∀ variants discriminator settled,
      settles variants discriminator settled → settles' variants discriminator settled) :
    ∀ (node : Shape) {other : Shape},
      node.Below (fun record => ∀ id, stands record id → stands' record id) →
      Mirrors stands settles node other → Mirrors stands' settles' node other
  | .record fields trailer _ _, _, hr, h => by
    obtain ⟨hfields, htrailer⟩ := below_record.mp hr
    cases h with
    | record hf ht =>
      exact .record (MirrorsFields.imp hs fields hfields hf) (MirrorsTrailer.imp hs trailer htrailer ht)
    | leaf hl => cases hl
  | .array element, _, hr, h => by
    have helement := below_array.mp hr
    cases h with
    | array h => exact .array (h.imp_of (fun _ => Mirrors.imp hs element helement.below) helement.self)
    | leaf hl => cases hl
  | .union variants _, _, hr, h => by
    have hvariants := below_union.mp hr
    cases h with
    | union hd hv => exact .union (hs _ _ _ hd) (MirrorsVariants.imp hs variants hvariants hv)
    | leaf hl => cases hl
  | .primitive _ _, _, _, h => by
    cases h
    exact .leaf trivial
  | .enum _, _, _, h => by
    cases h
    exact .leaf trivial
  | .handle _, _, _, h => by
    cases h
    exact .leaf trivial
  | .unknown, _, _, h => by
    cases h
    exact .leaf trivial
termination_by structural node => node

theorem MirrorsFields.imp (hs : ∀ variants discriminator settled,
      settles variants discriminator settled → settles' variants discriminator settled) :
    ∀ (fields : List (Field Shape)) {others : List (Field Shape)},
    (∀ f ∈ fields, f.node.Throughout fun record => ∀ id, stands record id → stands' record id) →
      MirrorsFields stands settles fields others → MirrorsFields stands' settles' fields others
  | [], _, _, h => by
    cases h
    exact .nil
  | ⟨_, node, _, _⟩ :: rest, _, hr, h => by
    obtain ⟨hnode, hrest⟩ := List.forall_mem_cons.mp hr
    cases h with
    | cons h hothers =>
      exact .cons (h.imp_of (fun _ => Mirrors.imp hs node hnode.below) hnode.self)
        (MirrorsFields.imp hs rest hrest hothers)

theorem MirrorsTrailer.imp (hs : ∀ variants discriminator settled,
      settles variants discriminator settled → settles' variants discriminator settled) :
    ∀ (trailer : Option Shape) {tail : Option Shape},
    (∀ node, trailer = some node →
      node.Throughout fun record => ∀ id, stands record id → stands' record id) →
      MirrorsTrailer stands settles trailer tail → MirrorsTrailer stands' settles' trailer tail
  | none, _, _, h => by
    cases h
    exact .none
  | some node, _, hr, h => by
    have hnode := hr node rfl
    cases h with
    | some h => exact .some (h.imp_of (fun _ => Mirrors.imp hs node hnode.below) hnode.self)

theorem MirrorsVariants.imp (hs : ∀ variants discriminator settled,
      settles variants discriminator settled → settles' variants discriminator settled) :
    ∀ (variants : List Shape) {others : List Shape},
    (∀ node ∈ variants, node.Throughout fun record => ∀ id, stands record id → stands' record id) →
      MirrorsVariants stands settles variants others →
        MirrorsVariants stands' settles' variants others
  | [], _, _, h => by
    cases h
    exact .nil
  | node :: rest, _, hr, h => by
    obtain ⟨hnode, hrest⟩ := List.forall_mem_cons.mp hr
    cases h with
    | cons h hothers =>
      exact .cons (h.imp_of (fun _ => Mirrors.imp hs node hnode.below) hnode.self)
        (MirrorsVariants.imp hs rest hrest hothers)

end

theorem MirrorsInside.imp (hs : ∀ variants discriminator settled,
      settles variants discriminator settled → settles' variants discriminator settled)
    (hr : node.Throughout fun record => ∀ id, stands record id → stands' record id)
    (h : MirrorsInside stands settles node other) : MirrorsInside stands' settles' node other :=
  h.imp_of (fun _ => Mirrors.imp hs node hr.below) hr.self

end RouteStubs.Shape
