import Mathlib.Logic.Relation
import RouteStubs.Shape.Basic

/-!
# What is so throughout a shape

A property of shapes can hold of a shape and of everything inside it, or of everything inside it only.
Both are taken apart as shapes are: by the fields and the trailer of a record, the elements of a list
and the variants of a union.

## Main definitions

* `Shape.Child`: a shape stands directly inside another one.
* `Shape.Throughout P`: the property holds of the shape and of everything inside it.
* `Shape.Below P`: it holds of everything inside it.

## Main statements

* `Shape.throughout_iff`, `Shape.below_iff`: one step into the shape.
* `Shape.throughout_record`, `Shape.throughout_union`, `Shape.throughout_array`: by the parts.
* `Shape.throughout_orNull`: null is added.
-/

namespace RouteStubs.Shape

/-- The first shape stands directly inside the second. -/
inductive Child : Shape → Shape → Prop
  | field {fields : List (Field Shape)} {trailer : Option Shape} {description : String}
      {source : Option Source} {f : Field Shape} (hf : f ∈ fields) :
      Child f.node (.record fields trailer description source)
  | further {fields : List (Field Shape)} {tail : Shape} {description : String}
      {source : Option Source} : Child tail (.record fields (some tail) description source)
  | element {inner : Shape} : Child inner (.array inner)
  | variant {variants : List Shape} {discriminator : Option String} {inner : Shape}
      (hv : inner ∈ variants) : Child inner (.union variants discriminator)

/-- The property holds of the shape and of everything inside it. -/
def Throughout (P : Shape → Prop) (node : Shape) : Prop :=
  ∀ inner, Relation.ReflTransGen Child inner node → P inner

/-- The property holds of everything inside the shape. -/
def Below (P : Shape → Prop) (node : Shape) : Prop :=
  ∀ inner, Relation.TransGen Child inner node → P inner

variable {P Q : Shape → Prop} {node inner : Shape} {fields : List (Field Shape)}
  {trailer : Option Shape} {description : String} {source : Option Source} {variants : List Shape}
  {discriminator : Option String}

theorem Throughout.self (h : node.Throughout P) : P node := h node .refl

theorem Throughout.child (h : node.Throughout P) (hc : Child inner node) : inner.Throughout P :=
  fun part hp => h part (hp.tail hc)

theorem Throughout.imp (h : node.Throughout P) (hPQ : ∀ inner, P inner → Q inner) :
    node.Throughout Q := fun inner hi => hPQ inner (h inner hi)

theorem Throughout.below (h : node.Throughout P) : node.Below P :=
  fun inner hi => h inner hi.to_reflTransGen

theorem below_iff : node.Below P ↔ ∀ inner, Child inner node → inner.Throughout P := by
  constructor
  · intro h inner hc part hp
    exact h part (Relation.TransGen.tail' hp hc)
  · intro h part hp
    obtain ⟨inner, hi, hc⟩ := Relation.TransGen.tail'_iff.mp hp
    exact h inner hc part hi

theorem throughout_iff : node.Throughout P ↔ P node ∧ node.Below P := by
  constructor
  · intro h
    exact ⟨h.self, h.below⟩
  · rintro ⟨hself, hbelow⟩ inner hi
    rcases Relation.reflTransGen_iff_eq_or_transGen.mp hi with rfl | hi
    · exact hself
    · exact hbelow inner hi

/-! ### By the parts -/

theorem below_record : (record fields trailer description source).Below P ↔
    (∀ f ∈ fields, f.node.Throughout P) ∧ ∀ tail, trailer = some tail → tail.Throughout P := by
  rw [below_iff]
  constructor
  · intro h
    refine ⟨fun f hf => h f.node (.field hf), ?_⟩
    rintro tail rfl
    exact h tail .further
  · rintro ⟨hf, ht⟩ inner hc
    cases hc with
    | field hm => exact hf _ hm
    | further => exact ht _ rfl

theorem below_array : (array inner).Below P ↔ inner.Throughout P := by
  rw [below_iff]
  constructor
  · intro h
    exact h inner .element
  · intro h part hc
    cases hc
    exact h

theorem below_union :
    (union variants discriminator).Below P ↔ ∀ node ∈ variants, node.Throughout P := by
  rw [below_iff]
  constructor
  · intro h node hn
    exact h node (.variant hn)
  · intro h part hc
    cases hc with
    | variant hv => exact h part hv

theorem throughout_record (h : P (record fields trailer description source))
    (hf : ∀ f ∈ fields, f.node.Throughout P)
    (ht : ∀ tail, trailer = some tail → tail.Throughout P) :
    (record fields trailer description source).Throughout P :=
  throughout_iff.mpr ⟨h, below_record.mpr ⟨hf, ht⟩⟩

theorem throughout_array (h : P (array inner)) (hi : inner.Throughout P) :
    (array inner).Throughout P :=
  throughout_iff.mpr ⟨h, below_array.mpr hi⟩

theorem throughout_union (h : P (union variants discriminator))
    (hv : ∀ node ∈ variants, node.Throughout P) : (union variants discriminator).Throughout P :=
  throughout_iff.mpr ⟨h, below_union.mpr hv⟩

/-- Nothing stands inside shapes of the other kinds. -/
def IsLeaf : Shape → Prop
  | .primitive _ _ => True
  | .enum _ => True
  | .handle _ => True
  | .unknown => True
  | _ => False

theorem below_of_isLeaf (hl : node.IsLeaf) : node.Below P := by
  rw [below_iff]
  intro inner hc
  cases hc <;> cases hl

theorem throughout_of_isLeaf (hl : node.IsLeaf) (h : P node) : node.Throughout P :=
  throughout_iff.mpr ⟨h, below_of_isLeaf hl⟩

/-- Shapes that are no records, no unions, no enumerations and no handles. -/
def IsBasic : Shape → Prop
  | .record _ _ _ _ => False
  | .union _ _ => False
  | .enum _ => False
  | .handle _ => False
  | _ => True

/-! ### Null added -/

theorem throughout_orNull (h : node.Throughout P) (hnull : P nullShape)
    (hone : P (union [node, nullShape] none))
    (hmore : ∀ variants discriminator, node = union variants discriminator →
      nullShape.isAmong variants = false → P (union (variants ++ [nullShape]) discriminator)) :
    node.orNull.Throughout P := by
  have hn : nullShape.Throughout P := throughout_of_isLeaf trivial hnull
  unfold orNull
  split
  · exact h
  · next variants discriminator =>
    split
    · exact h
    · next hno =>
      refine throughout_union (hmore _ _ rfl (by simpa using hno)) fun v hv => ?_
      rcases List.mem_append.mp hv with hv | hv
      · exact h.child (.variant hv)
      · exact List.mem_singleton.mp hv ▸ hn
  · split
    · exact h
    · refine throughout_union hone fun v hv => ?_
      rcases List.mem_cons.mp hv with rfl | hv
      · exact h
      · exact List.mem_singleton.mp hv ▸ hn

end RouteStubs.Shape
