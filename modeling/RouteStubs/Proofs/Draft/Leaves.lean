import RouteStubs.Proofs.Draft.Mirrored
import RouteStubs.Proofs.Shape.Sole

/-!
# Fields that stay

Hoisting leaves what has no parts as it is, so a record that is filled in has the fields of the record
that it was filled in for, and among these the ones without parts are the same. If that record is only
alike to another one, then the fields that have no other form are still the same.

## Main definitions

* `Shape.KeepsLeaf`: a field keeps its name, and its shape if that has no parts.
* `Shape.ShowsSole`: fields that have no other form are found again.

## Main statements

* `Shape.showsSole_of_alike`: they are if a record is filled in that is alike.
-/

namespace RouteStubs

namespace Shape

variable {stands : Shape → String → Prop}
  {settles : List Shape → Option String → Option String → Prop} {node other : Shape}
  {fields more others : List (Field Shape)} {name : String} {f : Field Shape}

/-! ### Leaves -/

theorem IsLeaf.flat (h : node.IsLeaf) : node.Flat := by
  rintro _ _ _ _ rfl
  cases h

theorem Mirrors.eq_of_isLeaf (h : Mirrors stands settles node other) (hl : node.IsLeaf) :
    other = node := by
  cases h with
  | leaf _ => rfl
  | _ => cases hl

theorem MirrorsInside.eq_of_isLeaf (h : MirrorsInside stands settles node other) (hl : node.IsLeaf) :
    other = node := by
  cases h with
  | handle hflat _ => exact absurd hl.flat hflat
  | parts _ h => exact h.eq_of_isLeaf hl

/-- A record is mirrored by a record. -/
theorem Mirrors.exists_record {trailer : Option Shape} {description : String} {source : Option Source}
    (h : Mirrors stands settles (.record fields trailer description source) other) :
    ∃ others tail, other = .record others tail description source ∧
      MirrorsFields stands settles fields others := by
  cases h with
  | record hf _ => exact ⟨_, _, rfl, hf⟩
  | leaf hl => cases hl

/-- What is alike to a record has parts. -/
theorem Alike.not_isLeaf {key : String → Option String} {trailer : Option Shape}
    {description : String} {source : Option Source}
    (h : Alike key node (.record fields trailer description source)) : ¬ node.IsLeaf := by
  intro hl
  cases h with
  | record _ _ => cases hl
  | more _ _ => cases hl
  | orNull _ _ ho => exact absurd ho.symm orNull_ne_record

/-! ### Fields -/

/-- The field keeps its name, and its shape if that has no parts. -/
def KeepsLeaf (f g : Field Shape) : Prop := f.name = g.name ∧ (f.node.IsLeaf → g.node = f.node)

theorem keepsLeaf_of_mirrorsFields (h : MirrorsFields stands settles fields others) :
    List.Forall₂ KeepsLeaf fields others := by
  induction fields generalizing others with
  | nil =>
    cases h
    exact .nil
  | cons f rest ih =>
    cases h with
    | cons h hrest => exact .cons ⟨rfl, h.eq_of_isLeaf⟩ (ih hrest)

/-- In lists with the same names, a field is found in the place of another one. -/
theorem exists_field?_of_forall₂ {R : Field Shape → Field Shape → Prop}
    (hn : ∀ f g, R f g → f.name = g.name) (h : List.Forall₂ R fields more)
    (hf : field? fields name = some f) : ∃ g, field? more name = some g ∧ R f g := by
  unfold field? at *
  induction h with
  | nil => cases hf
  | @cons a b _ _ head _ ih =>
    rw [List.find?_cons] at hf ⊢
    rw [← hn a b head]
    split at hf
    · cases hf
      exact ⟨b, rfl, head⟩
    · exact ih hf

section Sole

variable (key : String → Option String) (named : String → Prop)

/-- Fields of the first list that have no other form are found in the second one under their names. -/
def ShowsSole (fields others : List (Field Shape)) : Prop :=
  ∀ name f, field? fields name = some f → Sole key named f.node →
    ∃ g, field? others name = some g ∧ g.node = f.node

variable {key named}

/-- The fields of a record that have no other form are found in what an alike record is filled in with. -/
theorem showsSole_of_alike {trailer tail : Option Shape} {description description' : String}
    {source source' : Option Source}
    (h : Alike key (.record fields trailer description source)
      (.record more tail description' source'))
    (hr : (record more tail description' source').Throughout (Regulated named))
    (hk : List.Forall₂ KeepsLeaf more others) : ShowsSole key named fields others := by
  intro name f hf hsole
  obtain ⟨f', hf', -, -, -, halike⟩ :=
    exists_field?_of_forall₂ (fun _ _ h => h.1) (alikeFields_iff.mp h.of_record.1) hf
  obtain ⟨g, hg, -, hkept⟩ := exists_field?_of_forall₂ (fun _ _ h => h.1) hk hf'
  have heq : f'.node = f.node :=
    halike.eq_of_sole hsole ((below_record.mp hr.below).1 f' (List.mem_of_find?_eq_some hf'))
  exact ⟨g, hg, (hkept (heq ▸ hsole.isLeaf)).trans heq⟩

end Sole

end Shape

namespace Draft

open Shape

variable {d : Draft} {node placed : Shape} {fields others : List (Field Shape)}

theorem Placed.eq_of_isLeaf (h : d.Placed node placed) (hl : node.IsLeaf) : placed = node := by
  cases node with
  | record _ _ _ _ => cases hl
  | array _ => cases hl
  | union _ _ => cases hl
  | _ => exact h

theorem Stands.eq_of_isLeaf (h : d.Stands node (d.Placed node) placed) (hl : node.IsLeaf) :
    placed = node := by
  unfold Stands at h
  split at h
  · cases hl
  · exact Placed.eq_of_isLeaf h hl

theorem keepsLeaf_of_placedFields (h : d.PlacedFields fields others) :
    List.Forall₂ KeepsLeaf fields others := by
  induction fields generalizing others with
  | nil =>
    rw [show others = [] from h]
    exact .nil
  | cons f rest ih =>
    obtain ⟨node', rest', hn, hrest, rfl⟩ := h
    exact .cons ⟨rfl, hn.eq_of_isLeaf⟩ (ih hrest)

/-- Only a record is placed as one. -/
theorem Placed.exists_record {trailer : Option Shape} {description : String} {source : Option Source}
    (h : d.Placed node (.record others trailer description source)) :
    ∃ fields tail, node = .record fields tail description source ∧ d.PlacedFields fields others := by
  cases node with
  | record fields tail _ _ =>
    obtain ⟨_, _, hf, -, he⟩ := h
    cases he
    exact ⟨fields, tail, rfl, hf⟩
  | array _ =>
    obtain ⟨_, _, he⟩ := h
    cases he
  | union _ _ =>
    obtain ⟨_, _, _, _, he⟩ := h
    cases he
  | _ => cases h

end Draft

end RouteStubs
