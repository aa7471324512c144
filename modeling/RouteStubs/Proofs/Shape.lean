import RouteStubs.Proofs.Distinct
import RouteStubs.Shape.Basic

/-!
# Lists of shapes

A shape that is dropped from a list because it is there already is the same as one that is kept, and
what is kept was in the list. Shapes that are the same are so part by part, and a shape that can be
looked up is the same as itself.

## Main definitions

* `Shape.IsDirect`: handles and enumerations.

## Main statements

* `Shape.mem_of_mem_distinct`, `Shape.exists_mem_distinct`: what is kept of a list of shapes.
* `Shape.eq_handle_of_same`: a handle is the same as itself only.
* `Shape.sameVariants_self`: shapes that can be looked up are found.
-/

namespace RouteStubs

/-- Scalars are the same as themselves, the undefined number included. -/
theorem Scalar.same_self (s : Scalar) : s.same s = true := by
  cases s <;> simp [same, Binary64.same, asInt?]

namespace Shape

variable {node : Shape} {nodes others : List Shape} {fields more : List (Field Shape)}

/-- What is kept of a list was in it. -/
theorem mem_of_mem_distinct (h : node ∈ distinct nodes) : node ∈ nodes := mem_of_mem_keepNew_nil h

/-- A shape of a list is kept, or else one that is the same. -/
theorem exists_mem_distinct (h : node ∈ nodes) :
    node ∈ distinct nodes ∨ ∃ other ∈ distinct nodes, node.same other = true :=
  exists_mem_keepNew [] h

/-- Of a list that repeats one shape the shape is kept. -/
theorem distinct_of_forall_eq {first : Shape} {rest : List Shape} (hs : first.same first = true)
    (h : ∀ node ∈ rest, node = first) : distinct (first :: rest) = [first] := by
  have hrest : ∀ rest, (∀ node ∈ rest, node = first) → keepNew same [first] rest = [first] := by
    intro rest
    induction rest with
    | nil => exact fun _ => rfl
    | cons node rest ih =>
      intro h
      -- the next shape is the one that is kept already
      rw [keepNew_cons, h node List.mem_cons_self, if_pos (by simp [hs])]
      exact ih fun node hn => h node (List.mem_cons_of_mem _ hn)
  exact hrest rest h

/-! ### Shapes that are the same -/

theorem eq_handle_of_same {target : String} (h : node.same (.handle target) = true) :
    node = .handle target := by
  cases node <;> simp_all [same]

theorem eq_handle_of_handle_same {target : String} (h : (handle target).same node = true) :
    node = .handle target := by
  cases node <;> simp_all [same]

/-- What is the same as a primitive shape is one of its kind. -/
theorem exists_of_primitive_same {kind : Kind} {format : Value}
    (h : (primitive kind format).same node = true) : ∃ format', node = .primitive kind format' := by
  cases node <;> simp_all [same]

theorem exists_of_isNull (h : node.isNull = true) : ∃ format, node = .primitive .null format := by
  cases node <;> simp_all [isNull, same]

/-- Handles and enumerations. A schema that is made of others passes them on and does not make them. -/
def IsDirect : Shape → Prop
  | .handle _ => True
  | .enum _ => True
  | _ => False

theorem IsDirect.of_same {other : Shape} (h : other.IsDirect) (hs : node.same other = true) :
    node.IsDirect := by
  cases other with
  | handle target => exact eq_handle_of_same hs ▸ trivial
  | enum values => cases node <;> simp_all [same, IsDirect]
  | _ => cases h

/-- With null added a shape is that of anything, several alternatives, or null itself. -/
theorem orNull_cases (node : Shape) : node.orNull = .unknown ∨
    (∃ variants discriminator, node.orNull = .union variants discriminator) ∨
      ∃ format, node.orNull = .primitive .null format := by
  unfold orNull
  split
  · exact .inl rfl
  · split <;> exact .inr (.inl ⟨_, _, rfl⟩)
  · split
    · next hnull =>
      obtain ⟨format, rfl⟩ := exists_of_isNull hnull
      exact .inr (.inr ⟨format, rfl⟩)
    · exact .inr (.inl ⟨_, _, rfl⟩)

/-- With null added a shape is neither a handle nor an enumeration. -/
theorem not_isDirect_orNull (node : Shape) : ¬ node.orNull.IsDirect := by
  rcases orNull_cases node with h | ⟨_, _, h⟩ | ⟨_, h⟩ <;> rw [h] <;> exact id

/-! ### Part by part -/

/-- Lists that are compared item by item are related item by item. -/
theorem forall₂_of_same {α : Type} {same : List α → List α → Bool} {related : α → α → Prop}
    {as bs : List α} (hnil : ∀ b bs, same [] (b :: bs) = false)
    (hnil' : ∀ a as, same (a :: as) [] = false)
    (hcons : ∀ a as b bs, same (a :: as) (b :: bs) = true → related a b ∧ same as bs = true)
    (h : same as bs = true) : List.Forall₂ related as bs := by
  induction as generalizing bs with
  | nil =>
    cases bs with
    | nil => exact .nil
    | cons b bs => rw [hnil] at h; cases h
  | cons a as ih =>
    cases bs with
    | nil => rw [hnil'] at h; cases h
    | cons b bs =>
      obtain ⟨head, tail⟩ := hcons a as b bs h
      exact .cons head (ih tail)

/-- The fields of records that are the same are pairwise of the same name and shape, and required
alike. -/
theorem forall₂_of_sameFields (h : sameFields fields more = true) :
    List.Forall₂ (fun f g => f.name = g.name ∧ f.node.same g.node = true ∧ f.required = g.required)
      fields more := by
  refine forall₂_of_same (fun _ _ => by simp [sameFields]) (fun _ _ => by simp [sameFields])
    (fun f fs g gs h => ?_) h
  obtain ⟨_, _, _, _⟩ := f
  obtain ⟨_, _, _, _⟩ := g
  simp only [sameFields, Bool.and_eq_true, beq_iff_eq] at h
  exact ⟨⟨h.1.1.1, h.1.1.2, h.1.2⟩, h.2⟩

theorem forall₂_of_sameVariants (h : sameVariants nodes others = true) :
    List.Forall₂ (fun a b => a.same b = true) nodes others :=
  forall₂_of_same (fun _ _ => by simp [sameVariants]) (fun _ _ => by simp [sameVariants])
    (fun _ _ _ _ h => by simpa [sameVariants] using h) h

theorem forall₂_of_sameScalars {as bs : List Scalar} (h : sameScalars as bs = true) :
    List.Forall₂ (fun a b => a.same b = true) as bs :=
  forall₂_of_same (fun _ _ => by simp [sameScalars]) (fun _ _ => by simp [sameScalars])
    (fun _ _ _ _ h => by simpa [sameScalars] using h) h

theorem sameScalars_self (values : List Scalar) : sameScalars values values = true := by
  induction values with
  | nil => rfl
  | cons v rest ih => rw [sameScalars, Scalar.same_self, ih, Bool.and_self]

mutual

/-- A shape that can be looked up is the same as itself. -/
theorem same_self : ∀ {node : Shape}, node.isKey = true → node.same node = true
  | .primitive kind (.scalar format), _ => by simp [same, Value.same, Scalar.same_self]
  | .primitive _ (.list _), h => by cases h
  | .primitive _ (.mapping _ _), h => by cases h
  | .record _ _ _ _, h => by
    rw [isKey, Bool.and_eq_true] at h
    rw [same, sameFields_self h.1, sameTrailer_self h.2, Bool.and_self]
  | .array element, h => by
    rw [isKey] at h
    rw [same]
    exact same_self h
  | .union _ _, h => by
    rw [isKey] at h
    rw [same, sameVariants_self h, beq_self_eq_true, Bool.and_self]
  | .enum values, _ => by rw [same, sameScalars_self]
  | .handle _, _ => by rw [same, beq_self_eq_true]
  | .unknown, _ => by rw [same]

theorem sameFields_self : ∀ {fields : List (Field Shape)}, areFieldKeys fields = true →
    sameFields fields fields = true
  | [], _ => by rw [sameFields]
  | ⟨_, _, _, _⟩ :: _, h => by
    rw [areFieldKeys, Bool.and_eq_true] at h
    simp only [sameFields, same_self h.1, sameFields_self h.2, beq_self_eq_true, Bool.and_self]

theorem sameTrailer_self : ∀ {trailer : Option Shape}, isTrailerKey trailer = true →
    sameTrailer trailer trailer = true
  | none, _ => by rw [sameTrailer]
  | some _, h => by
    rw [isTrailerKey] at h
    rw [sameTrailer, same_self h]

theorem sameVariants_self : ∀ {variants : List Shape}, areKeys variants = true →
    sameVariants variants variants = true
  | [], _ => by rw [sameVariants]
  | _ :: _, h => by
    rw [areKeys, Bool.and_eq_true] at h
    rw [sameVariants, same_self h.1, sameVariants_self h.2, Bool.and_self]

end

/-- The same handles are among variants that are the same. -/
theorem handle_mem_of_sameVariants {name : String} (h : sameVariants nodes others = true) :
    handle name ∈ nodes ↔ handle name ∈ others := by
  have hall := forall₂_of_sameVariants h
  constructor
  · intro hm
    obtain ⟨other, ho, hs⟩ := exists_mem_of_forall₂ hall hm
    exact eq_handle_of_handle_same hs ▸ ho
  · intro hm
    obtain ⟨node, hn, hs⟩ := exists_mem_of_forall₂ hall.flip hm
    exact eq_handle_of_same hs ▸ hn

end Shape

end RouteStubs
