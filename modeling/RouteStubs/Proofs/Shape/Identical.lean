import Mathlib.Data.List.Pairwise
import RouteStubs.Proofs.Schema.Unforeseen
import RouteStubs.Proofs.Shape.Same

/-!
# Shapes that are the same and shapes that are identical

Shapes are the same when their numbers are equal, whatever their kinds: an enumeration of the integer
one is the same as one of the number 1.0, and as one of the truth value. They are identical only if
these kinds agree too, as the values of an enumeration and the values of a discriminator are compared.

A list of shapes keeps the first of several that are the same. So what it keeps stands for all of the
list exactly if shapes that are the same are identical.

## Main definitions

* `Scalar.kind`, `Shape.valueKinds`: the kinds of scalars, and of the values in a shape.
* `Shape.Identical`: shapes that are the same, with values of the same kinds.
* `Shape.FirstOf`: the shapes of a list at their first places.

## Main statements

* `Scalar.sameKind_iff`: scalars of one kind.
* `Shape.firstOf_distinct`: what is kept of a list.
* `Shape.FirstOf.identical_iff`: when it stands for the list.
-/

namespace RouteStubs

/-! ### Kinds of values -/

/-- The kind of a scalar. -/
def Scalar.kind : Scalar → Kind
  | .null => .null
  | .bool _ => .boolean
  | .int _ => .integer
  | .real _ => .number
  | .text _ => .string

/-- Scalars of one kind are equal when they are the same. -/
theorem Scalar.sameKind_iff {a b : Scalar} :
    a.sameKind b = true ↔ a.same b = true ∧ a.kind = b.kind := by
  cases a <;> cases b <;> simp [sameKind, same, kind, asInt?]
  next p q => cases p <;> cases q <;> decide

namespace Shape

mutual

/-- The kinds of the values of all enumerations in a shape, from left to right. -/
def valueKinds : Shape → List Kind
  | .record fields trailer _ _ => fieldKinds fields ++ trailerKinds trailer
  | .array element => valueKinds element
  | .union variants _ => variantKinds variants
  | .enum values => values.map Scalar.kind
  | _ => []

/-- The kinds of the values in fields. -/
def fieldKinds : List (Field Shape) → List Kind
  | [] => []
  | ⟨_, node, _, _⟩ :: rest => valueKinds node ++ fieldKinds rest

/-- The kinds of the values in a trailer. -/
def trailerKinds : Option Shape → List Kind
  | none => []
  | some node => valueKinds node

/-- The kinds of the values in a list of shapes. -/
def variantKinds : List Shape → List Kind
  | [] => []
  | node :: rest => valueKinds node ++ variantKinds rest

end

/-- Shapes that are the same, and whose values are of the same kinds. -/
def Identical (a b : Shape) : Prop := a.same b = true ∧ a.valueKinds = b.valueKinds

instance (a b : Shape) : Decidable (a.Identical b) := inferInstanceAs (Decidable (_ ∧ _))

/-- Enumerations are identical when their values are equal and of one kind, one by one. -/
theorem identical_enum_iff {as bs : List Scalar} :
    (enum as).Identical (enum bs) ↔ List.Forall₂ (fun a b => a.sameKind b = true) as bs := by
  rw [Identical, same, valueKinds, valueKinds]
  induction as generalizing bs with
  | nil => cases bs <;> simp [sameScalars]
  | cons a as ih =>
    cases bs with
    | nil => simp [sameScalars]
    | cons b bs =>
      rw [List.forall₂_cons, ← ih, Scalar.sameKind_iff]
      simp only [sameScalars, Bool.and_eq_true, List.map_cons, List.cons.injEq]
      tauto

/-- A regular shape can be looked up. -/
theorem Regular.isKey {node : Shape} (h : node.Regular) : node.isKey = true := by
  refine isKey_of_formatted (h.imp fun inner hown => ?_)
  cases inner with
  | primitive kind format =>
    obtain ⟨a, rfl, -⟩ := hown
    exact .inl rfl
  | _ => trivial

/-- Regular shapes are the same in both directions. -/
theorem Regular.same_comm {a b : Shape} (ha : a.Regular) (hb : b.Regular) (h : a.same b = true) :
    b.same a = true :=
  same_of_same hb ha h (same_self ha.isKey)

end Shape

/-! ### First places -/

section KeepNew

variable {α : Type} {same : α → α → Bool} {items kept : List α}

theorem keepNew_append (kept items more : List α) :
    keepNew same kept (items ++ more) = keepNew same (keepNew same kept items) more :=
  List.foldl_append

/-- What is kept of a list goes on those kept before, in the order of the list. -/
theorem exists_sublist_keepNew (kept items : List α) :
    ∃ new, new.Sublist items ∧ keepNew same kept items = kept ++ new := by
  induction items generalizing kept with
  | nil => exact ⟨[], .slnil, (List.append_nil kept).symm⟩
  | cons first rest ih =>
    rw [keepNew_cons]
    split
    · obtain ⟨new, hsub, heq⟩ := ih kept
      exact ⟨new, hsub.cons first, heq⟩
    · obtain ⟨new, hsub, heq⟩ := ih (kept ++ [first])
      exact ⟨first :: new, hsub.cons_cons first, by rw [heq, List.append_assoc]; rfl⟩

/-- Nothing that is kept is the same as what was kept before it. -/
theorem pairwise_keepNew (h : kept.Pairwise fun a b => same b a = false) :
    (keepNew same kept items).Pairwise fun a b => same b a = false := by
  induction items generalizing kept with
  | nil => exact h
  | cons first rest ih =>
    rw [keepNew_cons]
    apply ih
    split
    · exact h
    · next hnew =>
      refine List.pairwise_append.mpr ⟨h, List.pairwise_singleton _ _, fun a ha b hb => ?_⟩
      rw [List.mem_singleton.mp hb]
      by_contra hsame
      exact hnew (List.any_eq_true.mpr ⟨a, ha, by simpa using hsame⟩)

end KeepNew

namespace Shape

variable {nodes variants : List Shape}

/-- The shapes of a list at their first places: in the order of the list, no two the same, and each
shape of the list is there, or one that is the same and stands before it. -/
structure FirstOf (nodes variants : List Shape) : Prop where
  /-- The order of first places. -/
  sublist : variants.Sublist nodes
  /-- Up to each place, the shape at the place is there or one that is the same. -/
  first : ∀ {before : List Shape} {node : Shape} {after : List Shape},
    nodes = before ++ node :: after →
      node ∈ variants ∨ ∃ v ∈ variants, v ∈ before ∧ node.same v = true
  /-- No two are the same. -/
  apart : variants.Pairwise fun v w => w.same v = false

/-- Of a list the shapes at their first places are kept. -/
theorem firstOf_distinct (nodes : List Shape) : FirstOf nodes (distinct nodes) where
  sublist := by
    obtain ⟨new, hsub, heq⟩ : ∃ new, new.Sublist nodes ∧ distinct nodes = [] ++ new :=
      exists_sublist_keepNew [] nodes
    rwa [heq, List.nil_append]
  first := by
    rintro before node after rfl
    have hkept : ∀ {v}, v ∈ distinct (before ++ [node]) → v ∈ distinct (before ++ node :: after) := by
      intro v hv
      have hsplit : distinct (before ++ node :: after) =
          keepNew same (distinct (before ++ [node])) after := by
        rw [List.append_cons]
        exact keepNew_append [] (before ++ [node]) after
      rw [hsplit]
      exact mem_keepNew_of_mem hv
    rcases exists_mem_distinct (List.mem_append_right before (List.mem_singleton_self node)) with
      hself | ⟨v, hv, hsame⟩
    · exact .inl (hkept hself)
    · rcases List.mem_append.mp (mem_of_mem_distinct hv) with hbefore | hlast
      · exact .inr ⟨v, hkept hv, hbefore, hsame⟩
      · rw [List.mem_singleton.mp hlast] at hv
        exact .inl (hkept hv)
  apart := pairwise_keepNew .nil

/-- Shapes of the list that are the same have values of the same kinds. -/
def KindsAgree (nodes : List Shape) : Prop :=
  ∀ a ∈ nodes, ∀ b ∈ nodes, a.same b = true → a.valueKinds = b.valueKinds

/-- If shapes that are the same have values of the same kinds, none is lost. -/
theorem FirstOf.identical (h : FirstOf nodes variants) (hkinds : KindsAgree nodes) {node : Shape}
    (hn : node ∈ nodes) : node ∈ variants ∨ ∃ v ∈ variants, node.Identical v := by
  obtain ⟨before, after, rfl⟩ := List.append_of_mem hn
  rcases h.first rfl with hself | ⟨v, hv, -, hsame⟩
  · exact .inl hself
  · exact .inr ⟨v, hv, hsame, hkinds node hn v (h.sublist.subset hv) hsame⟩

/-- Two of the shapes at first places that are the same as a third one are one. -/
theorem FirstOf.eq_of_same (h : FirstOf nodes variants) (hregular : ∀ node ∈ nodes, node.Regular)
    {node v w : Shape} (hv : v ∈ variants) (hw : w ∈ variants) (hnv : node.same v = true)
    (hnw : node.same w = true) : v = w := by
  have hrv := hregular v (h.sublist.subset hv)
  have hrw := hregular w (h.sublist.subset hw)
  by_contra hne
  have hapart : variants.Pairwise fun v w => w.same v = false ∨ v.same w = false :=
    h.apart.imp Or.inl
  have hsymm : Std.Symm fun v w : Shape => w.same v = false ∨ v.same w = false :=
    ⟨fun _ _ => Or.symm⟩
  rcases hapart.forall hv hw hne with hno | hno
  · rw [same_of_same hrw hrv hnw hnv] at hno
    cases hno
  · rw [same_of_same hrv hrw hnv hnw] at hno
    cases hno

/-- None of the shapes of a list is lost if and only if shapes that are the same have values of the
same kinds. -/
theorem FirstOf.identical_iff (h : FirstOf nodes variants) (hregular : ∀ node ∈ nodes, node.Regular) :
    (∀ node ∈ nodes, node ∈ variants ∨ ∃ v ∈ variants, node.Identical v) ↔ KindsAgree nodes := by
  refine ⟨fun hall a ha b hb hab => ?_, fun hkinds node hn => h.identical hkinds hn⟩
  have hstands : ∀ node ∈ nodes, ∃ v ∈ variants, node.Identical v := by
    intro node hn
    rcases hall node hn with hself | hother
    · exact ⟨node, hself, same_self (hregular node hn).isKey, rfl⟩
    · exact hother
  obtain ⟨v, hv, hav, hkinds⟩ := hstands a ha
  obtain ⟨w, hw, hbw, hkinds'⟩ := hstands b hb
  have hra := hregular a ha
  have hrb := hregular b hb
  have haw : a.same w = true :=
    same_of_same hra (hregular w (h.sublist.subset hw)) ((hra.same_comm hrb) hab) hbw
  obtain rfl : v = w := h.eq_of_same hregular hv hw hav haw
  rw [hkinds, hkinds']

end Shape

end RouteStubs
