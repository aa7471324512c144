import RouteStubs.Proofs.Shape.Alike
import RouteStubs.Proofs.Shape.Throughout

/-!
# Shapes that have no other form

Shapes that are alike may differ in how often an alternative is listed, so one of them may be a union
where the other one is its only variant. The rules never make a union of one variant. So what is alike
to an enumeration is that enumeration, and what is alike to a handle is that handle, if there is no
other name for the key of its target.

## Main definitions

* `Shape.Several`: a union has several variants.
* `Shape.Sole`: an enumeration, or a handle to the only name for a key.

## Main statements

* `Shape.Alike.eq_of_sole`: such a shape has no other form.
-/

namespace RouteStubs.Shape

variable {key : String → Option String} {named : String → Prop} {node other : Shape}
  {nodes others : List Shape}

/-- A union has several variants. -/
def Several (node : Shape) : Prop :=
  ∀ variants discriminator, node = .union variants discriminator → 2 ≤ variants.length

variable (key named) in
/-- The shape is an enumeration, or a handle to the only one of the names that has its key. -/
def Sole (node : Shape) : Prop :=
  (∃ values, node = .enum values) ∨ ∃ target, node = .handle target ∧
    ∀ name k, key target = some k → key name = some k → named name → name = target

variable (named) in
/-- The shape is made by the rules: unions have several variants, and handles are to these names. -/
def Regulated (node : Shape) : Prop :=
  node.Several ∧ ∀ target, node = .handle target → named target

theorem Sole.isLeaf (h : Sole key named node) : node.IsLeaf := by
  rcases h with ⟨_, rfl⟩ | ⟨_, rfl, -⟩ <;> trivial

theorem regulated_enum (named : String → Prop) (values : List Scalar) :
    Regulated named (.enum values) :=
  ⟨by simp [Several], by simp⟩

/-- What is the same as an enumeration or a handle is one, too. -/
theorem Sole.of_same (h : Sole key named node) (hs : other.same node = true) :
    Sole key named other ∧
      (node.Throughout (Regulated named) → other.Throughout (Regulated named)) := by
  rcases h with ⟨values, rfl⟩ | ⟨target, rfl, honly⟩
  · cases other with
    | enum _ => exact ⟨.inl ⟨_, rfl⟩, fun _ => throughout_of_isLeaf trivial (regulated_enum _ _)⟩
    | _ => simp [same] at hs
  · cases other with
    | handle _ =>
      obtain rfl := eq_of_beq (by simpa only [same] using hs)
      exact ⟨.inr ⟨_, rfl, honly⟩, fun h => h⟩
    | _ => simp [same] at hs

/-- Alternatives of which only one is kept, and that have no other form, are kept so in other readings. -/
theorem distinct_eq_of_sole {only : Shape} (hn : distinct nodes = [only])
    (hsole : Sole key named only)
    (h : List.Forall₂ (fun node other => Sole key named node →
      other.Throughout (Regulated named) → other = node) nodes others)
    (hr : ∀ other ∈ distinct others, other.Throughout (Regulated named)) :
    distinct others = [only] := by
  have hnodes : ∀ node ∈ nodes, Sole key named node := by
    intro node hm
    rcases exists_mem_distinct hm with hkept | ⟨kept, hkept, hsame⟩
    · rw [hn] at hkept
      exact List.mem_singleton.mp hkept ▸ hsole
    · rw [hn, List.mem_singleton] at hkept
      exact (hsole.of_same (hkept ▸ hsame)).1
  have hkept : ∀ other ∈ distinct others, Sole key named other := by
    intro other hm
    obtain ⟨node, hnode, heq⟩ := exists_mem_of_forall₂ h.flip (mem_of_mem_distinct hm)
    rw [heq (hnodes node hnode) (hr other hm)]
    exact hnodes node hnode
  -- what is dropped is the same as what is kept, so it is made by the rules as well
  have hall : ∀ other ∈ others, other.Throughout (Regulated named) := by
    intro other hm
    rcases exists_mem_distinct hm with hm | ⟨kept, hm, hsame⟩
    · exact hr other hm
    · exact ((hkept kept hm).of_same hsame).2 (hr kept hm)
  have heq : others = nodes := by
    clear hn hkept hr
    induction h with
    | nil => rfl
    | cons head _ ih =>
      obtain ⟨hnode, hrest⟩ := List.forall_mem_cons.mp hnodes
      obtain ⟨hother, hothers⟩ := List.forall_mem_cons.mp hall
      rw [head hnode hother, ih hrest hothers]
  rw [heq, hn]

theorem orNull_not_sole : ¬ Sole key named node.orNull := by
  intro h
  rcases h with ⟨values, he⟩ | ⟨target, he, -⟩
  · exact not_isDirect_orNull node (he ▸ trivial)
  · exact orNull_ne_handle he

mutual

/-- What is alike to an enumeration, or to a handle to the only name for a key, is that shape. -/
theorem Alike.eq_of_sole {node other : Shape} : Alike key node other → Sole key named node →
    other.Throughout (Regulated named) → other = node
  | .enum, _, _ => rfl
  | .handle h h', hn, hr => by
    rcases hn with ⟨_, hn⟩ | ⟨target, heq, honly⟩
    · cases hn
    · cases heq
      rw [honly _ _ h h' (hr.self.2 _ rfl)]
  | .fewer h ho, hn, hr => by
    have hkept := distinct_eq_of_sole ho hn (AlikeNodes.eq_of_sole h) (below_union.mp hr.below)
    have := hr.self.1 _ _ rfl
    simp [hkept] at this
  | .orNull _ heq _, hn, _ => absurd (heq ▸ hn) orNull_not_sole
  | .primitive, hn, _ => by rcases hn with ⟨_, h⟩ | ⟨_, h, -⟩ <;> cases h
  | .record _ _, hn, _ => hn.isLeaf.elim
  | .array _, hn, _ => hn.isLeaf.elim
  | .unknown, hn, _ => by rcases hn with ⟨_, h⟩ | ⟨_, h, -⟩ <;> cases h
  | .union _, hn, _ => hn.isLeaf.elim
  | .more _ _, hn, _ => hn.isLeaf.elim

theorem AlikeNodes.eq_of_sole {nodes others : List Shape} : AlikeNodes key nodes others →
    List.Forall₂ (fun node other => Sole key named node →
      other.Throughout (Regulated named) → other = node) nodes others
  | .nil => .nil
  | .cons h rest => .cons (Alike.eq_of_sole h) (AlikeNodes.eq_of_sole rest)

end

end RouteStubs.Shape
