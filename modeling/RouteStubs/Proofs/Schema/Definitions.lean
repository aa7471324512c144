import Mathlib.Data.List.Perm.Subperm
import Mathlib.Logic.Relation
import RouteStubs.Proofs.Keyed
import RouteStubs.Shape.Canonical

/-!
# Definitions and handles

The definitions only ever grow at their end, and what a handle leads to stays when they do. A shape
leads nowhere when the handles from it reach a name that is not defined, or go in a circle: without
a circle there are no more handles on the way than definitions.

## Main definitions

* `Definitions.Leads`: a name is defined as a handle to another name.

## Main statements

* `Definitions.dereference_mono`: more definitions leave what a shape leads to.
* `Definitions.dereference_eq_none`, `Definitions.dereference_eq_none_of_circle`: how a shape leads
  nowhere.
-/

namespace RouteStubs

namespace Definitions

variable {definitions definitions' : Definitions} {name target : String} {node found : Shape}

theorem exists_split (h : definitions.find? name = some node) :
    ∃ earlier later, definitions = earlier ++ (name, node) :: later := by
  obtain ⟨earlier, later, rfl, -⟩ := List.lookup_eq_some_iff.mp h
  exact ⟨earlier, later, rfl⟩

theorem mem_keys_of_find? (h : definitions.find? name = some node) :
    name ∈ definitions.map Prod.fst := by
  obtain ⟨earlier, later, rfl⟩ := exists_split h
  simp

theorem notMem_keys (h : definitions.find? name = none) : name ∉ definitions.map Prod.fst := by
  intro hm
  obtain ⟨p, hp, rfl⟩ := List.mem_map.mp hm
  simpa using List.lookup_eq_none_iff.mp h p hp

theorem find?_concat_of_ne (h : name ≠ target) :
    (definitions ++ [(target, node)]).find? name = definitions.find? name := by
  simp [find?, List.lookup_append, List.lookup_cons, beq_eq_false_iff_ne.mpr h]

theorem find?_concat_self (h : definitions.find? name = none) :
    (definitions ++ [(name, node)]).find? name = some node := by
  unfold find? at h ⊢
  simp [List.lookup_append, h]

theorem find?_mono (h : definitions <+: definitions')
    (hf : definitions.find? name = some node) : definitions'.find? name = some node := by
  obtain ⟨more, rfl⟩ := h
  simp only [find?, List.lookup_append] at hf ⊢
  simp [hf]

/-- A shape that is no handle leads to itself. -/
theorem followIn_eq_some {find : String → Option Shape} (h : ∀ target, node ≠ .handle target)
    (steps : Nat) : followIn find steps node = some node := by
  cases node with
  | handle target => exact absurd rfl (h target)
  | _ => cases steps <;> rfl

theorem dereference_eq_self (h : ∀ target, node ≠ .handle target) :
    definitions.dereference node = some node := followIn_eq_some h _

theorem followIn_mono {find find' : String → Option Shape}
    (h : ∀ name node, find name = some node → find' name = some node) {steps steps' : Nat}
    (hs : steps ≤ steps') (hf : followIn find steps node = some found) :
    followIn find' steps' node = some found := by
  induction steps generalizing steps' node with
  | zero =>
    cases node with
    | handle target => cases hf
    | _ => rwa [followIn_eq_some (by simp)] at hf ⊢
  | succ steps ih =>
    cases node with
    | handle target =>
      obtain ⟨steps', rfl⟩ : ∃ k, steps' = k + 1 := ⟨steps' - 1, by omega⟩
      simp only [followIn, Option.bind_eq_some_iff] at hf ⊢
      obtain ⟨next, hn, hf⟩ := hf
      exact ⟨next, h _ _ hn, ih (by omega) hf⟩
    | _ => rwa [followIn_eq_some (by simp)] at hf ⊢

theorem dereference_mono (h : definitions <+: definitions')
    (hf : definitions.dereference node = some found) :
    definitions'.dereference node = some found :=
  followIn_mono (fun _ _ => find?_mono h) (by have := h.length_le; omega) hf

/-- What a shape leads to is the shape or a definition. -/
theorem followIn_eq_or {find : String → Option Shape} {steps : Nat}
    (h : followIn find steps node = some found) :
    found = node ∨ ∃ name, find name = some found := by
  induction steps generalizing node with
  | zero =>
    cases node with
    | handle target => cases h
    | _ => exact .inl (Option.some.inj h).symm
  | succ steps ih =>
    cases node with
    | handle target =>
      simp only [followIn, Option.bind_eq_some_iff] at h
      obtain ⟨next, hn, hf⟩ := h
      rcases ih hf with rfl | hname
      · exact .inr ⟨target, hn⟩
      · exact .inr hname
    | _ => exact .inl (Option.some.inj h).symm

/-- Only a handle leads to another shape, by what its target is defined as. -/
theorem eq_or_of_followIn {find : String → Option Shape} {steps : Nat}
    (h : followIn find steps node = some found) :
    node = found ∨ ∃ target next steps', node = .handle target ∧ steps = steps' + 1 ∧
      find target = some next ∧ followIn find steps' next = some found := by
  cases node with
  | handle target =>
    cases steps with
    | zero => cases h
    | succ steps =>
      obtain ⟨next, hnext, hf⟩ := Option.bind_eq_some_iff.mp h
      exact .inr ⟨target, next, steps, rfl, rfl, hnext, hf⟩
  | _ =>
    rw [followIn_eq_some (by simp)] at h
    exact .inl (Option.some.inj h)

/-! ### Shapes that lead nowhere -/

/-- The name is defined as a handle to the other name. -/
def Leads (definitions : Definitions) (name target : String) : Prop :=
  definitions.find? name = some (.handle target)

/-- Handles that lead nowhere within a number of steps reach a name that is not defined, or else
there are more names on the way than steps. -/
theorem exists_of_followIn_eq_none {steps : Nat}
    (h : followIn definitions.find? steps (.handle name) = none) :
    (∃ last, Relation.ReflTransGen definitions.Leads name last ∧ definitions.find? last = none) ∨
      ∃ others, others.length = steps ∧ List.IsChain definitions.Leads (name :: others) := by
  induction steps generalizing name with
  | zero => exact .inr ⟨[], rfl, .singleton name⟩
  | succ steps ih =>
    cases hf : definitions.find? name with
    | none => exact .inl ⟨name, .refl, hf⟩
    | some next =>
      -- the name leads to the next one, or else the handle would lead somewhere
      rw [followIn, hf, Option.bind_some] at h
      cases next with
      | handle target =>
        rcases ih h with ⟨last, hl, hn⟩ | ⟨others, hl, hc⟩
        · exact .inl ⟨last, .head hf hl, hn⟩
        · exact .inr ⟨target :: others, by rw [List.length_cons, hl], .cons_cons hf hc⟩
      | _ => rw [followIn_eq_some (by simp)] at h; cases h

/-- Names of which each leads to the next are defined, the last one aside. -/
theorem dropLast_subset_keys {others : List String}
    (h : List.IsChain definitions.Leads (name :: others)) :
    (name :: others).dropLast ⊆ definitions.map Prod.fst := by
  induction others generalizing name with
  | nil => exact List.nil_subset _
  | cons target rest ih =>
    obtain ⟨head, tail⟩ := List.isChain_cons_cons.mp h
    exact List.cons_subset.mpr ⟨mem_keys_of_find? head, ih tail⟩

/-- Names of which each leads to the next are all on the way from the first. -/
theorem leads_of_isChain {others : List String}
    (h : List.IsChain definitions.Leads (name :: others)) :
    (name :: others).Pairwise (Relation.TransGen definitions.Leads) :=
  List.isChain_iff_pairwise.mp (h.imp fun _ _ => .single)

/-- A shape that leads nowhere is a handle, and the handles from it reach a name that is not defined
or go in a circle. -/
theorem dereference_eq_none (h : definitions.dereference node = none) :
    ∃ name last, node = .handle name ∧ Relation.ReflTransGen definitions.Leads name last ∧
      (definitions.find? last = none ∨ Relation.TransGen definitions.Leads last last) := by
  cases node with
  | handle name =>
    rcases exists_of_followIn_eq_none h with ⟨last, hl, hn⟩ | ⟨others, hl, hc⟩
    · exact ⟨name, last, rfl, hl, .inl hn⟩
    · -- without a circle the names on the way, the last one aside, are different definitions
      by_contra hno
      have hne : (name :: others).Nodup := by
        refine (leads_of_isChain hc).imp_of_mem fun {a b} ha _ hab e => hno ?_
        subst e
        rcases List.mem_cons.mp ha with rfl | ha
        · exact ⟨a, a, rfl, .refl, .inr hab⟩
        · have := (List.pairwise_cons.mp (leads_of_isChain hc)).1 a ha
          exact ⟨name, a, rfl, this.to_reflTransGen, .inr hab⟩
      have hlen := ((hne.sublist (List.dropLast_sublist _)).subperm
        (dropLast_subset_keys hc)).length_le
      simp only [List.length_dropLast, List.length_cons, List.length_map, hl] at hlen
      omega
  | _ => rw [dereference, followIn_eq_some (by simp)] at h; cases h

theorem Leads.mono (h : definitions <+: definitions') (hl : definitions.Leads name target) :
    definitions'.Leads name target := find?_mono h hl

theorem Leads.reflTransGen_mono (h : definitions <+: definitions')
    (hl : Relation.ReflTransGen definitions.Leads name target) :
    Relation.ReflTransGen definitions'.Leads name target :=
  Relation.ReflTransGen.mono (fun _ _ => Leads.mono h) name target hl

theorem Leads.transGen_mono (h : definitions <+: definitions')
    (hl : Relation.TransGen definitions.Leads name target) :
    Relation.TransGen definitions'.Leads name target :=
  Relation.TransGen.mono (fun _ _ => Leads.mono h) name target hl

/-- A handle leads where its definition does. -/
theorem exists_find?_of_dereference (h : definitions.dereference (.handle name) = some found) :
    ∃ next, definitions.find? name = some next ∧ definitions.dereference next = some found := by
  rw [dereference, followIn, Option.bind_eq_some_iff] at h
  obtain ⟨next, hn, hf⟩ := h
  exact ⟨next, hn, followIn_mono (fun _ _ h => h) (Nat.le_succ _) hf⟩

theorem dereference_of_reflTransGen {last : String}
    (hl : Relation.ReflTransGen definitions.Leads name last)
    (hf : definitions.dereference (.handle name) = some found) :
    definitions.dereference (.handle last) = some found := by
  induction hl with
  | refl => exact hf
  | tail _ hl ih =>
    obtain ⟨next, hn, hf⟩ := exists_find?_of_dereference ih
    cases hl.symm.trans hn
    exact hf

/-- A handle that leads into a circle leads nowhere. -/
theorem dereference_eq_none_of_circle {last : String}
    (hl : Relation.ReflTransGen definitions.Leads name last)
    (hc : Relation.TransGen definitions.Leads last last) :
    definitions.dereference (.handle name) = none := by
  have hnone : ∀ steps last, Relation.TransGen definitions.Leads last last →
      followIn definitions.find? steps (.handle last) = none := by
    intro steps
    induction steps with
    | zero => exact fun _ _ => rfl
    | succ steps ih =>
      -- the next handle is in the same circle
      intro last hc
      obtain ⟨next, hn, hback⟩ := Relation.TransGen.head'_iff.mp hc
      rw [followIn, show definitions.find? last = some (.handle next) from hn, Option.bind_some]
      exact ih next (Relation.TransGen.tail' hback hn)
  by_contra hsome
  obtain ⟨found, hfound⟩ := Option.ne_none_iff_exists'.mp hsome
  have hlast := dereference_of_reflTransGen hl hfound
  rw [dereference, hnone _ last hc] at hlast
  cases hlast

end Definitions

end RouteStubs
