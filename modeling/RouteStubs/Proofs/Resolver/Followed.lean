import Mathlib.Data.List.Nodup
import Mathlib.Data.List.Perm.Subperm
import Mathlib.Logic.Relation
import RouteStubs.Proofs.Resolver

/-!
# Where references lead in the end

A value with a reference is followed to where the reference leads, and so on. There is at most one
way on from a value, so one of three things happens: the way comes to a value without a reference,
it comes to a reference that leads nowhere, or it comes back to where it has been. The references
after the first one stand in the document, so the last of these shows after as many steps as the
document has references.

## Main definitions

* `Resolver.Hops`, `Resolver.Comes`: the way on from a value, by one reference and by any number.
* `Resolver.Trail`: the references on the way to a value.

## Main statements

* `Resolver.follow_ends_where`: where the way ends.
* `Resolver.resolveNode_exact`: what a value stands for, and why it stands for nothing.
-/

namespace RouteStubs

/-- Whether the fault is that references lead back to one of themselves. -/
def Fault.isLoop : Fault → Bool
  | .brokenReference _ reason => reason.isLoop
  | _ => false

namespace Resolver

open Relation

variable {document start v w x : Value} {r : Resolver} {ref : String} {refs : List String}

/-! ### The way on -/

/-- The value is a mapping with a reference, and the reference leads to the other value. -/
def Hops (document v w : Value) : Prop :=
  ∃ ref, v.member? "$ref" = some ref ∧ answer document ref = .ok w

/-- The way from the value comes to the other one. -/
def Comes (document : Value) : Value → Value → Prop := ReflTransGen (Hops document)

/-- The way from the value comes to a reference that leads nowhere, for this reason. -/
def Breaks (document start : Value) (fault : Fault) : Prop :=
  ∃ v ref, Comes document start v ∧ v.member? "$ref" = some ref ∧ answer document ref = .error fault

/-- There is a way on from each value that the way comes to. -/
def GoesOn (document start : Value) : Prop := ∀ v, Comes document start v → ∃ w, Hops document v w

theorem Hops.unique (h : Hops document v w) (h' : Hops document v x) : w = x := by
  obtain ⟨ref, hm, hw⟩ := h
  obtain ⟨ref', hm', hx⟩ := h'
  obtain rfl : ref = ref' := Option.some.inj (hm.symm.trans hm')
  exact Except.ok.inj (hw.symm.trans hx)

theorem rightUnique_hops (document : Value) : Relator.RightUnique (Hops document) :=
  fun _ _ _ h h' => h.unique h'

/-- Where the way ends, all of it leads. -/
theorem Comes.of_end (hv : Comes document start v) (hend : ∀ w, ¬ Hops document v w)
    (hw : Comes document start w) : Comes document w v := by
  rcases ReflTransGen.total_of_right_unique (rightUnique_hops document) hv hw with h | h
  · -- the way from the end is over at once
    rcases ReflTransGen.cases_head h with rfl | ⟨y, hy, -⟩
    · exact .refl
    · exact absurd hy (hend y)
  · exact h

/-- The way has one end. -/
theorem Comes.unique_end (hv : Comes document start v) (hv' : ∀ y, ¬ Hops document v y)
    (hw : Comes document start w) (hw' : ∀ y, ¬ Hops document w y) : v = w := by
  rcases ReflTransGen.cases_head (hv.of_end hv' hw) with h | ⟨y, hy, -⟩
  · exact h.symm
  · exact absurd hy (hw' y)

theorem not_hops_of_none (h : v.member? "$ref" = none) : ¬ Hops document v w := by
  rintro ⟨ref, hm, -⟩
  rw [h] at hm
  cases hm

theorem not_hops_of_error {ref : Value} {fault : Fault} (hm : v.member? "$ref" = some ref)
    (h : answer document ref = .error fault) : ¬ Hops document v w := by
  rintro ⟨ref', hm', hw⟩
  obtain rfl : ref = ref' := Option.some.inj (hm.symm.trans hm')
  rw [h] at hw
  cases hw

/-- A way that comes back to a value never ends. -/
theorem goesOn_of_circle (hv : Comes document start v) (hw : Hops document v w)
    (hback : Comes document w v) : GoesOn document start := by
  -- what comes after the value comes before it too
  have hbefore : ∀ x, Comes document v x → Comes document x v := by
    intro x hx
    induction hx with
    | refl => exact .refl
    | @tail y z _ hyz ih =>
      rcases ReflTransGen.cases_head ih with rfl | ⟨y', hy', hrest⟩
      · exact hyz.unique hw ▸ hback
      · exact hyz.unique hy' ▸ hrest
  have hon : ∀ x, Comes document x v → ∃ y, Hops document x y := by
    intro x hx
    rcases ReflTransGen.cases_head hx with rfl | ⟨y, hy, -⟩
    · exact ⟨w, hw⟩
    · exact ⟨y, hy⟩
  intro x hx
  rcases ReflTransGen.total_of_right_unique (rightUnique_hops document) hv hx with h | h
  · exact hon x (hbefore x h)
  · exact hon x h

/-! ### The references on the way -/

/-- These references are followed, one after the other, from the start to the value. -/
inductive Trail (document start : Value) : List String → Value → Prop
  | nil : Trail document start [] start
  | snoc {refs : List String} {v w : Value} {ref : String} (h : Trail document start refs v)
      (hm : v.member? "$ref" = some (.text ref)) (hw : answer document (.text ref) = .ok w) :
      Trail document start (refs ++ [ref]) w

theorem Trail.comes (h : Trail document start refs v) : Comes document start v := by
  induction h with
  | nil => exact .refl
  | snoc _ hm hw ih => exact ih.tail ⟨_, hm, hw⟩

/-- A reference of the trail has been met on the way. -/
theorem Trail.exists_of_mem (h : Trail document start refs v) (href : ref ∈ refs) :
    ∃ u w, Comes document start u ∧ u.member? "$ref" = some (.text ref) ∧
      answer document (.text ref) = .ok w ∧ Comes document w v := by
  induction h with
  | nil => cases href
  | @snoc refs v w last h hm hw ih =>
    rcases List.mem_append.mp href with href | href
    · obtain ⟨u, y, hu, hum, hy, hyv⟩ := ih href
      exact ⟨u, y, hu, hum, hy, hyv.tail ⟨_, hm, hw⟩⟩
    · obtain rfl := List.mem_singleton.mp href
      exact ⟨v, w, h.comes, hm, hw, .refl⟩

theorem Trail.eq_or_part (h : Trail document start refs v) : v = start ∨ Value.Part v document := by
  cases h with
  | nil => exact .inl rfl
  | snoc h hm hw =>
    rw [answer_text] at hw
    exact .inr (part_of_target hw).1

/-- All but the first reference stand in the document. -/
theorem Trail.subset (h : Trail document start refs v) (first : String)
    (hfirst : ∀ s, start.member? "$ref" = some (.text s) → s = first) :
    refs ⊆ first :: document.references := by
  induction h with
  | nil => exact List.nil_subset _
  | @snoc refs v w ref h hm hw ih =>
    refine List.append_subset.mpr ⟨ih, List.cons_subset.mpr ⟨?_, List.nil_subset _⟩⟩
    rcases h.eq_or_part with rfl | hpart
    · exact hfirst ref hm ▸ List.mem_cons_self
    · exact List.mem_cons_of_mem _ (hpart.references (Value.mem_references_of_member? hm))

/-- A trail without repetition has at most one reference more than the document. -/
theorem Trail.length_le (h : Trail document start refs v) (hn : refs.Nodup) :
    refs.length ≤ document.references.length + 1 := by
  have hfirst : ∃ first, ∀ s, start.member? "$ref" = some (.text s) → s = first := by
    by_cases htext : ∃ s, start.member? "$ref" = some (.text s)
    · obtain ⟨first, hfirst⟩ := htext
      refine ⟨first, fun s hs => ?_⟩
      rw [hfirst] at hs
      cases hs
      rfl
    · exact ⟨"", fun s hs => absurd ⟨s, hs⟩ htext⟩
  obtain ⟨first, hfirst⟩ := hfirst
  exact (hn.subperm (h.subset first hfirst)).length_le

/-! ### Where the way ends -/

/-- With a trail without repetition and enough steps, the way is followed to its end, to a reference
that leads nowhere, or to one of the trail. -/
theorem follow_ends_where {steps : Nat} {node : Value} {seen : List String}
    (hr : r.Recalls document) (h : Trail document start seen node) (hn : seen.Nodup)
    (hs : document.references.length + 3 ≤ steps + seen.length) :
    (follow seen steps node).Ends r
      (fun v _ => Comes document start v ∧ v.member? "$ref" = none)
      fun fault _ => Breaks document start fault ∨
        fault.isLoop = true ∧ GoesOn document start := by
  induction steps generalizing seen node r with
  | zero =>
    have hle := h.length_le hn
    omega
  | succ steps ih =>
    unfold follow
    cases hm : node.member? "$ref" with
    | none => exact ⟨h.comes, hm⟩
    | some ref =>
      -- a reference that is no text leads nowhere
      have hother : (∀ s, ref ≠ .text s) → ∀ seen : List String,
          (lookup ref >>= fun next => follow seen steps next).Ends r
            (fun v _ => Comes document start v ∧ v.member? "$ref" = none)
            fun fault _ => Breaks document start fault ∨
              fault.isLoop = true ∧ GoesOn document start := by
        intro href seen
        rw [Step.ends_bind]
        apply (lookup_answers hr ref).imp
        · rintro v r' ⟨hv, -⟩
          exact absurd hv (answer_ne_ok href)
        · rintro fault r' ⟨hfault, -⟩
          exact .inl ⟨node, ref, h.comes, hm, hfault⟩
      cases ref with
      | scalar scalar =>
        cases scalar with
        | text ref =>
          simp only
          split
          · next hseen =>
            obtain ⟨u, w, hu, hum, hw, hback⟩ := h.exists_of_mem (List.contains_iff_mem.mp hseen)
            exact .inr ⟨rfl, goesOn_of_circle h.comes ⟨_, hm, hw⟩ hback⟩
          · next hseen =>
            rw [Step.ends_bind]
            apply (lookup_answers hr (.text ref)).imp
            · rintro next r' ⟨hnext, hr', -⟩
              refine ih hr' (h.snoc hm hnext) ?_ ?_
              · rw [← List.concat_eq_append, List.nodup_concat]
                exact ⟨by simpa using hseen, hn⟩
              · rw [List.length_append, List.length_singleton]
                omega
            · rintro fault r' ⟨hfault, -⟩
              exact .inl ⟨node, .text ref, h.comes, hm, hfault⟩
        | _ => exact hother (fun s hs => by cases hs) seen
      | _ => exact hother (fun s hs => by cases hs) seen

/-- More steps make no difference to a way that has been followed to its end. -/
theorem follow_succ {seen : List String} {steps : Nat} {node : Value}
    (h : ((follow seen steps node).runFrom r).1 ≠ .error (.defect .outOfSteps)) :
    (follow seen (steps + 1) node).runFrom r = (follow seen steps node).runFrom r := by
  induction steps generalizing seen node r with
  | zero => exact absurd rfl h
  | succ steps ih =>
    have hnext : ∀ (seen : List String) (ref : Value),
        ((lookup ref >>= fun next => follow seen steps next).runFrom r).1 ≠
          .error (.defect .outOfSteps) →
        (lookup ref >>= fun next => follow seen (steps + 1) next).runFrom r =
          (lookup ref >>= fun next => follow seen steps next).runFrom r := by
      intro seen ref h
      rw [Step.runFrom_bind] at h ⊢
      rw [Step.runFrom_bind]
      split
      · next v r' hrun =>
        rw [hrun] at h
        exact ih h
      · rfl
    rw [follow] at h ⊢
    conv_rhs => rw [follow]
    cases hm : node.member? "$ref" with
    | none => rfl
    | some ref =>
      rw [hm] at h
      cases ref with
      | scalar scalar =>
        cases scalar with
        | text ref =>
          simp only at h ⊢
          split
          · rfl
          · next hseen =>
            rw [if_neg hseen] at h
            exact hnext _ _ h
        | _ => exact hnext _ _ h
      | _ => exact hnext _ _ h

/-- A single reference does not lead back, and the number of steps does not matter to it. -/
theorem answer_error {ref : Value} {fault : Fault} (h : answer document ref = .error fault) :
    fault.isLoop = false ∧ fault ≠ .defect .outOfSteps := by
  cases ref with
  | scalar scalar =>
    cases scalar with
    | text ref =>
      rw [answer_text] at h
      cases target_error h with
      | unsupported _ => exact ⟨rfl, nofun⟩
      | broken _ reason hreason => exact ⟨hreason, nofun⟩
    | _ => cases h; exact ⟨rfl, nofun⟩
  | _ => cases h; exact ⟨rfl, nofun⟩

theorem Breaks.unique_end {fault : Fault} (h : Breaks document start fault)
    (hv : Comes document start v) (hend : ∀ w, ¬ Hops document v w) :
    ∃ ref, v.member? "$ref" = some ref ∧ answer document ref = .error fault := by
  obtain ⟨u, ref, hu, hm, hfault⟩ := h
  obtain rfl := hv.unique_end hend hu fun _ => not_hops_of_error hm hfault
  exact ⟨ref, hm, hfault⟩

theorem Breaks.unique {fault fault' : Fault} (h : Breaks document start fault)
    (h' : Breaks document start fault') : fault = fault' := by
  obtain ⟨v, ref, hv, hm, hfault⟩ := h
  obtain ⟨ref', hm', hfault'⟩ := h'.unique_end hv fun _ => not_hops_of_error hm hfault
  obtain rfl : ref = ref' := Option.some.inj (hm.symm.trans hm')
  exact Except.error.inj (hfault.symm.trans hfault')

theorem GoesOn.not_end (h : GoesOn document start) (hv : Comes document start v) :
    ¬ ∀ w, ¬ Hops document v w := fun hend => (h v hv).elim hend

/-- What the value stands for is the end of the way, and why it stands for nothing is why the way
has no end. -/
structure Settles (document start : Value) (outcome : Except Fault Value) : Prop where
  ok : ∀ v, outcome = .ok v → Comes document start v ∧ v.member? "$ref" = none
  error : ∀ fault, outcome = .error fault →
    Breaks document start fault ∨ fault.isLoop = true ∧ GoesOn document start

theorem resolveNode_run (hr : r.Recalls document) (node : Value) :
    (resolveNode node).runFrom r =
      (follow [] (document.references.length + 3) node).runFrom r := by
  rw [resolveNode, Step.runFrom_bind, Step.runFrom_get, ← hr.document_eq]

theorem resolveNode_settles (hr : r.Recalls document) (node : Value) :
    Settles document node ((resolveNode node).runFrom r).1 := by
  rw [resolveNode_run hr]
  have hends := follow_ends_where hr (Trail.nil : Trail document node [] node) List.nodup_nil
    (Nat.le_add_right (document.references.length + 3) _)
  constructor
  · intro v hv
    exact hends.of_ok (Prod.ext hv rfl)
  · intro fault hfault
    exact hends.of_error (Prod.ext hfault rfl)

section Settles

variable {outcome : Except Fault Value}

theorem Settles.ok_iff (h : Settles document start outcome) (v : Value) :
    outcome = .ok v ↔ Comes document start v ∧ v.member? "$ref" = none := by
  refine ⟨h.ok v, ?_⟩
  rintro ⟨hv, hm⟩
  have hend : ∀ w, ¬ Hops document v w := fun _ => not_hops_of_none hm
  cases houtcome : outcome with
  | ok w =>
    obtain ⟨hw, hm'⟩ := h.ok w houtcome
    rw [hw.unique_end (fun _ => not_hops_of_none hm') hv hend]
  | error fault =>
    exfalso
    rcases h.error fault houtcome with hbreaks | ⟨-, hon⟩
    · obtain ⟨ref, hm', -⟩ := hbreaks.unique_end hv hend
      rw [hm] at hm'
      cases hm'
    · exact hon.not_end hv hend

theorem Settles.loop_iff (h : Settles document start outcome) :
    (∃ fault, outcome = .error fault ∧ fault.isLoop = true) ↔ GoesOn document start := by
  constructor
  · rintro ⟨fault, houtcome, hloop⟩
    rcases h.error fault houtcome with ⟨v, ref, -, -, hfault⟩ | ⟨-, hon⟩
    · rw [(answer_error hfault).1] at hloop
      cases hloop
    · exact hon
  · intro hon
    cases houtcome : outcome with
    | ok v =>
      obtain ⟨hv, hm⟩ := h.ok v houtcome
      exact absurd (fun _ => not_hops_of_none hm) (hon.not_end hv)
    | error fault =>
      rcases h.error fault houtcome with ⟨v, ref, hv, hm, hfault⟩ | ⟨hloop, -⟩
      · exact absurd (fun _ => not_hops_of_error hm hfault) (hon.not_end hv)
      · exact ⟨fault, rfl, hloop⟩

theorem Settles.error_iff (h : Settles document start outcome) (fault : Fault) :
    outcome = .error fault ∧ fault.isLoop = false ↔ Breaks document start fault := by
  constructor
  · rintro ⟨houtcome, hloop⟩
    rcases h.error fault houtcome with hbreaks | ⟨hloop', -⟩
    · exact hbreaks
    · rw [hloop] at hloop'
      cases hloop'
  · intro hbreaks
    obtain ⟨v, ref, hv, hm, hfault⟩ := id hbreaks
    have hend : ∀ w, ¬ Hops document v w := fun _ => not_hops_of_error hm hfault
    cases houtcome : outcome with
    | ok w =>
      obtain ⟨hw, hm'⟩ := h.ok w houtcome
      obtain ⟨ref', hm'', -⟩ := hbreaks.unique_end hw fun _ => not_hops_of_none hm'
      rw [hm'] at hm''
      cases hm''
    | error fault' =>
      rcases h.error fault' houtcome with hbreaks' | ⟨-, hon⟩
      · rw [hbreaks'.unique hbreaks]
        exact ⟨rfl, (answer_error hfault).1⟩
      · exact absurd hend (hon.not_end hv)

theorem Settles.ne_outOfSteps (h : Settles document start outcome) :
    outcome ≠ .error (.defect .outOfSteps) := by
  intro houtcome
  rcases h.error _ houtcome with ⟨v, ref, -, -, hfault⟩ | ⟨hloop, -⟩
  · exact (answer_error hfault).2 rfl
  · cases hloop

end Settles

/-- A value is followed to the one value that the way comes to and that has no reference. It is
refused for the reason for which a reference on the way leads nowhere, or as a loop if the way goes
on without end. The steps are always enough, and more of them make no difference. -/
theorem resolveNode_exact (h : Reached document r) (node : Value) :
    (∀ v, ((resolveNode node).runFrom r).1 = .ok v ↔
      Comes document node v ∧ v.member? "$ref" = none) ∧
    ((∃ fault, ((resolveNode node).runFrom r).1 = .error fault ∧ fault.isLoop = true) ↔
      GoesOn document node) ∧
    (∀ fault, ((resolveNode node).runFrom r).1 = .error fault ∧ fault.isLoop = false ↔
      Breaks document node fault) ∧
    ((resolveNode node).runFrom r).1 ≠ .error (.defect .outOfSteps) ∧
    ∀ steps, document.references.length + 3 ≤ steps →
      (follow [] steps node).runFrom r = (resolveNode node).runFrom r := by
  have hsettles := resolveNode_settles h.recalls node
  refine ⟨hsettles.ok_iff, hsettles.loop_iff, hsettles.error_iff, hsettles.ne_outOfSteps, ?_⟩
  intro steps hsteps
  rw [resolveNode_run h.recalls] at hsettles ⊢
  induction hsteps with
  | refl => rfl
  | step _ ih =>
    rw [follow_succ, ih]
    rw [ih]
    exact hsettles.ne_outOfSteps

/-- Two spellings of references that lead back to each other behind a tail, in a resolver that has
been asked before. -/
theorem resolveNode_exact_tail :
    let loop : Value := .mapping 0 [(.text "a", .mapping 1 [(.text "$ref", .text "#/b")]),
      (.text "b", .mapping 2 [(.text "$ref", .text "#/~0")]),
      (.text "~", .mapping 3 [(.text "$ref", .text "#/b")])]
    ∃ r, Reached loop r ∧ r.found ≠ [] ∧
      GoesOn loop (.mapping 4 [(.text "$ref", .text "#/a")]) := by
  intro loop
  have hr : Reached loop ((resolve (.text "#/~0")).runFrom (ofDocument loop)).2 :=
    .resolved .start _
  refine ⟨_, hr, by decide +kernel, ?_⟩
  refine (resolveNode_exact hr (.mapping 4 [(.text "$ref", .text "#/a")])).2.1.mp ?_
  exact ⟨.brokenReference "#/b" (.loop ["#/a", "#/b", "#/~0", "#/b"]), by rfl, rfl⟩

end Resolver

end RouteStubs
