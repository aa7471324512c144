import RouteStubs.Proofs.Ends
import RouteStubs.Proofs.Faults
import RouteStubs.Proofs.Part

/-!
# What the resolver remembers

The resolver remembers the targets of the references that it was asked for. It is asked for references,
values are followed, and references come on the chain and leave it. Whatever has been asked, and whether
it was found or not, what the resolver remembers is what it would find again. So it answers like a
resolver that is asked for the first time.

## Main definitions

* `Resolver.Recalls`: what the resolver remembers is right.
* `Resolver.Reached document r`: the resolvers that come of such steps.
* `Resolver.answer document ref`: the answer of a resolver that is asked for the first time.

## Main statements

* `Resolver.lookup_ends`, `Resolver.resolveNode_ends`: it stays so.
* `Resolver.lookup_keeps`: what stays even if a reference is not found.
* `Resolver.Reached.recalls`: what resolvers remember that have been asked is right.
* `Resolver.lookup_answers`: they answer as if they had not been asked before.
* `Resolver.target_error`: why a reference leads nowhere.
-/

namespace RouteStubs

namespace Resolver

variable {document : Value} {r : Resolver}

/-- The resolver is one for the document, and each target that it remembers is that of its
reference. -/
structure Recalls (document : Value) (r : Resolver) : Prop where
  document_eq : r.document = document
  found : ∀ ref v, r.found.lookup ref = some v → target document ref = .ok v

theorem lookup_ends (hr : r.Recalls document) (ref : Value) :
    (lookup ref).Ends r
      (fun v r' => (∃ s, ref = .text s ∧ target document s = .ok v) ∧ r'.Recalls document ∧
        r'.chain = r.chain)
      fun fault _ => fault.isSelfReferring = false := by
  unfold lookup
  split
  · next s =>
    simp only [Step.ends_bind, Step.ends_get]
    split
    · next v hv => exact ⟨⟨s, rfl, hr.found s v hv⟩, hr, rfl⟩
    · simp only [Step.ends_bind, Step.ends_ofExcept, Step.ends_modify, Step.ends_pure,
        hr.document_eq]
      refine ⟨fun v hv => ⟨⟨s, rfl, hv⟩, ⟨rfl, fun ref w hw => ?_⟩, trivial⟩, plain_target _ _⟩
      rw [List.lookup_cons] at hw
      split at hw
      · next heq => cases hw; rwa [eq_of_beq heq]
      · exact hr.found ref w hw
  · exact rfl
  · exact rfl

/-- Whether a reference is found or not, the document and the chain stay. -/
theorem lookup_keeps (r : Resolver) (ref : Value) :
    (lookup ref).Ends r
      (fun _ r' => (∃ s, ref = .text s) ∧ r'.document = r.document ∧ r'.chain = r.chain)
      fun _ r' => r'.document = r.document ∧ r'.chain = r.chain := by
  unfold lookup
  split
  · simp only [Step.ends_bind, Step.ends_get]
    split
    · exact ⟨⟨_, rfl⟩, rfl, rfl⟩
    · simp only [Step.ends_bind, Step.ends_ofExcept, Step.ends_modify, Step.ends_pure]
      exact ⟨fun _ _ => ⟨⟨_, rfl⟩, trivial, trivial⟩, fun _ _ => ⟨trivial, trivial⟩⟩
  · exact ⟨rfl, rfl⟩
  · exact ⟨rfl, rfl⟩

theorem follow_ends (seen : List String) (steps : Nat) (hr : r.Recalls document) (node : Value) :
    (follow seen steps node).Ends r
      (fun found r' => r'.Recalls document ∧ r'.chain = r.chain ∧
        (found = node ∨ Value.Part found document))
      fun _ _ => True := by
  induction steps generalizing seen r node with
  | zero => trivial
  | succ steps ih =>
    have hnext : ∀ seen ref, (lookup ref >>= fun next => follow seen steps next).Ends r
        (fun found r' => r'.Recalls document ∧ r'.chain = r.chain ∧
          (found = node ∨ Value.Part found document))
        fun _ _ => True := by
      intro seen ref
      rw [Step.ends_bind]
      apply (lookup_ends hr ref).forget
      rintro v r' ⟨⟨s, -, htarget⟩, hr', hc⟩
      apply (ih seen hr' v).imp_ok
      rintro found r'' ⟨hr'', hc', hfound⟩
      refine ⟨hr'', hc'.trans hc, .inr ?_⟩
      rcases hfound with rfl | hpart
      · exact (part_of_target htarget).1
      · exact hpart
    unfold follow
    split
    · exact ⟨hr, rfl, .inl rfl⟩
    · split
      · split
        · trivial
        · exact hnext _ _
      · exact hnext _ _

/-- What a value stands for is the value itself or a part of the document. -/
theorem resolveNode_ends (hr : r.Recalls document) (node : Value) :
    (resolveNode node).Ends r
      (fun found r' => r'.Recalls document ∧ r'.chain = r.chain ∧
        (found = node ∨ Value.Part found document))
      fun _ _ => True := by
  simp only [resolveNode, Step.ends_bind, Step.ends_get]
  exact follow_ends [] _ hr node

end Resolver

/-! ### Resolvers that have been asked -/

/-- Whether references lead back to one of themselves. -/
def BreakReason.isLoop : BreakReason → Bool
  | .loop _ => true
  | _ => false

namespace Resolver

variable {document : Value} {r : Resolver}

/-- The answer of a resolver that is asked for the first time. -/
def answer (document ref : Value) : Except Fault Value :=
  ((lookup ref).runFrom (ofDocument document)).1

theorem answer_text (document : Value) (ref : String) :
    answer document (.text ref) = target document ref := by
  have hrun : (lookup (.text ref)).runFrom (ofDocument document) =
      (Step.ofExcept (target document ref) >>= fun v =>
        modify (fun r => { r with found := (ref, v) :: r.found }) >>= fun _ => pure v).runFrom
        (ofDocument document) := rfl
  rw [answer, hrun, Step.runFrom_bind, Step.runFrom_ofExcept]
  cases target document ref <;> rfl

/-- A reference that is no text is refused at once. -/
theorem answer_ne_ok {ref v : Value} (href : ∀ s, ref ≠ .text s) : answer document ref ≠ .ok v := by
  rintro h
  cases ref with
  | scalar s =>
    cases s with
    | text s => exact href s rfl
    | _ => cases h
  | _ => cases h

/-- What the resolver was asked before makes no difference to its answer. A failure leaves it as it
is. -/
theorem lookup_answers (hr : r.Recalls document) (ref : Value) :
    (lookup ref).Ends r
      (fun v r' => answer document ref = .ok v ∧ r'.Recalls document ∧ r'.chain = r.chain)
      fun fault r' => answer document ref = .error fault ∧ r' = r := by
  cases ref with
  | scalar scalar =>
    cases scalar with
    | text s =>
      rw [answer_text]
      -- a failure in a resolver for the document is one of `target`, and nothing is remembered
      have herror : (lookup (.text s)).Ends r (fun _ _ => True)
          fun fault r' => target document s = .error fault ∧ r' = r := by
        simp only [lookup, Step.ends_bind, Step.ends_get]
        split
        · trivial
        · simp only [Step.ends_bind, Step.ends_ofExcept, Step.ends_modify, Step.ends_pure,
            hr.document_eq]
          exact ⟨fun _ _ => trivial, fun _ hf => ⟨hf, trivial⟩⟩
      refine ((lookup_ends hr (.text s)).and herror).imp ?_ fun _ _ h => h.2
      rintro v r' ⟨⟨⟨_, ⟨⟩, htarget⟩, hr', hc⟩, -⟩
      exact ⟨htarget, hr', hc⟩
    | _ => exact ⟨rfl, rfl⟩
  | _ => exact ⟨rfl, rfl⟩

/-- What a reference is resolved to is the answer of the resolver. -/
theorem resolve_ends (hr : r.Recalls document) (ref : Value) :
    (resolve ref).Ends r
      (fun resolved r' => answer document ref = .ok resolved.node ∧ r'.Recalls document ∧
        r'.chain = r.chain ∧ resolved.cyclic = r.chain.any (·.same ref))
      fun fault r' => answer document ref = .error fault ∧ r' = r := by
  simp only [resolve, Step.ends_bind, Step.ends_get, Step.ends_pure]
  refine (lookup_answers hr ref).imp_ok ?_
  rintro v r' ⟨hv, hr', hc⟩
  exact ⟨hv, hr', hc, by rw [hc]⟩

/-! ### What resolvers come to -/

/-- What the resolvers of a document come to, whatever they are asked for: a reference is resolved or
refused, a value is followed or refused, and references come on the chain and leave it. -/
inductive Reached (document : Value) : Resolver → Prop
  | start : Reached document (ofDocument document)
  | resolved {r : Resolver} (h : Reached document r) (ref : Value) :
      Reached document ((resolve ref).runFrom r).2
  | followed {r : Resolver} (h : Reached document r) (node : Value) :
      Reached document ((resolveNode node).runFrom r).2
  | entered {r : Resolver} (h : Reached document r) (ref : Value) : Reached document (enter ref r)
  | left {r : Resolver} (h : Reached document r) : Reached document (leave r)

theorem lookup_recalls (hr : r.Recalls document) (ref : Value) :
    (lookup ref).Ends r (fun _ r' => r'.Recalls document) fun _ r' => r'.Recalls document :=
  (lookup_answers hr ref).imp (fun _ _ h => h.2.1) fun _ _ h => h.2 ▸ hr

theorem follow_recalls (seen : List String) (steps : Nat) (hr : r.Recalls document) (node : Value) :
    (follow seen steps node).Ends r (fun _ r' => r'.Recalls document)
      fun _ r' => r'.Recalls document := by
  induction steps generalizing seen r node with
  | zero => exact hr
  | succ steps ih =>
    have hnext : ∀ seen ref, (lookup ref >>= fun next => follow seen steps next).Ends r
        (fun _ r' => r'.Recalls document) fun _ r' => r'.Recalls document := by
      intro seen ref
      rw [Step.ends_bind]
      exact (lookup_recalls hr ref).imp_ok fun next r' hr' => ih seen hr' next
    unfold follow
    split
    · exact hr
    · split
      · split
        · exact hr
        · exact hnext _ _
      · exact hnext _ _

/-- What a resolver remembers is right, whatever it has been asked for. -/
theorem Reached.recalls (h : Reached document r) : r.Recalls document := by
  induction h with
  | start => exact ⟨rfl, fun _ _ hv => by cases hv⟩
  | resolved _ ref ih =>
    apply Step.Ends.state
    simp only [resolve, Step.ends_bind, Step.ends_get, Step.ends_pure]
    exact lookup_recalls ih ref
  | @followed r _ node ih =>
    apply Step.Ends.state
    simp only [resolveNode, Step.ends_bind, Step.ends_get]
    exact follow_recalls [] _ ih node
  | entered _ _ ih => exact ⟨ih.document_eq, ih.found⟩
  | left _ ih => exact ⟨ih.document_eq, ih.found⟩

/-! ### Why a reference leads nowhere -/

/-- Why a reference leads nowhere: it is no reference into the document, or it is broken. -/
inductive Refused (ref : String) : Fault → Prop
  | unsupported (h : ref.toList.head? ≠ some '#') : Refused ref (.unsupportedReference ref)
  | broken (h : ref.toList.head? = some '#') (reason : BreakReason) (hr : reason.isLoop = false) :
      Refused ref (.brokenReference ref reason)

theorem head?_of_segments {ref : String} {segments : List String}
    (h : Pointer.segments ref = .ok segments) : ref.toList.head? = some '#' := by
  unfold Pointer.segments at h
  split at h
  · next hl => rw [hl]; rfl
  · next hl => rw [hl]; rfl
  · cases h
  · cases h

theorem refused_of_segments {ref : String} {fault : Fault}
    (h : Pointer.segments ref = .error fault) : Refused ref fault := by
  unfold Pointer.segments at h
  split at h
  · cases h
  · cases h
  · next hl =>
    cases h
    exact .broken (by rw [hl]; rfl) _ rfl
  · next hne =>
    cases h
    refine .unsupported fun hhead => ?_
    obtain ⟨rest, hl⟩ := List.head?_eq_some_iff.mp hhead
    exact hne rest hl

theorem exists_of_walk_error {ref : String} {segments : List String} {v : Value} {fault : Fault}
    (h : walk ref segments v = .error fault) :
    ∃ reason, fault = .brokenReference ref reason ∧ reason.isLoop = false := by
  induction segments generalizing v with
  | nil => cases h
  | cons segment rest ih =>
    rw [walk] at h
    cases hd : descend ref segment v with
    | ok next =>
      rw [hd] at h
      exact ih h
    | error _ =>
      rw [hd] at h
      cases h
      unfold descend at hd
      split at hd
      · split at hd
        · cases hd
        · cases hd
          exact ⟨_, rfl, rfl⟩
      · split at hd
        · cases hd
        · cases hd
          exact ⟨_, rfl, rfl⟩
      · cases hd
        exact ⟨_, rfl, rfl⟩

/-- A reference that leads nowhere is refused under its own name. -/
theorem target_error {ref : String} {fault : Fault} (h : target document ref = .error fault) :
    Refused ref fault := by
  unfold target at h
  cases hs : Pointer.segments ref with
  | error _ =>
    rw [hs] at h
    cases h
    exact refused_of_segments hs
  | ok segments =>
    rw [hs] at h
    have hhead := head?_of_segments hs
    cases hw : walk ref segments document with
    | error _ =>
      simp only [bind, Except.bind, hw] at h
      cases h
      obtain ⟨reason, rfl, hreason⟩ := exists_of_walk_error hw
      exact .broken hhead reason hreason
    | ok v =>
      simp only [bind, Except.bind, hw] at h
      split at h
      · cases h
      · cases h
        exact .broken hhead _ rfl

end Resolver

end RouteStubs
