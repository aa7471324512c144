import RouteStubs.Step

/-!
# How steps end

What is proved of a step is proved of its run from one state: a value and a state that belong
together, or a fault and the state that is left. `Step.Ends` states both at once, and it goes
through each way of putting steps together, so that the statement about a step is taken apart as
the step is.

## Main definitions

* `Step.Ends step s Q E`: the run of `step` from `s` ends in `Q`, or it fails in `E`.
* `Step.Keeps step I Q`: each run of `step` that does not fail keeps `I`, and its value is in `Q`.

## Main statements

* `Step.ends_bind`, `Step.ends_within`, `Step.ends_between`: the parts of a step.
* `Step.Ends.imp`: weaker ends.
-/

namespace RouteStubs.Step

variable {σ τ α β : Type}

/-- The run of the step from the state gives a value and a state in `Q`, or it fails with a fault and
a state in `E`. -/
def Ends (step : Step σ α) (s : σ) (Q : α → σ → Prop) (E : Fault → σ → Prop) : Prop :=
  match step.runFrom s with
  | (.ok a, s') => Q a s'
  | (.error fault, s') => E fault s'

variable {step : Step σ α} {s s' : σ} {Q Q' : α → σ → Prop} {E E' : Fault → σ → Prop}

theorem Ends.imp (h : step.Ends s Q E) (hQ : ∀ a s', Q a s' → Q' a s')
    (hE : ∀ f s', E f s' → E' f s') : step.Ends s Q' E' := by
  unfold Ends at h ⊢
  split
  · next a s' hr => exact hQ a s' (by simpa [hr] using h)
  · next f s' hr => exact hE f s' (by simpa [hr] using h)

/-- Weaker results, and the same faults. -/
theorem Ends.imp_ok (h : step.Ends s Q E) (hQ : ∀ a s', Q a s' → Q' a s') : step.Ends s Q' E :=
  h.imp hQ fun _ _ hf => hf

/-- Weaker results, whatever the faults. -/
theorem Ends.forget (h : step.Ends s Q E) (hQ : ∀ a s', Q a s' → Q' a s') :
    step.Ends s Q' fun _ _ => True :=
  h.imp hQ fun _ _ _ => trivial

/-- Two statements about one run. -/
theorem Ends.and (h : step.Ends s Q E) (h' : step.Ends s Q' E') :
    step.Ends s (fun a s' => Q a s' ∧ Q' a s') fun f s' => E f s' ∧ E' f s' := by
  unfold Ends at *
  split <;> simp_all

theorem Ends.of_ok {a : α} (h : step.Ends s Q E) (hr : step.runFrom s = (.ok a, s')) : Q a s' := by
  simpa [Ends, hr] using h

theorem Ends.of_error {f : Fault} (h : step.Ends s Q E) (hr : step.runFrom s = (.error f, s')) :
    E f s' := by
  simpa [Ends, hr] using h

/-- What holds at both ends of a run holds of the state after it. -/
theorem Ends.state {P : σ → Prop} (h : step.Ends s (fun _ s' => P s') fun _ s' => P s') :
    P (step.runFrom s).2 := by
  unfold Ends at h
  split at h
  · next hrun => rwa [hrun]
  · next hrun => rwa [hrun]

/-- What always holds holds at the end. -/
theorem ends_of_forall (hQ : ∀ a s', Q a s') (hE : ∀ f s', E f s') : step.Ends s Q E := by
  unfold Ends
  split
  · exact hQ _ _
  · exact hE _ _

/-- A run ends as it does. -/
theorem ends_self (step : Step σ α) (s : σ) :
    step.Ends s (fun a s' => step.runFrom s = (.ok a, s')) fun f s' =>
      step.runFrom s = (.error f, s') := by
  unfold Ends
  split <;> assumption

/-- An outcome that is no failure is a result. -/
theorem exists_ok {outcome : Except Fault α} (h : outcome.isOk = true) : ∃ a, outcome = .ok a := by
  cases outcome with
  | ok a => exact ⟨a, rfl⟩
  | error f => cases h

/-- A run that does not fail has a result. -/
theorem exists_of_isOk (h : (step.runFrom s).1.isOk = true) :
    ∃ a s', step.runFrom s = (.ok a, s') := by
  obtain ⟨a, ha⟩ := exists_ok h
  exact ⟨a, _, Prod.ext ha rfl⟩

/-- A run that cannot fail has a result. -/
theorem Ends.exists_ok (h : step.Ends s Q fun _ _ => False) :
    ∃ a s', step.runFrom s = (.ok a, s') ∧ Q a s' := by
  cases hrun : step.runFrom s with
  | mk outcome s' =>
    cases outcome with
    | ok a => exact ⟨a, s', rfl, h.of_ok hrun⟩
    | error f => exact (h.of_error hrun).elim

/-- Two steps that have a result: so has the first one, and the second one begins where that ends. -/
theorem exists_of_bind_ok {next : α → Step σ β} {b : β}
    (h : (step >>= next).runFrom s = (.ok b, s')) :
    ∃ a q, step.runFrom s = (.ok a, q) ∧ (next a).runFrom q = (.ok b, s') := by
  rw [runFrom_bind] at h
  split at h
  · next a q hfirst => exact ⟨a, q, hfirst, h⟩
  · cases h

/-! ### The parts of a step -/

@[simp] theorem ends_pure (a : α) : (pure a : Step σ α).Ends s Q E ↔ Q a s := Iff.rfl

@[simp] theorem ends_throw (f : Fault) : (throw f : Step σ α).Ends s Q E ↔ E f s := Iff.rfl

@[simp] theorem ends_get {Q : σ → σ → Prop} : (get : Step σ σ).Ends s Q E ↔ Q s s := Iff.rfl

@[simp] theorem ends_modify {Q : Unit → σ → Prop} (f : σ → σ) :
    (modify f : Step σ Unit).Ends s Q E ↔ Q () (f s) := Iff.rfl

@[simp] theorem ends_set {Q : PUnit → σ → Prop} (t : σ) :
    (set t : Step σ PUnit).Ends s Q E ↔ Q ⟨⟩ t := Iff.rfl

@[simp] theorem ends_bind {next : α → Step σ β} {Q : β → σ → Prop} :
    (step >>= next).Ends s Q E ↔ step.Ends s (fun a s' => (next a).Ends s' Q E) E := by
  unfold Ends
  rw [runFrom_bind]
  obtain ⟨outcome, s'⟩ := step.runFrom s
  cases outcome <;> rfl

/-- A step that always fails in the end does so whatever comes before. -/
theorem ends_bind_throw {Q : β → σ → Prop} (fault : Fault) (hE : ∀ f s', E f s') :
    (step >>= fun _ => (throw fault : Step σ β)).Ends s Q E := by
  rw [ends_bind]
  exact ends_of_forall (fun _ s' => hE fault s') hE

@[simp] theorem ends_map {f : α → β} {Q : β → σ → Prop} :
    (f <$> step).Ends s Q E ↔ step.Ends s (fun a s' => Q (f a) s') E := by
  unfold Ends
  rw [runFrom_map]
  obtain ⟨outcome, s'⟩ := step.runFrom s
  cases outcome <;> rfl

theorem ends_ofExcept {outcome : Except Fault α} :
    (ofExcept outcome : Step σ α).Ends s Q E ↔
      (∀ a, outcome = .ok a → Q a s) ∧ ∀ f, outcome = .error f → E f s := by
  unfold Ends
  rw [runFrom_ofExcept]
  cases outcome <;> simp

@[simp] theorem ends_within {part : σ → τ} {replace : τ → σ → σ} {inner : Step τ α} :
    (within part replace inner).Ends s Q E ↔
      inner.Ends (part s) (fun a t => Q a (replace t s)) fun f t => E f (replace t s) := by
  unfold Ends
  rw [runFrom_within]
  obtain ⟨outcome, t⟩ := inner.runFrom (part s)
  cases outcome <;> rfl

@[simp] theorem ends_between {opening closing : σ → σ} :
    (between opening closing step).Ends s Q E ↔
      step.Ends (opening s) (fun a s' => Q a (closing s')) fun f s' => E f (closing s') := by
  unfold Ends
  rw [runFrom_between]
  obtain ⟨outcome, s'⟩ := step.runFrom (opening s)
  cases outcome <;> rfl

/-! ### What runs keep -/

/-- From each state of this kind each run that does not fail ends in such a state, with such a value. -/
def Keeps (step : Step σ α) (I : σ → Prop) (Q : α → Prop) : Prop :=
  ∀ s, I s → step.Ends s (fun a s' => I s' ∧ Q a) fun _ _ => True

section Keeps

variable {I : σ → Prop} {P : α → Prop} {R : β → Prop} {next : α → Step σ β}

theorem keeps_pure {a : α} (h : P a) : (pure a : Step σ α).Keeps I P := fun _ hs => ⟨hs, h⟩

theorem keeps_ofExcept (outcome : Except Fault α) :
    (ofExcept outcome : Step σ α).Keeps I fun a => outcome = .ok a := fun _ hs =>
  ends_ofExcept.mpr ⟨fun _ ha => ⟨hs, ha⟩, fun _ _ => trivial⟩

theorem keeps_get : (get : Step σ σ).Keeps I I := fun _ hs => ⟨hs, hs⟩

theorem Keeps.bind (h : step.Keeps I P) (hn : ∀ a, P a → (next a).Keeps I R) :
    (step >>= next).Keeps I R := by
  intro s hs
  rw [ends_bind]
  apply (h s hs).imp_ok
  rintro a s' ⟨hs', ha⟩
  exact hn a ha s' hs'

theorem Keeps.map {f : α → β} (h : step.Keeps I P) (hf : ∀ a, P a → R (f a)) :
    (f <$> step).Keeps I R := by
  intro s hs
  rw [ends_map]
  apply (h s hs).imp_ok
  rintro a s' ⟨hs', ha⟩
  exact ⟨hs', hf a ha⟩

theorem Keeps.imp {P' : α → Prop} (h : step.Keeps I P) (hp : ∀ a, P a → P' a) : step.Keeps I P' := by
  intro s hs
  apply (h s hs).imp_ok
  rintro a s' ⟨hs', ha⟩
  exact ⟨hs', hp a ha⟩

end Keeps

end RouteStubs.Step
