import RouteStubs.Proofs.Ends

/-!
# Two steps alongside each other

Two steps match when, from states that belong together, they come to results that belong together, or
fail with the same fault; and the states that they reach belong together again, whether they fail or
not. Matching goes through each way of putting steps together, so that two runs are compared part by
part and not as a whole.

## Main definitions

* `Step.Matches R Q E a b`: the steps match, with states in `R` and results in `Q`; the faults that
  they can have are in `E`.

## Main statements

* `Step.Matches.bind`, `Step.matches_within`, `Step.matches_between`: the parts of steps.
* `Step.Matches.run`: what matching says of two runs.
-/

namespace RouteStubs.Step

variable {σ σ' τ τ' α β α' β' : Type}

/-- From states that belong together the two steps come to results that belong together, or fail with
one fault, in states that belong together. -/
def Matches (R : σ → σ' → Prop) (Q : α → α' → Prop) (E : Fault → Prop) (a : Step σ α)
    (b : Step σ' α') : Prop :=
  ∀ s s', R s s' → a.Ends s
    (fun x t => b.Ends s' (fun y t' => Q x y ∧ R t t') fun _ _ => False)
    fun f t => b.Ends s' (fun _ _ => False) fun f' t' => f' = f ∧ E f ∧ R t t'

variable {R : σ → σ' → Prop} {Q : α → α' → Prop} {Q' : β → β' → Prop} {E E' : Fault → Prop}
  {a : Step σ α} {b : Step σ' α'} {s : σ} {s' : σ'}

/-- What matching says of the two runs. -/
theorem Matches.run (h : Matches R Q E a b) (hs : R s s') :
    (∃ x y t t', a.runFrom s = (.ok x, t) ∧ b.runFrom s' = (.ok y, t') ∧ Q x y ∧ R t t') ∨
      ∃ f t t', a.runFrom s = (.error f, t) ∧ b.runFrom s' = (.error f, t') ∧ E f ∧ R t t' := by
  have h := h s s' hs
  unfold Ends at h
  split at h
  · next x t ha =>
    split at h
    · next y t' hb => exact .inl ⟨x, y, t, t', ha, hb, h⟩
    · exact h.elim
  · next f t ha =>
    split at h
    · exact h.elim
    · next f' t' hb =>
      obtain ⟨rfl, he, ht⟩ := h
      exact .inr ⟨f', t, t', ha, hb, he, ht⟩

theorem Matches.imp {Q₁ : α → α' → Prop} (h : Matches R Q E a b) (hQ : ∀ x y, Q x y → Q₁ x y)
    (hE : ∀ f, E f → E' f) : Matches R Q₁ E' a b := by
  intro s s' hs
  refine (h s s' hs).imp (fun x t hb => ?_) fun f t hb => ?_
  · exact hb.imp_ok fun y t' hy => ⟨hQ x y hy.1, hy.2⟩
  · exact hb.imp (fun _ _ => False.elim) fun f' t' hf => ⟨hf.1, hE f hf.2.1, hf.2.2⟩

/-- Other results that belong together. -/
theorem Matches.imp_ok {Q₁ : α → α' → Prop} (h : Matches R Q E a b)
    (hQ : ∀ x y, Q x y → Q₁ x y) : Matches R Q₁ E a b := h.imp hQ fun _ hf => hf

/-! ### The parts of steps -/

theorem matches_pure {x : α} {y : α'} (h : Q x y) : Matches R Q E (pure x) (pure y) :=
  fun _ _ hs => ⟨h, hs⟩

theorem matches_throw {f : Fault} (h : E f) : Matches R Q E (throw f) (throw f) :=
  fun _ _ hs => ⟨rfl, h, hs⟩

/-- Two computations without state that come to the same, or fail with the same fault. -/
theorem matches_ofExcept {outcome : Except Fault α} {outcome' : Except Fault α'} {g : α → α'}
    (h : outcome' = outcome.map g) (hQ : ∀ x, outcome = .ok x → Q x (g x))
    (hE : ∀ f, outcome = .error f → E f) : Matches R Q E (ofExcept outcome) (ofExcept outcome') := by
  subst h
  cases outcome with
  | ok x => exact matches_pure (hQ x rfl)
  | error f => exact matches_throw (hE f rfl)

/-- Two computations without state that are one. -/
theorem matches_ofExcept_same {outcome outcome' : Except Fault α} (h : outcome' = outcome)
    (hE : ∀ f, outcome = .error f → E f) :
    Matches R (fun x y => y = x) E (ofExcept outcome) (ofExcept outcome') :=
  matches_ofExcept (g := id) (by rw [h, Except.map_id, id]) (fun _ _ => rfl) hE

theorem Matches.bind {next : α → Step σ β} {next' : α' → Step σ' β'} (h : Matches R Q E a b)
    (hn : ∀ x y, Q x y → Matches R Q' E (next x) (next' y)) :
    Matches R Q' E (a >>= next) (b >>= next') := by
  intro s s' hs
  simp only [ends_bind]
  refine (h s s' hs).imp (fun x t hb => ?_) fun f t hb => ?_
  · -- what the second step comes to is known before the first one goes on
    unfold Ends at hb
    split at hb
    · next y t' hr =>
      refine (hn x y hb.1 t t' hb.2).imp (fun z u hz => ?_) fun f u hf => ?_
      · rw [Ends, hr]
        exact hz
      · rw [Ends, hr]
        exact hf
    · exact hb.elim
  · exact hb.imp (fun _ _ => False.elim) fun _ _ hf => hf

theorem Matches.map {g : α → β} {g' : α' → β'} (h : Matches R Q E a b)
    (hn : ∀ x y, Q x y → Q' (g x) (g' y)) : Matches R Q' E (g <$> a) (g' <$> b) := by
  intro s s' hs
  simp only [ends_map]
  refine (h s s' hs).imp (fun x t hb => ?_) fun f t hb => hb
  exact hb.imp_ok fun y t' hy => ⟨hn x y hy.1, hy.2⟩

/-- Steps that look at the state first. -/
theorem matches_get {next : σ → Step σ β} {next' : σ' → Step σ' β'}
    (h : ∀ s s', R s s' → Matches R Q' E (next s) (next' s')) :
    Matches R Q' E (get >>= next) (get >>= next') := fun s s' hs => h s s' hs s s' hs

theorem matches_modify {g : σ → σ} {g' : σ' → σ'} {Q : Unit → Unit → Prop} (hq : Q () ())
    (h : ∀ s s', R s s' → R (g s) (g' s')) : Matches R Q E (modify g) (modify g') :=
  fun s s' hs => ⟨hq, h s s' hs⟩

/-- Steps on a part of the state. -/
theorem matches_within {T : τ → τ' → Prop} {part : σ → τ} {replace : τ → σ → σ} {part' : σ' → τ'}
    {replace' : τ' → σ' → σ'} {inner : Step τ α} {inner' : Step τ' α'}
    (h : Matches T Q E inner inner') (hpart : ∀ s s', R s s' → T (part s) (part' s'))
    (hreplace : ∀ s s' t t', R s s' → T t t' → R (replace t s) (replace' t' s')) :
    Matches R Q E (within part replace inner) (within part' replace' inner') := by
  intro s s' hs
  simp only [ends_within]
  refine (h _ _ (hpart s s' hs)).imp (fun x t hb => ?_) fun f t hb => ?_
  · exact hb.imp_ok fun y t' hy => ⟨hy.1, hreplace s s' t t' hs hy.2⟩
  · exact hb.imp (fun _ _ => False.elim) fun f' t' hf => ⟨hf.1, hf.2.1, hreplace s s' t t' hs hf.2.2⟩

/-- Steps between changes of the state, between which other states belong together. -/
theorem matches_between {T : σ → σ' → Prop} {opening closing : σ → σ} {opening' closing' : σ' → σ'}
    (h : Matches T Q E a b) (hopen : ∀ s s', R s s' → T (opening s) (opening' s'))
    (hclose : ∀ t t', T t t' → R (closing t) (closing' t')) :
    Matches R Q E (between opening closing a) (between opening' closing' b) := by
  intro s s' hs
  simp only [ends_between]
  refine (h _ _ (hopen s s' hs)).imp (fun x t hb => ?_) fun f t hb => ?_
  · exact hb.imp_ok fun y t' hy => ⟨hy.1, hclose t t' hy.2⟩
  · exact hb.imp (fun _ _ => False.elim) fun f' t' hf => ⟨hf.1, hf.2.1, hclose t t' hf.2.2⟩

/-- Each step matches itself on equal states. -/
theorem matches_self {step : Step σ α} (h : ∀ s f, (step.runFrom s).1 = .error f → E f) :
    Matches (fun s s' => s' = s) (fun x y => y = x) E step step := by
  rintro _ s rfl
  have h := h s
  unfold Ends
  split
  · exact ⟨rfl, rfl⟩
  · next f t hr =>
    rw [hr] at h
    exact ⟨rfl, h f rfl, rfl⟩

end RouteStubs.Step
