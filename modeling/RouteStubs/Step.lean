import RouteStubs.Fault

/-!
# Steps

A step is a computation on a state that may fail. The state it has reached survives the failure, so
what was found before it is not lost. A step is understood by its run from a state: the equations
below say what each way of putting steps together does to it.

## Main definitions

* `Step`: the steps, with `Step.runFrom`.
* `Step.within`: a step on a part of a larger state.
* `Step.between`: a step between an opening and a closing change of the state.
* `Step.ofExcept`: a computation without state as a step.
-/

namespace RouteStubs

/-- A computation on a state that may fail. The state it has reached survives the failure. -/
abbrev Step (σ : Type) := ExceptT Fault (StateM σ)

namespace Step

variable {σ τ α β : Type}

/-- Runs a step: its outcome and the state it has reached. -/
def runFrom (step : Step σ α) (state : σ) : Except Fault α × σ :=
  (ExceptT.run step).run state

/-- A step on a part of a larger state. -/
def within (part : σ → τ) (replace : τ → σ → σ) (step : Step τ α) : Step σ α :=
  ExceptT.mk fun state =>
    let (outcome, part') := step.runFrom (part state)
    (outcome, replace part' state)

/-- A step between an opening and a closing change of the state. The closing change is made after
a failure too. -/
def between (opening closing : σ → σ) (step : Step σ α) : Step σ α :=
  ExceptT.mk fun state =>
    let (outcome, state') := step.runFrom (opening state)
    (outcome, closing state')

/-- A computation without state as a step. -/
def ofExcept : Except Fault α → Step σ α
  | .ok a => pure a
  | .error fault => throw fault

/-! ### Runs -/

@[simp] theorem runFrom_pure (a : α) (s : σ) : (pure a : Step σ α).runFrom s = (.ok a, s) := rfl

@[simp] theorem runFrom_throw (fault : Fault) (s : σ) :
    (throw fault : Step σ α).runFrom s = (.error fault, s) := rfl

theorem runFrom_bind (step : Step σ α) (next : α → Step σ β) (s : σ) :
    (step >>= next).runFrom s =
      match step.runFrom s with
      | (.ok a, s') => (next a).runFrom s'
      | (.error fault, s') => (.error fault, s') := by
  simp only [runFrom, ExceptT.run_bind, StateT.run_bind]
  cases (ExceptT.run step).run s with
  | mk outcome s' => cases outcome <;> rfl

theorem runFrom_map (f : α → β) (step : Step σ α) (s : σ) :
    (f <$> step).runFrom s = ((step.runFrom s).1.map f, (step.runFrom s).2) := by
  simp only [runFrom, ExceptT.run_map, StateT.run_map]
  rfl

@[simp] theorem runFrom_get (s : σ) : (get : Step σ σ).runFrom s = (.ok s, s) := rfl

@[simp] theorem runFrom_modify (f : σ → σ) (s : σ) :
    (modify f : Step σ Unit).runFrom s = (.ok (), f s) := rfl

@[simp] theorem runFrom_ofExcept (outcome : Except Fault α) (s : σ) :
    (ofExcept outcome : Step σ α).runFrom s = (outcome, s) := by
  cases outcome <;> rfl

@[simp] theorem runFrom_within (part : σ → τ) (replace : τ → σ → σ) (step : Step τ α) (s : σ) :
    (within part replace step).runFrom s =
      ((step.runFrom (part s)).1, replace (step.runFrom (part s)).2 s) := rfl

@[simp] theorem runFrom_between (opening closing : σ → σ) (step : Step σ α) (s : σ) :
    (between opening closing step).runFrom s =
      ((step.runFrom (opening s)).1, closing (step.runFrom (opening s)).2) := rfl

end Step

end RouteStubs
