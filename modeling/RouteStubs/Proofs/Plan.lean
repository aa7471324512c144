import RouteStubs.Plan

/-!
# Where plans come from

A plan is made of what the collection gives and of the groups of its operations.

## Main statements

* `Plan.collect_of_ofDocument`: the run of the collection that a plan comes from.
* `Plan.ofOperations_of_ofDocument`: the groups of a plan.
-/

namespace RouteStubs.Plan

variable {document : Value} {plan : Plan}

/-- A test of the plan of a document is one of some plan. -/
theorem exists_of_any {test : Plan → Bool} (h : (ofDocument document).toOption.any test = true) :
    ∃ plan, ofDocument document = .ok plan ∧ test plan = true := by
  cases hplan : ofDocument document with
  | error fault => rw [hplan] at h; cases h
  | ok plan =>
    rw [hplan] at h
    exact ⟨plan, rfl, h⟩

/-- A plan comes from a run of the collection and from the groups of what it gives. -/
theorem collect_and_group (h : ofDocument document = .ok plan) :
    (∃ d, collect.runFrom (Draft.start document TypesModule.reservedNames) =
      (.ok (plan.operations, plan.table), d)) ∧
    RouteGroup.ofOperations plan.operations = .ok plan.groups := by
  unfold ofDocument at h
  cases hv : Document.validate document with
  | error fault => rw [hv] at h; cases h
  | ok _ =>
    rw [hv] at h
    cases hc : collect.runFrom (Draft.start document TypesModule.reservedNames) with
    | mk outcome d =>
      cases outcome with
      | error fault => rw [hc] at h; cases h
      | ok result =>
        obtain ⟨operations, table⟩ := result
        rw [hc] at h
        cases hg : RouteGroup.ofOperations operations with
        | error fault => simp only [bind, Except.bind, hg] at h; cases h
        | ok groups =>
          simp only [bind, Except.bind, hg] at h
          cases h
          exact ⟨⟨d, rfl⟩, hg⟩

/-- A plan comes from a run of the collection. -/
theorem collect_of_ofDocument (h : ofDocument document = .ok plan) :
    ∃ d, collect.runFrom (Draft.start document TypesModule.reservedNames) =
      (.ok (plan.operations, plan.table), d) :=
  (collect_and_group h).1

/-- The groups of a plan are those of its operations. -/
theorem ofOperations_of_ofDocument (h : ofDocument document = .ok plan) :
    RouteGroup.ofOperations plan.operations = .ok plan.groups :=
  (collect_and_group h).2

end RouteStubs.Plan
