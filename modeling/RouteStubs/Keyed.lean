/-!
# Values by name

Lists of pairs in which each name occurs once, in the order in which the names were first set.

## Main definitions

* `Keyed.put`: sets the value of a name. A name that is there keeps its place.
-/

namespace RouteStubs.Keyed

variable {α : Type}

/-- Sets the value of a name. A name that is there keeps its place. -/
def put : List (String × α) → String → α → List (String × α)
  | [], name, v => [(name, v)]
  | (n, old) :: rest, name, v =>
    if n == name then (n, v) :: rest else (n, old) :: put rest name v

@[simp] theorem lookup_put_self (pairs : List (String × α)) (name : String) (v : α) :
    (put pairs name v).lookup name = some v := by
  induction pairs with
  | nil => simp [put]
  | cons p rest ih =>
    obtain ⟨n, old⟩ := p
    by_cases h : n = name
    · subst h
      simp [put]
    · have h' : (name == n) = false := by simpa using fun e => h e.symm
      simp [put, h, List.lookup_cons, h', ih]

theorem lookup_put_of_ne {pairs : List (String × α)} {name other : String} (v : α)
    (h : other ≠ name) : (put pairs name v).lookup other = pairs.lookup other := by
  have h' : (other == name) = false := by simpa using h
  induction pairs with
  | nil => simp [put, List.lookup_cons, h']
  | cons p rest ih =>
    obtain ⟨n, old⟩ := p
    by_cases hn : n = name
    · subst hn
      simp [put, List.lookup_cons, h']
    · simp only [put, beq_iff_eq, hn, if_false, List.lookup_cons]
      split <;> simp_all

end RouteStubs.Keyed
