import RouteStubs.Number.Shortest

/-!
# Fresh names

A name that is taken gets the lowest number from two on that makes it free. Among one more number
than there are taken names, one makes it free, so the search is bounded.

## Main definitions

* `Name.numbered`: a name with a number after it.
* `Name.fresh`: the name itself, or the first numbered one that is free.
-/

namespace RouteStubs.Name

/-- A name with a number after it. -/
def numbered (base : String) (k : Nat) : String :=
  base ++ String.ofList (decimalText k)

/-- The lowest number from `k` on, among `tries` numbers, that makes the name free. -/
def lowestFree (base : String) (taken : List String) : (tries : Nat) → (k : Nat) → Nat
  | 0, k => k
  | tries + 1, k =>
    if taken.contains (numbered base k) then lowestFree base taken tries (k + 1) else k

/-- A name outside `taken`: the name itself if it is free, or else with the lowest number from two
on that makes it free. -/
def fresh (base : String) (taken : List String) : String :=
  if taken.contains base then numbered base (lowestFree base taken (taken.length + 1) 2) else base

end RouteStubs.Name
