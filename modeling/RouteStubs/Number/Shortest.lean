import RouteStubs.Number.Binary64

/-!
# Shortest decimals

The decimal with the fewest digits that rounds back to a given binary number, the nearest of those
when there are several. A grid of `n` digits holds such a decimal just when one of the two
neighbours of the number on that grid is one, so the first grid with a hit decides.

## Main definitions

* `Binary64.Gap`: the decimals that round to a number, as an interval of quotients.
* `Binary64.shortest`: the digits and the power of ten of the leading digit.
* `decimalText`: the digits of a natural number.
-/

namespace RouteStubs

/-- The digits of a natural number. -/
def decimalText (n : Nat) : List Char := Nat.toDigits 10 n

namespace Binary64

/-- The interval of the reals that round to a positive number, over one denominator. -/
structure Gap where
  /-- The lower end. -/
  low : Nat
  /-- The number itself. -/
  mid : Nat
  /-- The upper end. -/
  high : Nat
  /-- The denominator of all three. -/
  den : Nat
  /-- Whether the ends belong to the interval. -/
  closed : Bool

/-- The interval of the reals that round to `m * 2 ^ e`. Below a power of two the spacing halves. -/
def gap (m : Nat) (e : Int) : Gap :=
  let below := if m = twoTo 52 ∧ -1074 < e then 1 else 2
  let (up, den) := ratio 1 (e - 2)
  ⟨(4 * m - below) * up, 4 * m * up, (4 * m + 2) * up, den, m % 2 == 0⟩

/-- Whether the quotient `num / den` lies in the interval. -/
def Gap.holds (g : Gap) (num den : Nat) : Bool :=
  if g.closed then g.low * den ≤ num * g.den && num * g.den ≤ g.high * den
  else g.low * den < num * g.den && num * g.den < g.high * den

/-- A decimal `digits * 10 ^ power` as a quotient. -/
def decimalRatio (digits : Nat) (power : Int) : Nat × Nat :=
  if 0 ≤ power then (digits * tenTo power.toNat, 1) else (digits, tenTo (-power).toNat)

/-- The power of ten of the leading digit of `num / den`, looked for upwards from `k`. -/
def leadingPower (num den : Nat) : (steps : Nat) → Int → Int
  | 0, k => k
  | steps + 1, k =>
    let (n, d) := decimalRatio 1 (k + 1)
    if n * den ≤ num * d then leadingPower num den steps (k + 1) else k

/-- The decimal of the interval on the grid `10 ^ power` that is nearest to the number, if one of
its two neighbours there lies in the interval. A tie goes to the even digit. -/
def Gap.onGrid (g : Gap) (power : Int) : Option Nat :=
  let (un, ud) := decimalRatio 1 power
  let num := g.mid * ud
  let den := g.den * un
  let d := num / den
  let rest := num % den
  let holds (k : Nat) : Bool := let (n, dd) := decimalRatio k power; g.holds n dd
  match holds d, holds (d + 1) with
  | false, false => none
  | true, false => some d
  | false, true => some (d + 1)
  | true, true =>
    some (if 2 * rest < den then d else if den < 2 * rest then d + 1
      else if d % 2 = 0 then d else d + 1)

/-- The first grid, from `n` digits on, that holds a decimal of the interval. -/
def Gap.search (g : Gap) (k : Int) : (grids : Nat) → (n : Nat) → Nat × Int
  | 0, n => (g.mid, k - n)
  | grids + 1, n =>
    match g.onGrid (k - n) with
    | some d => if d = tenTo (n + 1) then (1, k + 1) else (d, k)
    | none => g.search k grids (n + 1)

/-- The digits of the shortest decimal that rounds to `m * 2 ^ e`, and the power of ten of the
first of them. -/
def shortest (m : Nat) (e : Int) : Nat × Int :=
  let g := gap m e
  let guess := ((g.mid.log2 : Int) - g.den.log2 - 1) * 30103 / 100000 - 1
  g.search (leadingPower g.mid g.den 4 guess) 18 0

end Binary64

end RouteStubs
