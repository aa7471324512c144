/-!
# Binary floating-point numbers

The numbers that 64 bits hold: a sign, a mantissa below `2 ^ 53` and a power of two, with the two
infinities and one undefined value. They are kept as integers, so that every rule about them is
integer arithmetic.

## Main definitions

* `Binary64`: the numbers, with `Binary64.Canonical` for the form that rounding yields.
* `Binary64.ofRatio`: the nearest number to a quotient, a half going to the even mantissa.
* `Binary64.ofDecimal`: the nearest number to a decimal.
* `Binary64.equalsInt`: equality with an integer.
-/

namespace RouteStubs

/-- A binary floating-point number. -/
inductive Binary64 where
  /-- The number `± mantissa * 2 ^ exponent`. -/
  | finite (negative : Bool) (mantissa : Nat) (exponent : Int)
  /-- An infinity. -/
  | infinite (negative : Bool)
  /-- The result of an operation that has none. -/
  | undefined
  deriving DecidableEq, Repr, Inhabited

/-- The power `2 ^ n`. -/
def twoTo (n : Nat) : Nat := Nat.pow 2 n

/-- The power `10 ^ n`. -/
def tenTo (n : Nat) : Nat := Nat.pow 10 n

namespace Binary64

/-- The form of a rounded number: the mantissa fills its 53 bits unless the exponent is least. -/
def Canonical : Binary64 → Prop
  | .finite _ m e => m < twoTo 53 ∧ -1074 ≤ e ∧ e ≤ 971 ∧ (twoTo 52 ≤ m ∨ e = -1074)
  | _ => True

/-- The quotient of two natural numbers, rounded to nearest, a half going to the even side. -/
def roundDiv (num den : Nat) : Nat :=
  let q := num / den
  let r := num % den
  if 2 * r < den then q
  else if 2 * r > den then q + 1
  else if q % 2 = 0 then q else q + 1

/-- A quotient with a power of two moved into it: `num / den * 2 ^ (-e)` as a quotient. -/
def scaled (num den : Nat) (e : Int) : Nat × Nat :=
  if 0 ≤ e then (num, den * twoTo e.toNat) else (num * twoTo (-e).toNat, den)

/-- The exponent for which the mantissa of `num / den` fills 53 bits, or the least one. -/
def fittingExponent (num den : Nat) : Int :=
  let low := (num.log2 : Int) - den.log2 - 53
  let (n, d) := scaled num den low
  max (-1074) (if d * twoTo 53 ≤ n then low + 1 else low)

/-- The nearest number to `num / den`, for a positive denominator. -/
def ofRatio (negative : Bool) (num den : Nat) : Binary64 :=
  if num = 0 then .finite negative 0 (-1074)
  else
    let e := fittingExponent num den
    let (n, d) := scaled num den e
    let m := roundDiv n d
    let (m, e) := if m = twoTo 53 then (twoTo 52, e + 1) else (m, e)
    if 971 < e then .infinite negative else .finite negative m e

/-- The nearest number to `± digits * 10 ^ power`. Powers far outside the range are answered
without computing them. -/
def ofDecimal (negative : Bool) (digits : Nat) (power : Int) : Binary64 :=
  if digits = 0 then ofRatio negative 0 1
  else if 400 < power then .infinite negative
  else if power + ((Nat.toDigits 10 digits).length : Int) < -400 then ofRatio negative 0 1
  else if 0 ≤ power then ofRatio negative (digits * tenTo power.toNat) 1
  else ofRatio negative digits (tenTo (-power).toNat)

/-- The number that is an integer's nearest. -/
def ofInt (n : Int) : Binary64 := ofRatio (n < 0) n.natAbs 1

/-- Neither zero is true, and everything else is. -/
def isZero : Binary64 → Bool
  | .finite _ m _ => m == 0
  | _ => false

/-- The magnitude of a finite number as a quotient. -/
def ratio (mantissa : Nat) (exponent : Int) : Nat × Nat :=
  if 0 ≤ exponent then (mantissa * twoTo exponent.toNat, 1) else (mantissa, twoTo (-exponent).toNat)

/-- Equality with an integer, exactly. -/
def equalsInt (x : Binary64) (n : Int) : Bool :=
  match x with
  | .finite negative m e =>
    let (num, den) := ratio m e
    num == n.natAbs * den && (m == 0 || negative == decide (n < 0))
  | _ => false

/-- Equality of numbers: the two zeros are equal, and the undefined value is itself. -/
def same (x y : Binary64) : Bool :=
  x == y || (x.isZero && y.isZero)

/-- The integer a number is, if it is one. -/
def toInt? : Binary64 → Option Int
  | .finite negative m e =>
    let (num, den) := ratio m e
    if num % den = 0 then
      some (if negative then -((num / den : Nat) : Int) else ((num / den : Nat) : Int))
    else none
  | _ => none

/-- A number greater than zero. -/
def isPositive : Binary64 → Bool
  | .finite negative m _ => !negative && m != 0
  | .infinite negative => !negative
  | .undefined => false

/-- A number that is zero or greater. -/
def isNonnegative (x : Binary64) : Bool := x.isPositive || x.isZero

/-- A number that is at most the given one. -/
def atMost (x : Binary64) (bound : Nat) : Bool :=
  match x with
  | .finite negative m e =>
    let (num, den) := ratio m e
    m == 0 || negative || num ≤ bound * den
  | .infinite negative => negative
  | .undefined => false

end Binary64

end RouteStubs
