import RouteStubs.Text.Basic
import RouteStubs.Value.Json

/-!
# Plain scalars of YAML

What a scalar without quotes stands for: null, a truth value, a number or, when it has none of
those forms, its own text.

## Main definitions

* `Yaml.plainInt?`, `Yaml.plainReal?`: the forms of numbers.
* `Yaml.plainScalar`: the value of a plain scalar.
-/

namespace RouteStubs.Yaml

open Text

/-- The words for null. -/
def nullWords : List String := ["~", "null", "Null", "NULL", ""]

/-- The words for true. -/
def trueWords : List String := ["yes", "Yes", "YES", "true", "True", "TRUE", "on", "On", "ON"]

/-- The words for false. -/
def falseWords : List String := ["no", "No", "NO", "false", "False", "FALSE", "off", "Off", "OFF"]

/-- A text without its underscores. -/
def ungrouped (s : List Char) : List Char := s.filter (· != '_')

/-- Takes a sign off a number: whether it is negative, and the rest. -/
def unsigned : List Char → Bool × List Char
  | '-' :: rest => (true, rest)
  | '+' :: rest => (false, rest)
  | rest => (false, rest)

/-- The value of digits in a base. -/
def inBase (base : Nat) (digits : List Char) : Nat :=
  digits.foldl (fun n c => base * n + (Json.hexValue? c).getD 0) 0

/-- A digit below a base, or an underscore. -/
def groupedDigit (base : Nat) (c : Char) : Bool :=
  c == '_' || (match Json.hexValue? c with
    | some v => decide (v < base)
    | none => false)

/-- A part of a number in base sixty: one or two digits, of which the first of two is below six. -/
def isSixtieth : List Char → Bool
  | [a] => isAsciiDigit a
  | [a, b] => '0' ≤ a && a ≤ '5' && isAsciiDigit b
  | _ => false

/-- The value of parts in base sixty. -/
def sixtieths (parts : List (List Char)) : Nat :=
  parts.foldl (fun n part => 60 * n + inBase 10 (ungrouped part)) 0

/-- The magnitude of an integer: binary, octal, hexadecimal, decimal or in base sixty. -/
def magnitude? (s : List Char) : Option Nat :=
  match s with
  | [] => none
  | ['0'] => some 0
  | '0' :: 'b' :: rest =>
    if !rest.isEmpty && rest.all (groupedDigit 2) then some (inBase 2 (ungrouped rest)) else none
  | '0' :: 'x' :: rest =>
    if !rest.isEmpty && rest.all (groupedDigit 16) then some (inBase 16 (ungrouped rest)) else none
  | '0' :: rest => if rest.all (groupedDigit 8) then some (inBase 8 (ungrouped rest)) else none
  | c :: _ =>
    if !isAsciiDigit c then none
    else match pieces ':' s with
      | [] => none
      | [whole] => if whole.all (groupedDigit 10) then some (inBase 10 (ungrouped whole)) else none
      | whole :: parts =>
        if whole.all (groupedDigit 10) && parts.all isSixtieth then
          some (sixtieths (whole :: parts))
        else none

/-- The integer that a plain scalar writes. -/
def plainInt? (s : List Char) : Option Int :=
  let (negative, rest) := unsigned s
  (magnitude? rest).map fun n => if negative then -(n : Int) else n

/-- An exponent of a plain number, whose sign may not be left out; none is the exponent zero. -/
def plainExponent? : List Char → Option Int
  | [] => some 0
  | c :: sign :: digits =>
    if (c == 'e' || c == 'E') && (sign == '-' || sign == '+') && !digits.isEmpty &&
        digits.all isAsciiDigit then
      let n : Int := Json.digitsValue digits
      some (if sign == '-' then -n else n)
    else none
  | _ => none

/-- A decimal with a point, given the parts on its two sides. -/
def pointed? (negative : Bool) (whole after : List Char) : Option Binary64 := do
  let (frac, tail) := after.span (groupedDigit 10)
  let exp ← plainExponent? tail
  let fracDigits := ungrouped frac
  let digits := Json.digitsValue (ungrouped whole ++ fracDigits)
  pure (Binary64.ofDecimal negative digits (exp - fracDigits.length))

/-- The floating-point number that a plain scalar writes. A point has to be there, and a leading
point goes without a sign. -/
def plainReal? (s : List Char) : Option Binary64 :=
  let (negative, rest) := unsigned s
  if rest ∈ [".inf".toList, ".Inf".toList, ".INF".toList] then some (.infinite negative)
  else if s ∈ [".nan".toList, ".NaN".toList, ".NAN".toList] then some .undefined
  else match rest with
    | '.' :: d :: after =>
      if rest.length == s.length && isAsciiDigit d then pointed? false [] (d :: after) else none
    | c :: _ =>
      if !isAsciiDigit c then none
      else
        let (whole, after) := rest.span (fun d => groupedDigit 10 d || d == ':')
        match after with
        | '.' :: frac =>
          match pieces ':' whole with
          | [] => none
          | [digits] => pointed? negative digits frac
          | first :: parts =>
            if first.all (groupedDigit 10) && parts.all isSixtieth &&
                frac.all (groupedDigit 10) then
              let fracDigits := ungrouped frac
              let digits := sixtieths (first :: parts) * tenTo fracDigits.length +
                Json.digitsValue fracDigits
              some (Binary64.ofDecimal negative digits (-(fracDigits.length : Int)))
            else none
        | _ => none
    | [] => none

/-- The value of a plain scalar. -/
def plainScalar (s : String) : Scalar :=
  if s ∈ nullWords then .null
  else if s ∈ trueWords then .bool true
  else if s ∈ falseWords then .bool false
  else match plainInt? s.toList with
    | some n => .int n
    | none =>
      match plainReal? s.toList with
      | some x => .real x
      | none => .text s

end RouteStubs.Yaml
