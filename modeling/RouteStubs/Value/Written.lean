import RouteStubs.Number.Shortest
import RouteStubs.Text.Quoted
import RouteStubs.Value.Basic

/-!
# Values in writing

How a value reads as a literal of the generated code, and how it reads inside a sentence. The two
differ for text only, which a literal quotes.

## Main definitions

* `Binary64.written`: the shortest decimal that reads back, positional from `1e-4` up to `1e16`.
* `Scalar.literal`, `Value.literal`: the literal of a value.
* `Scalar.display`, `Value.display`: a value inside a sentence.
-/

namespace RouteStubs

/-- The digits of an integer, with a minus sign below zero. -/
def intText (n : Int) : List Char :=
  if n < 0 then '-' :: decimalText n.natAbs else decimalText n.natAbs

namespace Binary64

/-- An exponent: a sign and two digits at least. -/
def exponentText (k : Int) : List Char :=
  let digits := decimalText k.natAbs
  (if k < 0 then '-' else '+') :: (if digits.length < 2 then '0' :: digits else digits)

/-- Decimal digits with the leading one at the power `k` of ten. -/
def layout (digits : List Char) (k : Int) : List Char :=
  if k < -4 ∨ 16 ≤ k then
    let tail := digits.drop 1
    digits.take 1 ++ (if tail.isEmpty then [] else '.' :: tail) ++ 'e' :: exponentText k
  else if k < 0 then
    '0' :: '.' :: (List.replicate (-k - 1).toNat '0' ++ digits)
  else
    let whole := k.toNat + 1
    let shown := digits ++ List.replicate (whole - digits.length) '0'
    let tail := shown.drop whole
    shown.take whole ++ '.' :: (if tail.isEmpty then ['0'] else tail)

/-- A floating-point number in writing. -/
def written : Binary64 → List Char
  | .finite negative m e =>
    let magnitude :=
      if m = 0 then ['0', '.', '0']
      else
        let (digits, k) := shortest m e
        layout (decimalText digits) k
    if negative then '-' :: magnitude else magnitude
  | .infinite negative => if negative then ['-', 'i', 'n', 'f'] else ['i', 'n', 'f']
  | .undefined => ['n', 'a', 'n']

end Binary64

/-- The literal of a scalar. -/
def Scalar.literal : Scalar → String
  | .null => "None"
  | .bool b => if b then "True" else "False"
  | .int n => String.ofList (intText n)
  | .real x => String.ofList x.written
  | .text s => Text.quoted s

/-- A scalar inside a sentence. -/
def Scalar.display : Scalar → String
  | .text s => s
  | s => s.literal

namespace Value

mutual

/-- The literal of a value. -/
def literal : Value → String
  | .scalar s => s.literal
  | .list items => "[" ++ ", ".intercalate (literalItems items) ++ "]"
  | .mapping _ entries => "\x7b" ++ ", ".intercalate (literalEntries entries) ++ "\x7d"

/-- The literals of the items of a list. -/
def literalItems : List Value → List String
  | [] => []
  | v :: rest => literal v :: literalItems rest

/-- The literals of the entries of a mapping. -/
def literalEntries : List (Scalar × Value) → List String
  | [] => []
  | (k, v) :: rest => (k.literal ++ ": " ++ literal v) :: literalEntries rest

end

/-- A value inside a sentence. -/
def display : Value → String
  | .scalar s => s.display
  | v => v.literal

end Value

end RouteStubs
