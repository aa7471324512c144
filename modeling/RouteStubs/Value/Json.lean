import RouteStubs.Text.Basic
import RouteStubs.Value.Basic

/-!
# Reading JSON

A strict reader: one value, JSON blanks around it, no trailing commas and no comments. Three words
beyond the standard are read as numbers, `NaN`, `Infinity` and `-Infinity`. A number token with a
fraction or an exponent is a floating-point number, any other an integer of any size. Members keep
their order; of two members with one name the later gives the value and the earlier the place.

## Main definitions

* `Json.Source`: the text that is left, and the identity that the next mapping gets.
* `Json.value`: reads one value, with as many steps as characters.
* `Json.read?`: reads a whole text.
-/

namespace RouteStubs.Json

open Text

/-- What a reader works on. -/
structure Source where
  /-- The text that is left. -/
  rest : List Char
  /-- The identity of the next mapping. -/
  next : Nat

/-- A reader of a part of a text; it fails without saying where. -/
abbrev Reader (α : Type) := StateT Source Option α

/-- The blanks of JSON. -/
def isSpace (c : Char) : Bool := c = ' ' || c = '\t' || c = '\n' || c = '\r'

/-- Skips blanks. -/
def skipSpace : Reader Unit :=
  modify fun s => { s with rest := s.rest.dropWhile isSpace }

/-- Takes the next character if it is `c`. -/
def take? (c : Char) : Reader Bool := do
  let s ← get
  match s.rest with
  | d :: rest =>
    if d = c then
      set { s with rest := rest }
      pure true
    else pure false
  | [] => pure false

/-- Takes the next character, which has to be `c`. -/
def expect (c : Char) : Reader Unit := do
  guard (← take? c)

/-- Takes a word if the text goes on with it. -/
def word? (w : String) : Reader Bool := do
  let s ← get
  if w.toList.isPrefixOf s.rest then
    set { s with rest := s.rest.drop w.length }
    pure true
  else pure false

/-- The identity of a new mapping. -/
def newOrigin : Reader Nat := do
  let s ← get
  set { s with next := s.next + 1 }
  pure s.next

/-! ### Text -/

/-- The value of a hexadecimal digit. -/
def hexValue? (c : Char) : Option Nat :=
  if '0' ≤ c && c ≤ '9' then some (c.toNat - 48)
  else if 'a' ≤ c && c ≤ 'f' then some (c.toNat - 87)
  else if 'A' ≤ c && c ≤ 'F' then some (c.toNat - 55)
  else none

/-- The value of a run of hexadecimal digits. -/
def hexNumber? (digits : List Char) : Option Nat :=
  digits.foldlM (fun n c => (hexValue? c).map (16 * n + ·)) 0

/-- The character of a one-letter escape. -/
def shortEscape? : Char → Option Char
  | '"' => some '"'
  | '\\' => some '\\'
  | '/' => some '/'
  | 'b' => some (Char.ofNat 8)
  | 'f' => some (Char.ofNat 12)
  | 'n' => some '\n'
  | 'r' => some '\r'
  | 't' => some '\t'
  | _ => none

/-- The code units of a text up to its closing quote, and what follows it. -/
def units? : List Char → Option (List Nat × List Char)
  | [] => none
  | '"' :: rest => some ([], rest)
  | '\\' :: 'u' :: a :: b :: c :: d :: rest => do
    let unit ← hexNumber? [a, b, c, d]
    let (more, rest) ← units? rest
    pure (unit :: more, rest)
  | '\\' :: e :: rest => do
    let c ← shortEscape? e
    let (more, rest) ← units? rest
    pure (c.toNat :: more, rest)
  | c :: rest =>
    if c = '\\' || c.toNat < 32 then none
    else do
      let (more, rest) ← units? rest
      pure (c.toNat :: more, rest)

/-- The characters of a list of code units: a high and a low surrogate make one character, and one
that stands alone gives a replacement character. -/
def joinUnits : List Nat → List Char
  | [] => []
  | [u] => [if 0xd800 ≤ u && u ≤ 0xdfff then Char.ofNat 0xfffd else Char.ofNat u]
  | u :: v :: rest =>
    if 0xd800 ≤ u && u ≤ 0xdbff && 0xdc00 ≤ v && v ≤ 0xdfff then
      Char.ofNat (0x10000 + (u - 0xd800) * 0x400 + (v - 0xdc00)) :: joinUnits rest
    else
      (if 0xd800 ≤ u && u ≤ 0xdfff then Char.ofNat 0xfffd else Char.ofNat u) ::
        joinUnits (v :: rest)

/-- The text after an opening quote. -/
def textBody : Reader String := do
  let s ← get
  let (units, rest) ← units? s.rest
  set { s with rest := rest }
  pure (String.ofList (joinUnits units))

/-! ### Numbers -/

/-- A run of digits and what follows it. -/
def digitRun (s : List Char) : List Char × List Char := s.span isAsciiDigit

/-- The value of a run of digits. -/
def digitsValue (digits : List Char) : Nat :=
  digits.foldl (fun n c => 10 * n + (c.toNat - 48)) 0

/-- A fraction: a point and at least one digit. -/
def fraction? : List Char → Option (List Char × List Char)
  | '.' :: rest =>
    let (digits, rest) := digitRun rest
    if digits.isEmpty then none else some (digits, rest)
  | _ => none

/-- An exponent: its mark, an optional sign and at least one digit. -/
def exponent? : List Char → Option (Int × List Char)
  | c :: rest =>
    if c = 'e' || c = 'E' then
      let (negative, rest) := match rest with
        | '-' :: r => (true, r)
        | '+' :: r => (false, r)
        | r => (false, r)
      let (digits, rest) := digitRun rest
      if digits.isEmpty then none
      else
        let n : Int := digitsValue digits
        some (if negative then -n else n, rest)
    else none
  | [] => none

/-- A number token at the start of a text. -/
def number? (s : List Char) : Option (Scalar × List Char) :=
  let (negative, s) := match s with
    | '-' :: r => (true, r)
    | r => (false, r)
  let (whole, afterWhole) := match s with
    | '0' :: r => (['0'], r)
    | r => digitRun r
  if whole.isEmpty then none
  else
    let (fracDigits, afterFrac) := (fraction? afterWhole).getD ([], afterWhole)
    let exp := exponent? afterFrac
    let rest := (exp.map Prod.snd).getD afterFrac
    if fracDigits.isEmpty && exp.isNone then
      let n : Int := digitsValue whole
      some (.int (if negative then -n else n), rest)
    else
      let power := (exp.map Prod.fst).getD 0 - fracDigits.length
      some (.real (Binary64.ofDecimal negative (digitsValue (whole ++ fracDigits)) power), rest)

/-- The number that the text goes on with. -/
def number : Reader Scalar := do
  let s ← get
  let (n, rest) ← number? s.rest
  set { s with rest := rest }
  pure n

/-! ### Values -/

/-- A value written as a word or a number. -/
def plain : Reader Scalar := do
  if ← word? "null" then return .null
  if ← word? "true" then return .bool true
  if ← word? "false" then return .bool false
  if ← word? "NaN" then return .real .undefined
  if ← word? "Infinity" then return .real (.infinite false)
  if ← word? "-Infinity" then return .real (.infinite true)
  number

mutual

/-- One value, without blanks before it. -/
def value : (steps : Nat) → Reader Value
  | 0 => failure
  | steps + 1 => do
    if ← take? '"' then return .text (← textBody)
    if ← take? '[' then
      skipSpace
      if ← take? ']' then return .list []
      return .list (← items steps)
    if ← take? '{' then
      let origin ← newOrigin
      skipSpace
      if ← take? '}' then return .mapping origin []
      return .mapping origin (Entries.ofPairs (← members steps))
    return .scalar (← plain)

/-- The items of a list, up to its closing bracket. -/
def items : (steps : Nat) → Reader (List Value)
  | 0 => failure
  | steps + 1 => do
    let v ← value steps
    skipSpace
    if ← take? ']' then return [v]
    expect ','
    skipSpace
    return v :: (← items steps)

/-- The members of a mapping, up to its closing brace. -/
def members : (steps : Nat) → Reader (List (Scalar × Value))
  | 0 => failure
  | steps + 1 => do
    expect '"'
    let key ← textBody
    skipSpace
    expect ':'
    skipSpace
    let v ← value steps
    skipSpace
    if ← take? '}' then return [(.text key, v)]
    expect ','
    skipSpace
    return (.text key, v) :: (← members steps)

end

/-- The value that a text writes, its mappings numbered from `next` on. -/
def readFrom? (next : Nat) (s : List Char) : Option Value := do
  let reader : Reader Value := do
    skipSpace
    let v ← value (s.length + 1)
    skipSpace
    guard (← get).rest.isEmpty
    pure v
  (reader.run ⟨s, next⟩).map Prod.fst

/-- The value that a text writes. -/
def read? (s : String) : Option Value := readFrom? 0 s.toList

end RouteStubs.Json
