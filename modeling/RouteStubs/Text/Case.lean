import RouteStubs.Text.CaseTable
import RouteStubs.Text.Basic

/-!
# Letter case

Full lower and upper case of a text. A capital sigma that ends a word becomes a final sigma.

## Main definitions

* `lower`, `upper`: on lists of characters.
* `lowerCase`, `upperCase`: on strings.
-/

namespace RouteStubs.Text

/-- The code point that a table of runs moves `code` to, or `code` itself. -/
def shifted (table : List (Nat × Nat × Nat × Int)) (code : Nat) : Nat :=
  match table.find? fun (first, last, step, _) =>
      first ≤ code && code ≤ last && (code - first) % step == 0 with
  | some (_, _, _, distance) => (code + distance).toNat
  | none => code

/-- A letter that has case. -/
def isCased (c : Char) : Bool :=
  if c.toNat < 128 then isCapital c || isSmall c else inRanges casedRanges c.toNat

/-- A character, such as an apostrophe or an accent, that does not end a word for the form of a
sigma. -/
def isCaseIgnorable (c : Char) : Bool :=
  if c.toNat < 128 then c.toNat ∈ [39, 46, 58, 94, 96]
  else inRanges caseIgnorableRanges c.toNat

/-- Whether, case-ignorable characters skipped, the text goes on with a cased letter. -/
def startsCased (s : List Char) : Bool :=
  ((s.dropWhile isCaseIgnorable).head?.map isCased).getD false

/-- The lower case of one character between the text `before` it, in reverse, and `after` it. -/
def lowerChar (before : List Char) (c : Char) (after : List Char) : List Char :=
  let n := c.toNat
  if n < 128 then [if isCapital c then Char.ofNat (n + 32) else c]
  else if n == 0x130 then ['i', Char.ofNat 0x307]
  else if n == 0x3a3 then
    [Char.ofNat (if startsCased before && !startsCased after then 0x3c2 else 0x3c3)]
  else [Char.ofNat (shifted lowerRuns n)]

/-- The lower case of a text, after the text `before` it in reverse. -/
def lowerFrom (before : List Char) : List Char → List Char
  | [] => []
  | c :: rest => lowerChar before c rest ++ lowerFrom (c :: before) rest

/-- The lower case of a text. -/
def lower (s : List Char) : List Char := lowerFrom [] s

/-- The upper case of one character. -/
def upperChar (c : Char) : List Char :=
  let n := c.toNat
  if n < 128 then [if isSmall c then Char.ofNat (n - 32) else c]
  else match upperExpansions.find? fun e => e.1 == n with
    | some (_, codes) => codes.map Char.ofNat
    | none => [Char.ofNat (shifted upperRuns n)]

/-- The upper case of a text. -/
def upper (s : List Char) : List Char := s.flatMap upperChar

/-- The lower case of a string. -/
def lowerCase (s : String) : String := onChars lower s

/-- The upper case of a string. -/
def upperCase (s : String) : String := onChars upper s

end RouteStubs.Text
