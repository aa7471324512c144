import RouteStubs.Text.Basic

/-!
# Blank characters

The characters that Unicode counts as white space, with the four ASCII separators U+001C to
U+001F, and the normal form of a text whose inner blanks are single spaces.

## Main definitions

* `isSpace`, `isBlank`: the class, without the separators and with them.
* `strip`: a text without blanks at its ends.
* `collapse`: each run of blanks becomes one space.
-/

namespace RouteStubs.Text

/-- Unicode white space. -/
def isSpace (c : Char) : Bool :=
  let n := c.toNat
  (9 ≤ n && n ≤ 13) || n == 32 || n == 0x85 || n == 0xa0 || n == 0x1680 ||
    (0x2000 ≤ n && n ≤ 0x200a) || n == 0x2028 || n == 0x2029 || n == 0x202f || n == 0x205f ||
    n == 0x3000

/-- Unicode white space, and the ASCII file, group, record and unit separators. -/
def isBlank (c : Char) : Bool := isSpace c || (28 ≤ c.toNat && c.toNat ≤ 31)

/-- The text without blanks at its ends. -/
def strip (s : List Char) : List Char := trim isBlank s

/-- Each run of blanks becomes one space. -/
def collapse : List Char → List Char
  | [] => []
  | c :: rest =>
    if isBlank c then
      match rest with
      | [] => [' ']
      | d :: _ => if isBlank d then collapse rest else ' ' :: collapse rest
    else c :: collapse rest

/-- A text of blanks only. -/
def isBlankText (s : List Char) : Bool := s.all isBlank

end RouteStubs.Text
