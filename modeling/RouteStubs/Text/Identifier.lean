import RouteStubs.Text.IdentifierTable
import RouteStubs.Text.Basic

/-!
# Identifiers and keywords

What may stand as a name in generated code.

## Main definitions

* `isIdentifier`: the shape of a name.
* `keywords`, `softKeywords`: the words the generated language keeps for itself.
-/

namespace RouteStubs.Text

/-- A character that may start an identifier. -/
def isIdentifierStart (c : Char) : Bool :=
  if c.toNat < 128 then isCapital c || isSmall c || c == '_'
  else inRanges identifierStartRanges c.toNat

/-- A character that may go on an identifier. -/
def isIdentifierContinue (c : Char) : Bool :=
  if c.toNat < 128 then isCapital c || isSmall c || isAsciiDigit c || c == '_'
  else inRanges identifierContinueRanges c.toNat

/-- An identifier: nonempty, with a start and then characters that go on. -/
def isIdentifier (s : List Char) : Bool :=
  match s with
  | [] => false
  | c :: rest => isIdentifierStart c && rest.all isIdentifierContinue

/-- The reserved words of Python, which no name may be. -/
def keywords : List String :=
  ["False", "None", "True", "and", "as", "assert", "async", "await", "break", "class", "continue",
   "def", "del", "elif", "else", "except", "finally", "for", "from", "global", "if", "import",
   "in", "is", "lambda", "nonlocal", "not", "or", "pass", "raise", "return", "try", "while",
   "with", "yield"]

/-- The words that Python reserves in some places only. -/
def softKeywords : List String := ["_", "case", "match"]

end RouteStubs.Text
