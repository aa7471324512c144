import RouteStubs.Fault
import RouteStubs.Text.Blank
import RouteStubs.Text.Case
import RouteStubs.Text.Digit
import RouteStubs.Text.Identifier

/-!
# Styles of names

Handlers and modules are named in small letters with underscores between words, declarations in
capitalised words without any. Both are made from arbitrary text, so a fallback stands in when no
character of the text can be used.

## Main definitions

* `Name.boundaries`: an underscore at each place where a capitalised word starts.
* `Name.snake`: capitalised words in small letters with underscores.
* `Name.segment`: what is left of a text in that style.
* `Name.handlerStyle`, `Name.typeStyle`: names that can stand in code.
-/

namespace RouteStubs.Name

open Text

/-- Whether a word starts at the capital `y`, which stands between `x` and the text `after`: after
a small letter or a digit, and at the last capital of several before a small letter. -/
def startsWord (x y : Char) (after : List Char) : Bool :=
  isCapital y &&
    (isSmall x || isDecimal x || (isCapital x && (after.head?.map isSmall).getD false))

/-- Puts an underscore before each capital at which a word starts. -/
def boundaries : List Char → List Char
  | [] => []
  | [x] => [x]
  | x :: y :: rest =>
    if startsWord x y rest then x :: '_' :: boundaries (y :: rest) else x :: boundaries (y :: rest)

/-- Capitalised words in small letters with underscores between them. -/
def snakeChars (s : List Char) : List Char := lower (boundaries s)

/-- Capitalised words in small letters with underscores between them. -/
def snake (s : String) : String := onChars snakeChars s

/-- A character that separates words: a point, a hyphen or a blank. -/
def isWordBreak (c : Char) : Bool := c == '.' || c == '-' || isBlank c

/-- A character that a name in small letters may hold. -/
def isSegmentChar (c : Char) : Bool := isSmall c || isAsciiDigit c || c == '_'

/-- What is left of a text as a name in small letters: words joined by single underscores, and no
underscore at the ends. Nothing may be left. -/
def segmentChars (s : List Char) : List Char :=
  let broken := (snakeChars s).map fun c => if isWordBreak c then '_' else c
  trim (· == '_') (squeeze '_' (broken.filter isSegmentChar))

/-- What is left of a text as a name in small letters. -/
def segment (s : String) : String := onChars segmentChars s

/-- An underscore before a name that starts with a digit. There has to be a name. -/
def withoutLeadingDigit (name : List Char) : Except Fault (List Char) :=
  match name with
  | [] => .error (.defect .nothingNameable)
  | c :: _ => .ok (if isDigit c then '_' :: name else name)

/-- An underscore after a name that is one of the given words. -/
def avoiding (words : List String) (name : List Char) : List Char :=
  if words.contains (String.ofList name) then name ++ ['_'] else name

/-- A handler or module name for a text, with a fallback for when nothing of it can be used. -/
def handlerStyle (s : String) (fallback : String) : Except Fault String := do
  let kept := segmentChars s.toList
  let name ← withoutLeadingDigit (if kept.isEmpty then fallback.toList else kept)
  pure (String.ofList (avoiding (keywords ++ softKeywords) name))

/-- A letter or digit of ASCII. -/
def isWordChar (c : Char) : Bool := isCapital c || isSmall c || isAsciiDigit c

/-- A word with its first letter in capital. -/
def capitalised : List Char → List Char
  | [] => []
  | c :: rest => (if isSmall c then Char.ofNat (c.toNat - 32) else c) :: rest

/-- The words of a text, each with its first letter in capital, without anything between them. -/
def typeChars (s : List Char) : List Char := (runs isWordChar s).flatMap capitalised

/-- A declaration name for a text, with a fallback for when nothing of it can be used. -/
def typeStyle (s : String) (fallback : String) : Except Fault String := do
  let kept := typeChars s.toList
  let name ← withoutLeadingDigit (if kept.isEmpty then fallback.toList else kept)
  pure (String.ofList (avoiding keywords name))

end RouteStubs.Name
