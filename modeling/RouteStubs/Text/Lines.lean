import RouteStubs.Text.Blank

/-!
# Lines

Texts as lines: where a line ends, and how the indentation of all lines is changed at once.

## Main definitions

* `lineFeeds`: a text whose lines end with a line feed alone.
* `splitLines`: the lines of a text, each with its end.
* `indent`: puts spaces before each line that is not blank.
* `dedent`: takes away the indentation that all lines have.
-/

namespace RouteStubs.Text

/-- The characters that end a line. -/
def isLineEnd (c : Char) : Bool :=
  let n := c.toNat
  (10 ≤ n && n ≤ 13) || (28 ≤ n && n ≤ 30) || n == 0x85 || n == 0x2028 || n == 0x2029

/-- A text whose lines end with a line feed alone, where a carriage return, alone or before a line
feed, ended them too. -/
def lineFeeds : List Char → List Char
  | [] => []
  | [c] => if c = '\r' then ['\n'] else [c]
  | c :: d :: rest =>
    if c = '\r' then if d = '\n' then lineFeeds (d :: rest) else '\n' :: lineFeeds (d :: rest)
    else c :: lineFeeds (d :: rest)

/-- The lines of a text, each with its end. A carriage return and a line feed are one end. -/
def splitLines : List Char → List (List Char)
  | [] => []
  | [c] => [[c]]
  | c :: d :: rest =>
    if isLineEnd c && !(c = '\r' && d = '\n') then [c] :: splitLines (d :: rest)
    else match splitLines (d :: rest) with
      | [] => [[c]]
      | line :: others => (c :: line) :: others

/-- Puts a margin before each line that is not blank. -/
def indent (margin : List Char) (s : List Char) : List Char :=
  (splitLines s).flatMap fun line => if isBlankText line then line else margin ++ line

/-- A space or a tab. -/
def isMargin (c : Char) : Bool := c == ' ' || c == '\t'

/-- What two texts have in common at their start. -/
def commonStart : List Char → List Char → List Char
  | a :: as, b :: bs => if a = b then a :: commonStart as bs else []
  | _, _ => []

/-- The margin that all of some lines have. -/
def commonMargin : List (List Char) → List Char
  | [] => []
  | [line] => line.takeWhile isMargin
  | line :: rest => commonStart (line.takeWhile isMargin) (commonMargin rest)

/-- Takes away the margin that all lines have which hold more than margin, and empties the lines
that hold nothing else. -/
def dedent (s : List Char) : List Char :=
  let lines := (pieces '\n' s).map fun line => if line.all isMargin then [] else line
  let margin := commonMargin (lines.filter (!·.isEmpty))
  ['\n'].intercalate (lines.map fun line => line.drop margin.length)

end RouteStubs.Text
