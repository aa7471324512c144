import RouteStubs.Body.Names
import RouteStubs.Body.Placement
import RouteStubs.Body.Statement
import RouteStubs.Text.Lines

/-!
# Bodies from answers

A body of a handler that somebody else has written is used only if it works as one: as the block of
a function it has to be accepted, and the function must give its answer when it is called. An answer
may wrap the body in a code fence and may indent it as a whole.

## Main definitions

* `unfenced?`: what stands inside a code fence.
* `source`: a body as the source of a handler.
* `isUsable`: whether a body works as the body of a handler.
* `ofAnswer?`: the body that an answer holds.
-/

namespace RouteStubs.Body

open Text

/-! ### Code fences -/

/-- The mark of a code fence. -/
def fence : List Char := ['`', '`', '`']

/-- A character of the name of a language after a code fence. -/
def isLanguageChar (c : Char) : Bool :=
  isSmall c || isCapital c || isAsciiDigit c || c == '_' || c == '+' || c == '-'

/-- What follows the last line feed of the blanks at the start of a text, if they have one. -/
def afterBlankLines? (s : List Char) : Option (List Char) :=
  let blanks := s.takeWhile isBlank
  if blanks.contains '\n' then
    some ((blanks.reverse.takeWhile (· != '\n')).reverse ++ s.drop blanks.length)
  else none

/-- A text without the fence at its end and the line feed before that. -/
def beforeFence? (s : List Char) : Option (List Char) :=
  if fence.isSuffixOf s then
    let inner := s.take (s.length - fence.length)
    some (if inner.getLast? == some '\n' then inner.dropLast else inner)
  else none

/-- What stands inside a code fence that is all of a text: the fence is on a line of its own,
perhaps with a language. -/
def unfenced? (s : List Char) : Option (List Char) :=
  if fence.isPrefixOf s then
    (afterBlankLines? ((s.drop fence.length).dropWhile isLanguageChar)).bind beforeFence?
  else none

/-! ### Bodies -/

/-- What comes before the body in the source of a handler. -/
def head : List Char := "def _handler(request, env, params):\n".toList

/-- A body as the source of a handler. -/
def source (body : List Char) : List Char := head ++ indent [' ', ' ', ' ', ' '] body

/-- Whether statements are accepted as a file. -/
def accepted (statements : List Stmt) : Bool :=
  Stmt.allFit .top statements && Mention.allFit [] (Stmt.allMentions statements)

/-- Whether the first of some statements is a function that suspends. -/
def firstSuspends : List Stmt → Bool
  | .function _ _ _ _ _ body :: _ => Stmt.anySuspends body
  | _ => false

/-- Whether a body works as the body of a handler. -/
def isUsable (body : List Char) : Bool :=
  match statements? (source body) with
  | some statements => accepted statements && !firstSuspends statements
  | none => false

/-- Whether a body starts with the definition of a function. -/
def startsWithFunction (body : List Char) : Bool :=
  let start := trimLeft isBlank body
  "def ".toList.isPrefixOf start || "async def ".toList.isPrefixOf start

/-- The body that an answer writes, usable or not: what is inside a code fence, or all of the
answer, without what all lines are indented by. -/
def written (answer : List Char) : List Char :=
  let text := strip answer
  trim (· == '\n') (dedent ((unfenced? text).getD text))

/-- The body that an answer holds, if it is usable. -/
def ofAnswer? (answer : String) : Option String :=
  let body := written answer.toList
  if isBlankText body || startsWithFunction body || !isUsable body then none
  else some (String.ofList body)

end RouteStubs.Body
