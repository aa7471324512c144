import RouteStubs.Body.Token

/-!
# Reading tokens

Small readers on a list of tokens, from which the grammar is put together. A reader gives what it
has read and leaves what follows, or fails without saying where.

## Main definitions

* `Reader`: the readers.
* `Reader.many`: reads as long as there is something to read.
* `Reader.listed`: items between commas, with whether a comma comes last.
-/

namespace RouteStubs.Body

open Text

/-- A reader of a part of a list of tokens. -/
abbrev Reader (α : Type) := StateT (List Token) Option α

namespace Reader

variable {α : Type}

/-- Whether the next token is this one. -/
def at_ (token : Token) : Reader Bool := do
  return (← get).head? == some token

/-- Takes the next token if it is this one. -/
def take? (token : Token) : Reader Bool := do
  match ← get with
  | t :: rest =>
    if t = token then
      set rest
      return true
    return false
  | [] => return false

/-- Takes the next token, which has to be this one. -/
def take (token : Token) : Reader Unit := do
  guard (← take? token)

/-- Takes a mark if it comes next. -/
def mark? (m : String) : Reader Bool := take? (.mark m)

/-- Takes a mark. -/
def mark (m : String) : Reader Unit := take (.mark m)

/-- Takes a keyword if it comes next. -/
def word? (w : String) : Reader Bool := take? (.word w)

/-- Takes a keyword. -/
def word (w : String) : Reader Unit := take (.word w)

/-- Takes one of some marks if it comes next. -/
def oneOf? (marks : List String) : Reader Bool := do
  match ← get with
  | .mark m :: rest =>
    if marks.contains m then
      set rest
      return true
    return false
  | _ => return false

/-- A name, which is no keyword. -/
def name : Reader String := do
  match ← get with
  | .word s :: rest =>
    guard (!keywords.contains s)
    set rest
    return s
  | _ => failure

/-- What `item` finds, again and again, until it finds nothing. -/
def manyFrom (item : Reader (Option α)) : (steps : Nat) → Reader (List α)
  | 0 => failure
  | steps + 1 => do
    match ← item with
    | none => return []
    | some a => return a :: (← manyFrom item steps)

/-- What `item` finds, again and again, until it finds nothing. It takes a token whenever it finds
something. -/
def many (item : Reader (Option α)) : Reader (List α) := do
  manyFrom item ((← get).length + 1)

/-- One `item` or more, each further one after what `separator` takes. -/
def separated (separator : Reader Bool) (item : Reader α) : Reader (List α) := do
  let first ← item
  let more ← many do
    if ← separator then return some (← item)
    return none
  return first :: more

/-- Items between commas, where `more` says whether an item follows a comma. -/
def listedFrom (more : Reader Bool) (item : Reader α) : (steps : Nat) → Reader (List α × Bool)
  | 0 => failure
  | steps + 1 => do
    let a ← item
    if ← mark? "," then
      if ← more then
        let (rest, comma) ← listedFrom more item steps
        return (a :: rest, comma)
      return ([a], true)
    return ([a], false)

/-- Items between commas, where `more` says whether an item follows a comma, and whether a comma
comes last. -/
def listed (more : Reader Bool) (item : Reader α) : Reader (List α × Bool) := do
  listedFrom more item ((← get).length + 1)

/-- The keywords that an expression may start with. -/
def openingWords : List String := ["None", "True", "False", "not", "lambda", "await"]

/-- The marks that an expression may start with. -/
def openingMarks : List String := ["(", "[", "\x7b", "+", "-", "~", "..."]

/-- Whether an expression may start here. -/
def atExpression : Reader Bool := do
  match ← get with
  | .word s :: _ => return !keywords.contains s || openingWords.contains s
  | .number :: _ => return true
  | .text _ _ :: _ => return true
  | .mark m :: _ => return openingMarks.contains m
  | _ => return false

/-- Whether an expression, unpacked or not, may start here. -/
def atItem : Reader Bool := do
  if ← at_ (.mark "*") then return true
  atExpression

/-- Whether an assignment to a name inside an expression starts here. -/
def atNamed : Reader Bool := do
  match ← get with
  | .word s :: .mark ":=" :: _ => return !keywords.contains s
  | _ => return false

end Reader

end RouteStubs.Body
