import RouteStubs.Body.Expression

/-!
# Reading statements

The grammar of statements: simple ones on a line, with semicolons between them, and compound ones
with blocks.

## Main definitions

* `Grammar.simpleStatement`: a statement without blocks.
* `Grammar.block`: a block, on the line of its statement or on lines of its own.
* `Grammar.statement`: the statements of a line, or a compound statement.
* `statements?`: the statements of a source text.
-/

namespace RouteStubs.Body.Grammar

open Reader

/-! ### Simple statements -/

section

variable (inner : Levels)

/-- The marks of assignments that combine the old value with another. -/
def updateMarks : List String :=
  ["+=", "-=", "*=", "/=", "//=", "%=", "@=", "&=", "|=", "^=", ">>=", "<<=", "**="]

/-- An expression, an assignment or a target with its type. -/
def expressionStatement : Reader Stmt := do
  let bare ← (! ·) <$> at_ (.mark "(")
  let first ← yieldOrStar inner
  if ← mark? ":" then
    guard first.isPlace
    let type ← inner.expression
    let value ← if ← mark? "=" then List.singleton <$> yieldOrStar inner else pure []
    return .typed bare first type value
  if ← oneOf? updateMarks then
    guard first.isPlace
    return .update first (← yieldOrStar inner)
  let more ← many do
    if ← mark? "=" then return some (← yieldOrStar inner)
    return none
  match more.getLast? with
  | none => return .simple [first]
  | some value =>
    let targets := first :: more.dropLast
    guard (targets.all fun t => t.isTarget && !t.isStarred)
    return .assign targets value

/-- A name with dots. -/
def dottedName : Reader (List String) := separated (mark? ".") name

/-- The name under which something is imported, or `default`. -/
def importedAs (default : String) : Reader String := do
  if ← word? "as" then return ← name
  return default

/-- Modules that are imported. -/
def importStatement : Reader Stmt := do
  let names ← separated (mark? ",") do
    let path ← dottedName
    importedAs (path.headD "")
  return .imports names

/-- Members of a module that are imported. -/
def importFromStatement : Reader Stmt := do
  let dots ← many do
    if ← oneOf? [".", "..."] then return some ()
    return none
  let path ← if !dots.isEmpty && (← at_ (.word "import")) then pure [] else dottedName
  word "import"
  if ← mark? "*" then return .importsAll
  let member : Reader String := do importedAs (← name)
  let names ← if ← mark? "(" then
      let more : Reader Bool := do return !(← at_ (.mark ")"))
      let (names, _) ← listed more member
      mark ")"
      pure names
    else separated (mark? ",") member
  return if path == ["__future__"] then .importsFuture else .imports names

/-- A statement without blocks. -/
def simpleStatement : Reader Stmt := do
  if ← word? "pass" then return .simple []
  if ← word? "break" then return .jump
  if ← word? "continue" then return .jump
  if ← word? "return" then
    if ← atItem then return .result [← starExpressions inner]
    return .result []
  if ← word? "raise" then
    if !(← atExpression) then return .simple []
    let e ← inner.expression
    if ← word? "from" then return .simple [e, ← inner.expression]
    return .simple [e]
  if ← word? "assert" then
    let e ← inner.expression
    if ← mark? "," then return .simple [e, ← inner.expression]
    return .simple [e]
  if ← word? "del" then
    let e ← starExpressions inner
    guard e.isDeletable
    return .delete [e]
  if ← word? "global" then return .isGlobal (← separated (mark? ",") name)
  if ← word? "nonlocal" then return .isOuter (← separated (mark? ",") name)
  if ← word? "import" then importStatement
  else if ← word? "from" then importFromStatement
  else expressionStatement inner

/-- The simple statements of a line. -/
def simpleStatements : Reader (List Stmt) := do
  let first ← simpleStatement inner
  let more ← many do
    if (← mark? ";") && !(← at_ .lineEnd) then return some (← simpleStatement inner)
    return none
  take .lineEnd
  return first :: more

end

/-! ### Compound statements -/

section

variable (inner : Levels) (nested : Reader (List Stmt))

/-- A block: simple statements on the same line, or statements on lines of their own. -/
def block : Reader (List Stmt) := do
  mark ":"
  if !(← take? .lineEnd) then return ← simpleStatements inner
  take .indent
  let first ← nested
  let more ← many do
    if ← at_ .dedent then return none
    return some (← nested)
  take .dedent
  return first ++ more.flatten

/-- The block after a keyword, or no statements. -/
def optionalBlock (w : String) : Reader (List Stmt) := do
  if ← word? w then return ← block inner nested
  return []

/-- What follows the keyword of a choice. -/
def choiceTail : Reader Stmt := do
  let test ← named inner
  let body ← block inner nested
  let others ← many do
    if ← word? "elif" then
      let test ← named inner
      return some (test, ← block inner nested)
    return none
  let last ← optionalBlock inner nested "else"
  let otherwise := others.foldr (fun (test, body) rest => [Stmt.choice test body rest]) last
  return .choice test body otherwise

/-- What follows the keyword of a loop with a condition. -/
def loopTail : Reader Stmt := do
  let test ← named inner
  let body ← block inner nested
  return .loop test body (← optionalBlock inner nested "else")

/-- What follows the keyword of a loop over items. -/
def eachTail (waits : Bool) : Reader Stmt := do
  let target ← targets inner
  word "in"
  let source ← starExpressions inner
  let body ← block inner nested
  return .each waits target source body (← optionalBlock inner nested "else")

/-- A context, which may be bound to a target. -/
def context : Reader (Expr × List Expr) := do
  let e ← inner.expression
  if ← word? "as" then
    let t ← target inner
    guard !t.isStarred
    return (e, [t])
  return (e, [])

/-- Contexts in parentheses of their own. -/
def parenthesisedContexts : Reader (List (Expr × List Expr)) := do
  mark "("
  let (items, _) ← listed atExpression (context inner)
  mark ")"
  guard (← at_ (.mark ":"))
  return items

/-- What follows the keyword of a block inside contexts. -/
def usingTail (waits : Bool) : Reader Stmt := do
  let contexts ← parenthesisedContexts inner <|> separated (mark? ",") (context inner)
  return .using waits contexts (← block inner nested)

/-- A handler of exceptions, with whether it handles groups. -/
def handler? : Reader (Option (Bool × Handler)) := do
  if !(← word? "except") then return none
  let groups ← mark? "*"
  if !groups && (← at_ (.mark ":")) then
    return some (false, .mk [] none (← block inner nested))
  let type ← inner.expression
  let bound ← if ← word? "as" then some <$> name else pure none
  return some (groups, .mk [type] bound (← block inner nested))

/-- What follows the keyword of a block with handlers. -/
def attemptTail : Reader Stmt := do
  let body ← block inner nested
  let handlers ← many (handler? inner nested)
  let groups := handlers.any Prod.fst
  guard (handlers.all fun h => h.1 == groups)
  let otherwise ← if handlers.isEmpty then pure [] else optionalBlock inner nested "else"
  if ← word? "finally" then
    return .attempt groups body (handlers.map Prod.snd) otherwise (← block inner nested)
  guard !handlers.isEmpty
  return .attempt groups body (handlers.map Prod.snd) otherwise []

/-- What follows the keyword of a function. -/
def functionTail (waits : Bool) (decorators : List Expr) : Reader Stmt := do
  let id ← name
  mark "("
  let (names, types, defaults) ← parameters inner true ")"
  mark ")"
  let type ← if ← mark? "->" then List.singleton <$> inner.expression else pure []
  return .function waits id names (decorators ++ defaults) (types ++ type) (← block inner nested)

/-- What follows the keyword of a class. -/
def classTail (decorators : List Expr) : Reader Stmt := do
  let id ← name
  let items ← if ← mark? "(" then arguments inner false else pure []
  return .class_ id decorators (items.filterMap Argument.positional?)
    (items.filterMap Argument.named?) (← block inner nested)

/-- A decorator, if one comes next. -/
def decorator? : Reader (Option Expr) := do
  if !(← mark? "@") then return none
  let e ← named inner
  take .lineEnd
  return some e

/-- The statements of a line, or a compound statement. -/
def statementWith : Reader (List Stmt) := do
  let decorators ← many (decorator? inner)
  let only (s : Reader Stmt) : Reader (List Stmt) := List.singleton <$> s
  if ← word? "class" then return ← only (classTail inner nested decorators)
  let waits ← word? "async"
  if ← word? "def" then return ← only (functionTail inner nested waits decorators)
  guard decorators.isEmpty
  if ← word? "for" then return ← only (eachTail inner nested waits)
  if ← word? "with" then return ← only (usingTail inner nested waits)
  guard !waits
  if ← word? "if" then only (choiceTail inner nested)
  else if ← word? "while" then only (loopTail inner nested)
  else if ← word? "try" then only (attemptTail inner nested)
  else simpleStatements inner

end

/-- The statements of a line, or a compound statement with blocks that are nested at most so
deep. -/
def statement (inner : Levels) : (depth : Nat) → Reader (List Stmt)
  | 0 => failure
  | depth + 1 => statementWith inner (statement inner depth)

/-- All statements that are left. -/
def file (inner : Levels) (depth : Nat) : Reader (List Stmt) := do
  let found ← many do
    if (← get).isEmpty then return none
    return some (← statement inner depth)
  return found.flatten

end Grammar

/-- How deep a token can nest expressions at most: by a level, and a text by those of the expressions
inside it too. -/
def Token.size : Token → Nat
  | .text _ expressions => expressions.foldl (fun depth e => depth + e.length + 4) 0 + 1
  | _ => 1

/-- The statements of a source text. -/
def statements? (source : List Char) : Option (List Stmt) := do
  let tokens ← tokens? source
  let depth := tokens.foldl (fun depth token => depth + token.size) 0 + 2
  let (found, _) ← (Grammar.file (Grammar.levels depth) depth).run tokens
  pure found

end RouteStubs.Body
