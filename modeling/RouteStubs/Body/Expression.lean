import RouteStubs.Body.Reader
import RouteStubs.Body.Tree

/-!
# Reading expressions

The grammar of expressions. Since operators are not told apart, all arithmetic ones are read alike,
and so are comparisons and the two connectives. Each rule takes the reader of a nested expression,
and the depth of nesting bounds the whole.

## Main definitions

* `Grammar.levels`: the readers of expressions that are nested at most so deep.
* `Grammar.starExpressions`: one or more expressions, some of them unpacked.
* `Grammar.targets`: what a loop assigns to.
* `Grammar.parameters`: the parameters of a function.
-/

namespace RouteStubs.Body.Grammar

open Reader

/-! ### Operators -/

/-- Arithmetic operators. -/
def arithmeticMarks : List String :=
  ["|", "^", "&", "<<", ">>", "+", "-", "*", "/", "//", "%", "@", "**"]

/-- Comparison operators that are marks. -/
def comparisonMarks : List String := ["==", "!=", "<=", "<", ">=", ">"]

/-- Takes a comparison operator if one comes next. -/
def comparisonMark? : Reader Bool := do
  if ← oneOf? comparisonMarks then return true
  if ← word? "in" then return true
  if ← word? "is" then
    let _ ← word? "not"
    return true
  match ← get with
  | .word "not" :: .word "in" :: rest =>
    set rest
    return true
  | _ => return false

/-- Takes a connective if one comes next. -/
def connective? : Reader Bool := do
  if ← word? "and" then return true
  word? "or"

/-- Operands with operators between them. -/
def chain (operator : Reader Bool) (operand : Reader Expr) : Reader Expr := do
  match ← separated operator operand with
  | [only] => return only
  | parts => return .compound parts

/-- An operand with operators before it. -/
def prefixed (operator : Reader Bool) (operand : Reader Expr) : Reader Expr := do
  let before ← many do
    if ← operator then return some ()
    return none
  let e ← operand
  return if before.isEmpty then e else .compound [e]

/-- A list of items as one expression: a tuple unless there is one item without a comma. -/
def tupleUnlessOne (items : List Expr × Bool) : Expr :=
  match items with
  | ([only], false) => only
  | (several, _) => .display .tuple several

/-! ### Parameters -/

/-- An item of a list of parameters. -/
inductive Parameter where
  /-- Ends the parameters that have no name for callers. -/
  | slash
  /-- Ends the parameters that have a position. -/
  | star
  /-- A parameter. -/
  | plain (name : String) (optional : Bool)
  /-- Takes all further positions. -/
  | rest (name : String)
  /-- Takes all further names. -/
  | keywords (name : String)

/-- The name of a parameter. -/
def Parameter.name? : Parameter → Option String
  | .slash => none
  | .star => none
  | .plain name _ => some name
  | .rest name => some name
  | .keywords name => some name

/-- Whether parameters after the star are in order. When `needed` holds there has to be one. -/
def namedFit : (needed : Bool) → List Parameter → Bool
  | needed, [] => !needed
  | _, .plain _ _ :: rest => namedFit false rest
  | needed, [.keywords _] => !needed
  | _, _ => false

/-- Whether parameters are in order: `any` says that there was one, `slash` that the slash has
been, and `optional` that the last one has a default value. -/
def parametersFit : (any slash optional : Bool) → List Parameter → Bool
  | _, _, _, [] => true
  | _, slash, optional, .plain _ hasDefault :: rest =>
    (hasDefault || !optional) && parametersFit true slash hasDefault rest
  | any, slash, optional, .slash :: rest =>
    any && !slash && parametersFit any true optional rest
  | _, _, _, .star :: rest => namedFit true rest
  | _, _, _, .rest _ :: rest => namedFit false rest
  | _, _, _, .keywords _ :: rest => rest.isEmpty

/-! ### Arguments -/

/-- An argument of a call. -/
inductive Argument where
  /-- A value. -/
  | value (e : Expr)
  /-- Unpacked values. -/
  | values (e : Expr)
  /-- A value with a name. -/
  | keyword (name : String) (e : Expr)
  /-- An unpacked mapping. -/
  | mapping (e : Expr)

/-- Whether arguments are in order, after a keyword and after a mapping. -/
def argumentsFit : (keyword mapping : Bool) → List Argument → Bool
  | _, _, [] => true
  | keyword, mapping, .value _ :: rest => !keyword && !mapping && argumentsFit keyword mapping rest
  | keyword, mapping, .values _ :: rest => !mapping && argumentsFit keyword mapping rest
  | _, mapping, .keyword _ _ :: rest => argumentsFit true mapping rest
  | keyword, _, .mapping _ :: rest => argumentsFit keyword true rest

/-- The argument as a value with a position. -/
def Argument.positional? : Argument → Option Expr
  | .value e => some e
  | .values e => some (.starred e)
  | _ => none

/-- The argument as a value with a name. -/
def Argument.named? : Argument → Option (Option String × Expr)
  | .keyword name e => some (some name, e)
  | .mapping e => some (none, e)
  | _ => none

/-! ### The parts of an expression -/

/-- The readers of expressions, by what they leave to the brackets around them. -/
structure Levels where
  /-- Any expression. -/
  expression : Reader Expr
  /-- Comparisons with connectives. -/
  disjunction : Reader Expr
  /-- Operands with arithmetic operators. -/
  arithmetic : Reader Expr

section

variable (inner : Levels)

/-- An expression that may be an assignment to a name. -/
def named : Reader Expr := do
  if ← atNamed then
    let id ← name
    mark ":="
    return .named id (← inner.expression)
  inner.expression

/-- A parameter of a function, up to the mark `close`, with its type, which it may have when `typed`
holds, and its default value. -/
def parameter (typed : Bool) (close : String) :
    Reader (Parameter × List Expr × List Expr) := do
  let type (type_ : Reader Expr) : Reader (List Expr) := do
    if !typed then return []
    if ← mark? ":" then return [← type_]
    return []
  if ← mark? "/" then return (.slash, [], [])
  if ← mark? "**" then
    let id ← name
    return (.keywords id, ← type inner.expression, [])
  if ← mark? "*" then
    if (← at_ (.mark ",")) || (← at_ (.mark close)) then return (.star, [], [])
    let id ← name
    let unpackable : Reader Expr := do
      let _ ← mark? "*"
      inner.expression
    return (.rest id, ← type unpackable, [])
  let id ← name
  let type ← type inner.expression
  if ← mark? "=" then return (.plain id true, type, [← inner.expression])
  return (.plain id false, type, [])

/-- The parameters of a function: their names, their types, and the default values, which are
evaluated with the definition. -/
def parameters (typed : Bool) (close : String) :
    Reader (List String × List Expr × List Expr) := do
  if ← at_ (.mark close) then return ([], [], [])
  let more : Reader Bool := do return !(← at_ (.mark close))
  let (items, _) ← listed more (parameter inner typed close)
  guard (parametersFit false false false (items.map Prod.fst))
  return (items.filterMap fun i => i.1.name?, items.flatMap fun i => i.2.1,
    items.flatMap fun i => i.2.2)

/-- An argument of a call. -/
def argument : Reader Argument := do
  if ← mark? "**" then return .mapping (← inner.expression)
  if ← mark? "*" then return .values (← inner.expression)
  match ← get with
  | .word s :: .mark "=" :: rest =>
    guard (!Text.keywords.contains s)
    set rest
    return .keyword s (← inner.expression)
  | _ => return .value (← named inner)

/-- A part of a slice that may be missing. -/
def slicePart : Reader (List Expr) := do
  if ← atExpression then return [← inner.expression]
  return []

/-- What follows the first part of a slice. -/
def sliceTail (first : List Expr) : Reader Expr := do
  mark ":"
  let second ← slicePart inner
  if ← mark? ":" then return .compound (first ++ second ++ (← slicePart inner))
  return .compound (first ++ second)

/-- An index or a slice. -/
def slice : Reader Expr := do
  if ← mark? "*" then return .starred (← inner.expression)
  if ← at_ (.mark ":") then return ← sliceTail inner []
  let assigned ← atNamed
  let e ← named inner
  if !assigned && (← at_ (.mark ":")) then sliceTail inner [e] else return e

/-- The index of an item, up to its closing bracket. -/
def index : Reader Expr := do
  let more : Reader Bool := do return !(← at_ (.mark "]"))
  let (items, comma) ← listed more (slice inner)
  mark "]"
  match items with
  | [.starred e] => return .display .tuple [.starred e]
  | _ => return tupleUnlessOne (items, comma)

/-- An expression that may be unpacked. -/
def starExpression : Reader Expr := do
  if ← mark? "*" then return .starred (← inner.arithmetic)
  inner.expression

/-- An expression that may be unpacked or be an assignment to a name. -/
def starNamed : Reader Expr := do
  if ← mark? "*" then return .starred (← inner.arithmetic)
  named inner

/-- One or more expressions, some of them unpacked. -/
def starExpressions : Reader Expr := do
  return tupleUnlessOne (← listed atItem (starExpression inner))

/-- What follows the keyword of an expression that yields. -/
def yieldTail : Reader Expr := do
  if ← word? "from" then return .yields true [← inner.expression]
  if ← atItem then return .yields false [← starExpressions inner]
  return .yields false []

/-- One or more expressions, or one that yields. -/
def yieldOrStar : Reader Expr := do
  if ← word? "yield" then return ← yieldTail inner
  starExpressions inner

/-- A target. -/
def target : Reader Expr := do
  let e ← if ← mark? "*" then .starred <$> inner.arithmetic else inner.arithmetic
  guard e.isTarget
  return e

/-- What a loop assigns to. -/
def targets : Reader Expr := do
  let more : Reader Bool := do return !(← at_ (.word "in"))
  let e := tupleUnlessOne (← listed more (target inner))
  guard (e.isTarget && !e.isStarred)
  return e

/-- A clause of a comprehension, if one comes next. -/
def clause? : Reader (Option Clause) := do
  let waits ← word? "async"
  if !(← word? "for") then
    guard !waits
    return none
  let target ← targets inner
  word "in"
  let source ← inner.disjunction
  let conditions ← many do
    if ← word? "if" then return some (← inner.disjunction)
    return none
  return some (.mk waits target source conditions)

/-- What follows the first elements of a display: the clauses of a comprehension, if there are
any. -/
def clauses : Reader (List Clause) := many (clause? inner)

/-! ### Atoms -/

/-- What follows an opening parenthesis: nothing, an expression, a tuple or a generator. -/
def parenthesised : Reader Expr := do
  if ← mark? ")" then return .display .tuple []
  if ← word? "yield" then
    let e ← yieldTail inner
    mark ")"
    return e
  let first ← starNamed inner
  let parts ← clauses inner
  if !parts.isEmpty then
    mark ")"
    guard !first.isStarred
    return .comprehension true [first] parts
  if ← mark? "," then
    let others ← if ← atItem then Prod.fst <$> listed atItem (starNamed inner) else pure []
    mark ")"
    return .display .tuple (first :: others)
  mark ")"
  guard !first.isStarred
  return first

/-- What follows an opening bracket: a list or a comprehension. -/
def bracketed : Reader Expr := do
  if ← mark? "]" then return .display .list []
  let first ← starNamed inner
  let parts ← clauses inner
  if !parts.isEmpty then
    mark "]"
    guard !first.isStarred
    return .comprehension false [first] parts
  let others ← if (← mark? ",") && (← atItem) then Prod.fst <$> listed atItem (starNamed inner)
    else pure []
  mark "]"
  return .display .list (first :: others)

/-- An entry of a mapping. -/
def entry : Reader (List Expr) := do
  if ← mark? "**" then return [← inner.arithmetic]
  let key ← inner.expression
  mark ":"
  return [key, ← inner.expression]

/-- The further entries of a mapping, up to its closing brace. -/
def entriesTail (first : List Expr) : Reader Expr := do
  let more : Reader Bool := do return !(← at_ (.mark "\x7d"))
  let others ← if (← mark? ",") && (← more) then Prod.fst <$> listed more (entry inner) else pure []
  mark "\x7d"
  return .compound (first ++ others.flatten)

/-- What follows an opening brace: a mapping, a set or a comprehension. -/
def braced : Reader Expr := do
  if ← mark? "\x7d" then return .compound []
  if ← at_ (.mark "**") then return ← entriesTail inner (← entry inner)
  let assigned ← atNamed
  let first ← starNamed inner
  if !assigned && !first.isStarred && (← at_ (.mark ":")) then
    mark ":"
    let value ← inner.expression
    let parts ← clauses inner
    if parts.isEmpty then return ← entriesTail inner [first, value]
    mark "\x7d"
    return .comprehension false [first, value] parts
  let parts ← clauses inner
  if !parts.isEmpty then
    mark "\x7d"
    guard !first.isStarred
    return .comprehension false [first] parts
  let others ← if (← mark? ",") && (← atItem) then Prod.fst <$> listed atItem (starNamed inner)
    else pure []
  mark "\x7d"
  return .display .set (first :: others)

/-- An expression inside a formatted text. -/
def insideText (source : List Char) : Reader Expr := do
  let outside ← get
  let tokens ← StateT.lift (tokens? ('(' :: source ++ [')']))
  set tokens
  let e ← starExpressions inner
  set outside
  return e

/-- The further texts after a text: all are texts, or all are bytes. -/
def textsTail (bytes : Bool) (sources : List (List Char)) : Reader Expr := do
  let more ← many do
    match ← get with
    | .text b sources :: rest =>
      guard (b == bytes)
      set rest
      return some sources
    | _ => return none
  let parts ← (sources ++ more.flatten).mapM (insideText inner)
  return if parts.isEmpty then .constant else .compound parts

/-- An operand without operators, calls and the like. -/
def atom : Reader Expr := do
  match ← get with
  | .number :: rest =>
    set rest
    return .constant
  | .text bytes sources :: rest =>
    set rest
    textsTail inner bytes sources
  | .mark m :: rest =>
    set rest
    if m == "(" then parenthesised inner
    else if m == "[" then bracketed inner
    else if m == "\x7b" then braced inner
    else if m == "..." then return .constant
    else failure
  | .word s :: rest =>
    set rest
    if ["None", "True", "False"].contains s then return .constant
    guard (!Text.keywords.contains s)
    return .name s
  | _ => failure

/-- The arguments of a call, up to its closing bracket. A generator that is the only argument needs
no parentheses of its own; the clauses of one are read if `generator` holds. -/
def arguments (generator : Bool) : Reader (List Argument) := do
  if ← mark? ")" then return []
  let first ← argument inner
  let parts ← if generator then clauses inner else pure []
  match parts, first with
  | [], _ =>
    let more : Reader Bool := do return !(← at_ (.mark ")"))
    let others ← if (← mark? ",") && (← more) then Prod.fst <$> listed more (argument inner)
      else pure []
    mark ")"
    guard (argumentsFit false false (first :: others))
    return first :: others
  | parts, .value e =>
    mark ")"
    return [.value (.comprehension true [e] parts)]
  | _, _ => failure

/-- What may follow an operand: an attribute, arguments or an index. -/
def trailer? : Reader (Option (Expr → Expr)) := do
  if ← mark? "." then
    let id ← name
    return some fun e => .attribute e id
  if ← mark? "(" then
    let items ← arguments inner true
    return some fun e =>
      .call e (items.filterMap Argument.positional?) (items.filterMap Argument.named?)
  if ← mark? "[" then
    let i ← index inner
    return some fun e => .item e i
  return none

/-- An operand with what follows it. -/
def primary : Reader Expr := do
  let e ← atom inner
  let trailers ← many (trailer? inner)
  return trailers.foldl (fun e f => f e) e

/-- An operand that may be waited for. -/
def awaited : Reader Expr := do
  if ← word? "await" then return .wait (← primary inner)
  primary inner

/-! ### Levels -/

/-- Operands with arithmetic operators. -/
def arithmetic : Reader Expr :=
  chain (oneOf? arithmeticMarks) (prefixed (oneOf? ["+", "-", "~"]) (awaited inner))

/-- Comparisons with connectives. -/
def disjunction : Reader Expr :=
  chain connective? (prefixed (word? "not") (chain comparisonMark? (arithmetic inner)))

/-- Any expression. -/
def conditional : Reader Expr := do
  if ← word? "lambda" then
    let (names, _, defaults) ← parameters inner false ":"
    mark ":"
    return .lambda names defaults (← inner.expression)
  let e ← disjunction inner
  if ← word? "if" then
    let test ← disjunction inner
    word "else"
    return .compound [test, e, ← inner.expression]
  return e

end

/-- The readers of expressions that are nested at most so deep. -/
def levels : (depth : Nat) → Levels
  | 0 => ⟨failure, failure, failure⟩
  | depth + 1 =>
    let inner := levels depth
    ⟨conditional inner, disjunction inner, arithmetic inner⟩

end RouteStubs.Body.Grammar
