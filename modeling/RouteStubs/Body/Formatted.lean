import RouteStubs.Value.Json

/-!
# Inside texts

What may stand between the quotes of a text: escapes, and the expressions that a formatted text has
between braces. An expression may be followed by a conversion and by a format, which may hold
expressions again.

## Main definitions

* `escapesFit`: whether all escapes are complete.
* `expressionsIn?`: the expressions of a formatted text.
-/

namespace RouteStubs.Body

/-! ### Escapes -/

/-- Whether a text goes on with a run of hexadecimal digits. -/
def hexRun (n : Nat) (s : List Char) : Bool :=
  (s.take n).length == n && (s.take n).all fun c => (Json.hexValue? c).isSome

/-- Whether the escape with the given letter is complete. A sequence of bytes has no escapes for
characters beyond ASCII. -/
def escapeFits (bytes : Bool) (letter : Char) (rest : List Char) : Bool :=
  if letter == 'x' then hexRun 2 rest
  else if bytes then true
  else if letter == 'u' then hexRun 4 rest
  else if letter == 'U' then
    hexRun 8 rest && ((Json.hexNumber? (rest.take 8)).getD 0) ≤ 0x10ffff
  else if letter == 'N' then
    match rest with
    | '{' :: name => name.head? != some '}' && name.contains '}'
    | _ => false
  else true

/-- Whether all escapes of a text are complete. -/
def escapesFit (bytes : Bool) : List Char → Bool
  | '\\' :: letter :: rest => escapeFits bytes letter rest && escapesFit bytes rest
  | _ :: rest => escapesFit bytes rest
  | [] => true

/-! ### Formatted texts -/

/-- The text up to the next brace that stands for itself alone, and what follows from there. Outside
formats a doubled brace is a character of the text, and a closing one has no other meaning. Inside
the name of a character, `inName`, braces do not count. -/
def plainPart? (raw inFormat : Bool) : (inName : Bool) → List Char → Option (List Char × List Char)
  | _, [] => some ([], [])
  | true, c :: rest => (plainPart? raw inFormat (c != '}') rest).map fun (s, r) => (c :: s, r)
  | false, [c] =>
    if c == '{' then some ([], [c])
    else if c == '}' then if inFormat then some ([], [c]) else none
    else some ([c], [])
  | false, c :: d :: rest =>
    if c == '{' || c == '}' then
      if inFormat then some ([], c :: d :: rest)
      else if c == d then (plainPart? raw inFormat false rest).map fun (s, r) => (c :: s, r)
      else if c == '}' then none
      else some ([], c :: d :: rest)
    else if c == '\\' && !raw && d != '{' && d != '}' then
      (plainPart? raw inFormat (d == 'N') rest).map fun (s, r) => (c :: d :: s, r)
    else (plainPart? raw inFormat false (d :: rest)).map fun (s, r) => (c :: s, r)

/-- The quotes of a text inside an expression: the character, and whether there are three. -/
abbrev Quotes := Option (Char × Bool)

/-- Whether three quotes stand here: `c` and what follows it. -/
def threeOf (c : Char) (rest : List Char) : Bool := [c, c].isPrefixOf rest

/-- The bracket that a closing one belongs to. -/
def openerOf (c : Char) : Char :=
  if c == ')' then '(' else if c == ']' then '[' else '{'

/-- An expression up to the mark that ends it, and what follows from there, after `skip` characters
that belong to it. Brackets and texts inside it hide such marks, and a backslash or a comment may
not stand in it. -/
def expressionPart? : (skip : Nat) → (opened : List Char) → Quotes → List Char →
    Option (List Char × List Char)
  | _, _, _, [] => none
  | skip + 1, opened, quotes, c :: rest =>
    (expressionPart? skip opened quotes rest).map fun (s, r) => (c :: s, r)
  | 0, opened, some (quote, triple), c :: rest =>
    if c == '\\' then none
    else if c == quote && !triple then
      (expressionPart? 0 opened none rest).map fun (s, r) => (c :: s, r)
    else if c == quote && threeOf c rest then
      (expressionPart? 2 opened none rest).map fun (s, r) => (c :: s, r)
    else (expressionPart? 0 opened (some (quote, triple)) rest).map fun (s, r) => (c :: s, r)
  | 0, opened, none, c :: rest =>
    let next := rest.head?
    if c == '\\' || c == '#' then none
    else if c == '"' || c == '\'' then
      let triple := threeOf c rest
      (expressionPart? (if triple then 2 else 0) opened (some (c, triple)) rest).map
        fun (s, r) => (c :: s, r)
    else if c == '(' || c == '[' || c == '{' then
      (expressionPart? 0 (c :: opened) none rest).map fun (s, r) => (c :: s, r)
    else if opened.isEmpty && (c == '!' || c == '=' || c == '<' || c == '>') && next == some '='
    then (expressionPart? 1 opened none rest).map fun (s, r) => (c :: s, r)
    else if opened.isEmpty && (c == '!' || c == '=' || c == ':' || c == '}') then
      some ([], c :: rest)
    else if c == ')' || c == ']' || c == '}' then
      if opened.head? == some (openerOf c) then
        (expressionPart? 0 (opened.drop 1) none rest).map fun (s, r) => (c :: s, r)
      else none
    else (expressionPart? 0 opened none rest).map fun (s, r) => (c :: s, r)

/-- What follows the sign that asks for the text of an expression. -/
def afterSelf (s : List Char) : List Char :=
  match s with
  | '=' :: rest => rest.dropWhile fun c => c == ' ' || (9 ≤ c.toNat && c.toNat ≤ 13)
  | rest => rest

/-- What follows the conversion of an expression. -/
def afterConversion? (s : List Char) : Option (List Char) :=
  match s with
  | '!' :: c :: rest => if c == 's' || c == 'r' || c == 'a' then some rest else none
  | '!' :: [] => none
  | rest => some rest

/-- An expression of blanks only. -/
def isVoid (s : List Char) : Bool := s.all fun c => [' ', '\t', '\n', '\x0c', '\r'].contains c

/-- The expressions of a formatted text, or of a format inside so many others, and what follows
from its end. -/
def formattedFrom? : (steps : Nat) → (raw : Bool) → (level : Nat) → List Char →
    Option (List (List Char) × List Char)
  | 0, _, _, _ => none
  | steps + 1, raw, level, s => do
    let (plain, rest) ← plainPart? raw (level != 0) false s
    guard (raw || escapesFit false plain)
    match rest with
    | '{' :: inner =>
      guard (level < 2)
      let (expression, rest) ← expressionPart? 0 [] none inner
      guard (!isVoid expression)
      let rest ← afterConversion? (afterSelf rest)
      let (nested, rest) ← match rest with
        | ':' :: format => formattedFrom? steps raw (level + 1) format
        | rest => some ([], rest)
      match rest with
      | '}' :: rest =>
        let (more, rest) ← formattedFrom? steps raw level rest
        pure (expression :: nested ++ more, rest)
      | _ => none
    | rest => pure ([], rest)

/-- The expressions of a formatted text. -/
def expressionsIn? (raw : Bool) (s : List Char) : Option (List (List Char)) :=
  (formattedFrom? (s.length + 1) raw 0 s).map Prod.fst

end RouteStubs.Body
