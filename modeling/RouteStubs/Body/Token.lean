import RouteStubs.Body.Formatted
import RouteStubs.Text.Identifier
import RouteStubs.Text.Lines

/-!
# Tokens

The text of Python statements as words, numbers, texts, marks and the structure of its lines. A
logical line ends with a token of its own, and where the margin of a line grows or shrinks there is
a token for each level. Inside brackets, lines and margins do not count.

## Main definitions

* `Token`: the tokens.
* `afterNumber?`: what follows a number.
* `quotedText?`: a text between quotes, and what follows it.
* `Margin`: the width of what stands before a line, with tabs read in two ways.
* `tokens?`: the tokens of a source text.
-/

namespace RouteStubs.Body

open Text

/-- A token. -/
inductive Token where
  /-- A name or a keyword. -/
  | word (s : String)
  /-- A number. -/
  | number
  /-- A text or, when `bytes` holds, a sequence of bytes, with the expressions inside it. -/
  | text (bytes : Bool) (expressions : List (List Char))
  /-- An operator, a bracket or a separator. -/
  | mark (s : String)
  /-- The end of a logical line. -/
  | lineEnd
  /-- The margin grows. -/
  | indent
  /-- The margin shrinks to that of an outer block. -/
  | dedent
  deriving DecidableEq, Repr

/-! ### Words -/

/-- A character that may stand in a word. Outside ASCII this is decided for the whole word. -/
def isWordChar (c : Char) : Bool :=
  isCapital c || isSmall c || isAsciiDigit c || c == '_' || 128 ≤ c.toNat

/-- The letters before the quotes of a text, in small letters, if a text may start so. -/
def textMarker? (letters : List Char) : Option String :=
  let marker := String.ofList (letters.map Char.toLower)
  if ["", "b", "r", "u", "f", "br", "rb", "fr", "rf"].contains marker then some marker else none

/-! ### Numbers -/

/-- What follows digits with single underscores between them. When `pending` holds, a digit has to
come next. -/
def afterDigits? (digit : Char → Bool) : (pending : Bool) → List Char → Option (List Char)
  | pending, [] => if pending then none else some []
  | pending, c :: rest =>
    if digit c then afterDigits? digit false rest
    else if pending then none
    else if c == '_' then afterDigits? digit true rest
    else some (c :: rest)

/-- The keywords that may follow a number without a blank. -/
def wordsAfterNumber : List String := ["and", "else", "for", "if", "in", "is", "or", "not"]

/-- What a number is followed by: no word, except for some keywords. -/
def endsNumber (s : List Char) : Bool :=
  !(s.take 1).any isWordChar || wordsAfterNumber.any fun w => w.toList.isPrefixOf s

/-- What follows the digits of a number in a base other than ten. One underscore may come first. -/
def afterBased? (digit : Char → Bool) (s : List Char) : Option (List Char) :=
  let s := match s with
    | '_' :: rest => rest
    | rest => rest
  (afterDigits? digit true s).filter fun rest => endsNumber rest && !(rest.take 1).any isAsciiDigit

/-- What follows an exponent. An `e` without digits is no exponent but the start of a word. -/
def afterExponent? (s : List Char) : Option (List Char) :=
  match s with
  | c :: sign :: rest =>
    if c != 'e' && c != 'E' then some s
    else if sign == '+' || sign == '-' then afterDigits? isAsciiDigit true rest
    else if isAsciiDigit sign then afterDigits? isAsciiDigit true (sign :: rest)
    else some s
  | _ => some s

/-- What follows a fraction, which may be empty. -/
def afterFraction? (s : List Char) : Option (List Char) :=
  match s with
  | '.' :: rest =>
    if (rest.take 1).any isAsciiDigit then afterDigits? isAsciiDigit true rest else some rest
  | _ => some s

/-- What follows a decimal number. A number other than zero that is an integer has no zero before
it. -/
def afterDecimal? (s : List Char) : Option (List Char) := do
  let afterWhole ← afterDigits? isAsciiDigit false s
  let whole := s.take (s.length - afterWhole.length)
  let goesOn := (afterWhole.take 1).any fun c => ['.', 'e', 'E', 'j', 'J'].contains c
  guard (goesOn || whole.head? != some '0' || whole.all fun c => c == '0' || c == '_')
  let rest ← (afterFraction? afterWhole).bind afterExponent?
  let rest := match rest with
    | c :: more => if c == 'j' || c == 'J' then more else rest
    | [] => []
  guard (endsNumber rest)
  pure rest

/-- What follows a number. -/
def afterNumber? (s : List Char) : Option (List Char) :=
  match s with
  | '0' :: c :: rest =>
    match c.toLower with
    | 'x' => afterBased? (fun d => (Json.hexValue? d).isSome) rest
    | 'o' => afterBased? (fun d => '0' ≤ d && d ≤ '7') rest
    | 'b' => afterBased? (fun d => d == '0' || d == '1') rest
    | _ => afterDecimal? s
  | _ => afterDecimal? s

/-! ### Texts -/

/-- A text up to its closing quotes, three or one, and what follows it. A backslash takes the next
character with it, and a text between single quotes ends on its line. -/
def quotedText? (quote : Char) (triple : Bool) : List Char → Option (List Char × List Char)
  | '\\' :: c :: rest => (quotedText? quote triple rest).map fun (s, r) => ('\\' :: c :: s, r)
  | c :: rest =>
    if c == quote && !triple then some ([], rest)
    else if c == quote && [quote, quote].isPrefixOf rest then some ([], rest.drop 2)
    else if c == '\n' && !triple then none
    else (quotedText? quote triple rest).map fun (s, r) => (c :: s, r)
  | [] => none

/-- The token of a text with the given letters before it. -/
def textToken? (marker : String) (inner : List Char) : Option Token :=
  let raw := marker.contains 'r'
  if marker.contains 'b' then
    if inner.all (·.toNat < 128) && (raw || escapesFit true inner) then some (.text true [])
    else none
  else if marker.contains 'f' then (expressionsIn? raw inner).map (.text false)
  else if raw || escapesFit false inner then some (.text false [])
  else none

/-- The text that starts with a quote, with the given letters before it, and what follows it. -/
def textAt? (marker : String) (quote : Char) (s : List Char) : Option (Token × List Char) := do
  let (inner, rest) ←
    if [quote, quote].isPrefixOf s then quotedText? quote true (s.drop 2)
    else quotedText? quote false s
  let token ← textToken? marker inner
  pure (token, rest)

/-! ### Marks -/

/-- The marks, the longer ones first. -/
def marks : List String :=
  ["**=", "//=", ">>=", "<<=", "...", "!=", "->", ":=", "==", "<=", ">=", "<<", ">>", "**", "//",
   "+=", "-=", "*=", "/=", "%=", "&=", "|=", "^=", "@=", "(", ")", "[", "]", "\x7b", "\x7d", ":",
   ",", ";", "+", "-", "*", "/", "|", "&", "<", ">", "=", ".", "%", "~", "^", "@"]

/-- The open brackets after a mark. A closing bracket has to match the innermost open one. -/
def bracketsAfter? (mark : String) (opened : List String) : Option (List String) :=
  if ["(", "[", "\x7b"].contains mark then some (mark :: opened)
  else
    let closes := [(")", "("), ("]", "["), ("\x7d", "\x7b")].lookup mark
    match closes with
    | none => some opened
    | some partner => if opened.head? == some partner then some (opened.drop 1) else none

/-! ### Margins -/

/-- The width of what stands before a line: with tabs that reach the next multiple of eight, and
with tabs that are as wide as one space. -/
structure Margin where
  /-- The width with wide tabs. -/
  wide : Nat
  /-- The width with narrow tabs. -/
  narrow : Nat
  deriving DecidableEq, Repr

/-- The margin of a line and what follows it. A form feed starts it anew. When the line is joined to
the next one, the margin before the first joint counts. -/
def marginOf? : (wide narrow held : Nat) → List Char → Option (Margin × List Char)
  | wide, narrow, held, ' ' :: rest => marginOf? (wide + 1) (narrow + 1) held rest
  | wide, narrow, held, '\t' :: rest => marginOf? ((wide / 8 + 1) * 8) (narrow + 1) held rest
  | _, _, held, '\x0c' :: rest => marginOf? 0 0 held rest
  | wide, narrow, held, '\\' :: '\n' :: rest =>
    if rest.isEmpty then none else marginOf? wide narrow (if held = 0 then wide else held) rest
  | _, _, _, '\\' :: _ => none
  | wide, narrow, held, rest => some (if held = 0 then ⟨wide, narrow⟩ else ⟨held, held⟩, rest)

/-- The tokens for a line with a margin inside blocks with given margins, and the margins after it.
Both readings of tabs have to agree. -/
def shift? (m : Margin) (open_ : List Margin) : Option (List Token × List Margin) :=
  let kept := open_.dropWhile fun o => m.wide < o.wide
  match kept with
  | [] => none
  | top :: _ =>
    if m.wide = top.wide then
      if m.narrow = top.narrow then
        some (List.replicate (open_.length - kept.length) .dedent, kept)
      else none
    else if kept.length = open_.length ∧ top.narrow < m.narrow then some ([.indent], m :: open_)
    else none

/-! ### Scanning -/

/-- Where a scanner stands. -/
structure Scanner where
  /-- Whether a line starts here. -/
  atStart : Bool
  /-- The margins of the open blocks, the innermost first. -/
  margins : List Margin
  /-- The open brackets, the innermost first. -/
  opened : List String
  /-- The text that is left. -/
  rest : List Char

/-- A space that may stand between tokens. -/
def isGap (c : Char) : Bool := c == ' ' || c == '\t' || c == '\x0c'

/-- The start of a line: its margin counts unless the line is empty or a comment. -/
def Scanner.startLine? (s : Scanner) : Option (List Token × Scanner) := do
  let (margin, rest) ← marginOf? 0 0 0 s.rest
  match rest with
  | '\n' :: after => pure ([], { s with rest := after })
  | '#' :: comment => pure ([], { s with rest := (comment.dropWhile (· != '\n')).drop 1 })
  | _ =>
    let (tokens, margins) ← shift? margin s.margins
    pure (tokens, { s with atStart := false, margins := margins, rest := rest })

/-- A word, or a text with letters before it. -/
def Scanner.word? (s : Scanner) : Option (List Token × Scanner) := do
  let (letters, rest) := s.rest.span isWordChar
  match rest with
  | c :: after =>
    if c == '"' || c == '\'' then
      if let some marker := textMarker? letters then
        let (token, rest) ← textAt? marker c after
        return ([token], { s with rest := rest })
  | [] => pure ()
  guard (isIdentifier letters)
  pure ([.word (String.ofList letters)], { s with rest := rest })

/-- A mark. -/
def Scanner.mark? (s : Scanner) : Option (List Token × Scanner) := do
  let mark ← marks.find? fun m => m.toList.isPrefixOf s.rest
  let opened ← bracketsAfter? mark s.opened
  pure ([.mark mark], { s with opened := opened, rest := s.rest.drop mark.length })

/-- The next piece of a line that is not at its start. -/
def Scanner.insideLine? (s : Scanner) : Option (List Token × Scanner) :=
  match s.rest with
  | [] => none
  | c :: rest =>
    if isGap c then some ([], { s with rest := rest })
    else if c == '#' then some ([], { s with rest := rest.dropWhile (· != '\n') })
    else if c == '\n' then
      if s.opened.isEmpty then some ([.lineEnd], { s with atStart := true, rest := rest })
      else some ([], { s with rest := rest })
    else if c == '\\' then
      match rest with
      | '\n' :: d :: after => some ([], { s with rest := d :: after })
      | _ => none
    else if c == '"' || c == '\'' then
      (textAt? "" c rest).map fun (token, rest) => ([token], { s with rest := rest })
    else if isAsciiDigit c || (c == '.' && (rest.take 1).any isAsciiDigit) then
      (afterNumber? s.rest).map fun rest => ([.number], { s with rest := rest })
    else if isWordChar c then s.word?
    else s.mark?

/-- The tokens of what is left of a text, with at most so many steps. -/
def Scanner.tokens? : (steps : Nat) → Scanner → Option (List Token)
  | 0, _ => none
  | steps + 1, s =>
    if s.rest.isEmpty && s.opened.isEmpty then
      (shift? ⟨0, 0⟩ s.margins).map Prod.fst
    else do
      let (tokens, next) ← if s.atStart then s.startLine? else s.insideLine?
      let more ← next.tokens? steps
      pure (tokens ++ more)

/-- A source text whose lines all end with a line feed. -/
def withLineFeeds (source : List Char) : List Char :=
  let text := lineFeeds source
  if text.getLast? == some '\n' then text else text ++ ['\n']

/-- The tokens of a source text. -/
def tokens? (source : List Char) : Option (List Token) :=
  let text := withLineFeeds source
  if text.contains '\x00' then none
  else Scanner.tokens? (2 * text.length + 2) ⟨true, [⟨0, 0⟩], [], text⟩

end RouteStubs.Body
