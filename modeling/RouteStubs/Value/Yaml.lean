import RouteStubs.Value.YamlScalar

/-!
# Reading YAML

A reader for the part of YAML that documents are written in: block mappings and sequences, flow
collections, plain scalars and quoted ones, over one or several lines, with comments. Anchors,
tags, block scalars, explicit keys and directives are refused, and so is a tab outside quotes.

## Main definitions

* `Yaml.Cursor`: where a reader stands.
* `Yaml.plainText`, `Yaml.singleQuoted`, `Yaml.doubleQuoted`: scalars.
* `Yaml.flowNode`: flow collections and scalars inside them.
* `Yaml.blockNode`: block collections and what stands at their places.
* `Yaml.read?`: reads a whole text of one document.
-/

namespace RouteStubs.Yaml

open Text

/-- Where a reader stands. -/
structure Cursor where
  /-- The text that is left. -/
  rest : List Char
  /-- The number of characters of the line that have been read. -/
  column : Nat
  /-- Whether only blanks have been read from the line. -/
  fresh : Bool
  /-- The identity of the next mapping. -/
  next : Nat

/-- A reader of a part of a text; it fails without saying where. -/
abbrev Reader (α : Type) := StateT Cursor Option α

/-- The characters that end a line. -/
def isBreak (c : Char) : Bool :=
  c == '\n' || c == '\r' || c.toNat == 0x85 || c.toNat == 0x2028 || c.toNat == 0x2029

/-- Whether a text is at an end of a line, or goes on with a space or a tab. -/
def atBlank : List Char → Bool
  | [] => true
  | c :: _ => c == ' ' || c == '\t' || isBreak c

/-- The characters that structure a flow collection. -/
def isFlowMark (c : Char) : Bool := c == ',' || c == '[' || c == ']' || c == '{' || c == '}'

/-- The text that is left. -/
def ahead : Reader (List Char) := do pure (← get).rest

/-- Takes characters of the line, given as the text after them. -/
def taken (count : Nat) (rest : List Char) : Reader Unit :=
  modify fun s => { s with rest := rest, column := s.column + count, fresh := false }

/-- Takes the next character if it is `c`. -/
def take? (c : Char) : Reader Bool := do
  match ← ahead with
  | d :: rest =>
    if d = c then
      taken 1 rest
      pure true
    else pure false
  | [] => pure false

/-- The identity of a new mapping. -/
def newOrigin : Reader Nat := do
  let s ← get
  set { s with next := s.next + 1 }
  pure s.next

/-- Skips spaces, comments and ends of lines: what is left, its column, and whether only blanks
stand before it on its line. -/
def gapFrom (comment : Bool) (column : Nat) (fresh : Bool) : List Char → List Char × Nat × Bool
  | [] => ([], column, fresh)
  | c :: rest =>
    if isBreak c then gapFrom false 0 true rest
    else if comment || c == '#' then gapFrom true column fresh rest
    else if c == ' ' then gapFrom false (column + 1) fresh rest
    else (c :: rest, column, fresh)

/-- Moves to the next token. -/
def gap : Reader Unit :=
  modify fun s =>
    let (rest, column, fresh) := gapFrom false s.column s.fresh s.rest
    { s with rest := rest, column := column, fresh := fresh }

/-- Skips spaces. -/
def spaces : Reader Unit :=
  modify fun s =>
    let blanks := s.rest.takeWhile (· == ' ')
    { s with rest := s.rest.dropWhile (· == ' '), column := s.column + blanks.length }

/-! ### Scalars -/

/-- The part of a plain scalar on one line, and the text after it. Spaces that do not lead to more
of the scalar are left, as is a comment after them. -/
def plainLine (flow : Bool) : (pending : List Char) → List Char → List Char × List Char
  | pending, [] => ([], pending.reverse)
  | pending, c :: rest =>
    let stop : Bool := isBreak c || c == '\t' ||
      (c == ':' && (atBlank rest || (flow && (rest.head?.map isFlowMark).getD false))) ||
      (flow && (isFlowMark c || c == '?')) || (c == '#' && !pending.isEmpty)
    if stop then ([], pending.reverse ++ c :: rest)
    else if c == ' ' then plainLine flow (c :: pending) rest
    else
      let (more, after) := plainLine flow [] rest
      (pending.reverse ++ c :: more, after)

/-- The number of ends of lines before the next character that is no blank, what follows them, and
the column there. -/
def breaksFrom (count column : Nat) : List Char → Nat × Nat × List Char
  | [] => (count, column, [])
  | c :: rest =>
    if c == ' ' then breaksFrom count (column + 1) rest
    else if isBreak c then breaksFrom (count + 1) 0 rest
    else (count, column, c :: rest)

/-- How ends of lines inside a scalar read: one is a space, and of several the first is dropped. -/
def folded (count : Nat) : List Char :=
  if count = 1 then [' '] else List.replicate (count - 1) '\n'

/-- A plain scalar; in a block, lines that start at the column `least` or later go on with it. -/
def plainText (flow : Bool) (least : Nat) : (steps : Nat) → Reader (List Char)
  | 0 => failure
  | steps + 1 => do
    let (part, rest) := plainLine flow [] (← ahead)
    taken part.length rest
    if part.isEmpty then return []
    let (count, column, after) := breaksFrom 0 (← get).column rest
    let goesOn : Bool := 0 < count && (flow || least ≤ column) && (match after with
      | [] => false
      | c :: more => c != '#' && c != '\t' && !(flow && isFlowMark c) &&
          !(c == ':' && (atBlank more || (flow && (more.head?.map isFlowMark).getD false))))
    if !goesOn then return part
    modify fun s => { s with rest := after, column := column, fresh := true }
    let more ← plainText flow least steps
    return part ++ folded count ++ more

/-- Whether a plain scalar may start here. -/
def startsPlain (flow : Bool) : List Char → Bool
  | [] => false
  | c :: rest =>
    if c == '-' then !atBlank rest
    else if c == '?' || c == ':' then !flow && !atBlank rest
    else !(isBreak c || c == ' ' || c == '\t' || isFlowMark c ||
      "#&*!|>%@\"`".toList.contains c || c.toNat == 39)

/-- Blanks and ends of lines inside quotes, before the character at which the text goes on. -/
def quotedBlanks (s : List Char) : List Char × List Char :=
  let isInner (c : Char) : Bool := c == ' ' || c == '\t'
  let blanks := s.takeWhile isInner
  let after := s.dropWhile isInner
  match after with
  | c :: rest =>
    if isBreak c then
      let tail := rest.dropWhile (fun d => isInner d || isBreak d)
      let count := ((rest.take (rest.length - tail.length)).filter isBreak).length
      (folded (count + 1), tail)
    else (blanks, after)
  | [] => (blanks, [])

/-- The text of a single-quoted scalar after its opening quote, and what follows it. -/
def singleQuoted : (steps : Nat) → List Char → Option (List Char × List Char)
  | 0, _ => none
  | steps + 1, s =>
    match s with
    | [] => none
    | c :: rest =>
      if c.toNat == 39 then
        match rest with
        | d :: more =>
          if d.toNat == 39 then (singleQuoted steps more).map fun (t, after) => (c :: t, after)
          else some ([], rest)
        | [] => some ([], [])
      else if c == ' ' || c == '\t' || isBreak c then
        let (blanks, after) := quotedBlanks s
        (singleQuoted steps after).map fun (t, rest) => (blanks ++ t, rest)
      else (singleQuoted steps rest).map fun (t, after) => (c :: t, after)

/-- The character of a one-letter escape. -/
def shortEscape? (c : Char) : Option Char :=
  match c with
  | '0' => some (Char.ofNat 0)
  | 'a' => some (Char.ofNat 7)
  | 'b' => some (Char.ofNat 8)
  | 't' => some '\t'
  | '\t' => some '\t'
  | 'n' => some '\n'
  | 'v' => some (Char.ofNat 11)
  | 'f' => some (Char.ofNat 12)
  | 'r' => some '\r'
  | 'e' => some (Char.ofNat 27)
  | ' ' => some ' '
  | '"' => some '"'
  | '\\' => some '\\'
  | '/' => some '/'
  | 'N' => some (Char.ofNat 0x85)
  | '_' => some (Char.ofNat 0xa0)
  | 'L' => some (Char.ofNat 0x2028)
  | 'P' => some (Char.ofNat 0x2029)
  | _ => none

/-- The number of hexadecimal digits after the letter of an escape. -/
def escapeWidth? (c : Char) : Option Nat :=
  match c with
  | 'x' => some 2
  | 'u' => some 4
  | 'U' => some 8
  | _ => none

/-- The text of a double-quoted scalar after its opening quote, and what follows it. -/
def doubleQuoted : (steps : Nat) → List Char → Option (List Char × List Char)
  | 0, _ => none
  | steps + 1, s =>
    match s with
    | [] => none
    | c :: rest =>
      if c == '"' then some ([], rest)
      else if c == '\\' then
        match rest with
        | [] => none
        | e :: more =>
          if isBreak e then
            doubleQuoted steps (more.dropWhile fun d => d == ' ' || d == '\t')
          else match escapeWidth? e with
            | some width => do
              guard (width ≤ more.length)
              let code ← Json.hexNumber? (more.take width)
              let (t, after) ← doubleQuoted steps (more.drop width)
              pure (Json.joinUnits [code] ++ t, after)
            | none => do
              let d ← shortEscape? e
              let (t, after) ← doubleQuoted steps more
              pure (d :: t, after)
      else if c == ' ' || c == '\t' || isBreak c then
        let (blanks, after) := quotedBlanks s
        (doubleQuoted steps after).map fun (t, rest) => (blanks ++ t, rest)
      else (doubleQuoted steps rest).map fun (t, after) => (c :: t, after)

/-- Takes a quoted scalar, given its text and what follows it. -/
def quotedTaken (text rest : List Char) : Reader Value := do
  let s ← get
  let used := s.rest.take (s.rest.length - rest.length)
  let lastLine := used.reverse.takeWhile (fun c => !isBreak c)
  let column := if lastLine.length == used.length then s.column + used.length else lastLine.length
  set { s with rest := rest, column := column, fresh := false }
  pure (.text (String.ofList text))

/-- The scalar that stands here. -/
def scalar (flow : Bool) (least : Nat) : Reader Value := do
  let s ← ahead
  match s with
  | [] => failure
  | c :: rest =>
    if c == '"' then
      match doubleQuoted (rest.length + 1) rest with
      | some (text, after) => quotedTaken text after
      | none => failure
    else if c.toNat == 39 then
      match singleQuoted (rest.length + 1) rest with
      | some (text, after) => quotedTaken text after
      | none => failure
    else if startsPlain flow s then
      let text ← plainText flow least (s.length + 1)
      pure (.scalar (plainScalar (String.ofList text)))
    else failure

/-- The key that a node is, if it is a scalar. -/
def key : Value → Reader Scalar
  | .scalar s => pure s
  | _ => failure

/-! ### Flow collections -/

/-- Takes the mark between a key and its value, if it stands on the line of the key. -/
def flowColon? : Reader Bool := do
  spaces
  take? ':'

mutual

/-- A node inside a flow collection, or a flow collection itself. -/
def flowNode : (steps : Nat) → Reader Value
  | 0 => failure
  | steps + 1 => do
    if ← take? '[' then
      gap
      return .list (← flowItems steps)
    if ← take? '{' then
      let origin ← newOrigin
      gap
      return .mapping origin (Entries.ofPairs (← flowPairs steps))
    scalar true 0

/-- The items of a flow sequence, up to its closing bracket. -/
def flowItems : (steps : Nat) → Reader (List Value)
  | 0 => failure
  | steps + 1 => do
    if ← take? ']' then return []
    let node ← flowNode steps
    let item ← do
      if ← flowColon? then
        let origin ← newOrigin
        gap
        let v ← flowValue steps
        pure (Value.mapping origin [(← key node, v)])
      else pure node
    gap
    if ← take? ']' then return [item]
    guard (← take? ',')
    gap
    return item :: (← flowItems steps)

/-- The value after a key in a flow collection, which may be left out. -/
def flowValue : (steps : Nat) → Reader Value
  | 0 => failure
  | steps + 1 => do
    match ← ahead with
    | c :: _ => if c == ',' || c == ']' || c == '}' then pure .null else flowNode steps
    | [] => failure

/-- The pairs of a flow mapping, up to its closing brace. -/
def flowPairs : (steps : Nat) → Reader (List (Scalar × Value))
  | 0 => failure
  | steps + 1 => do
    if ← take? '}' then return []
    let k ← key (← flowNode steps)
    let v ← do
      if ← flowColon? then
        gap
        flowValue steps
      else pure .null
    gap
    if ← take? '}' then return [(k, v)]
    guard (← take? ',')
    gap
    return (k, v) :: (← flowPairs steps)

end

/-! ### Block collections -/

/-- Whether a block sequence goes on here: a dash and a blank. -/
def atDash : List Char → Bool
  | '-' :: rest => atBlank rest
  | _ => false

/-- Whether the mark between a key and its value stands here: a colon and a blank. -/
def atColon : List Char → Bool
  | ':' :: rest => atBlank rest
  | _ => false

/-- A scalar or a flow collection, and whether it ends on the line it starts on. -/
def leaf (least steps : Nat) : Reader (Value × Bool) := do
  let s ← ahead
  let v ← match s with
    | c :: _ => if c == '[' || c == '{' then flowNode steps else scalar false least
    | [] => failure
  let after ← ahead
  spaces
  pure (v, !(s.take (s.length - after.length)).any isBreak)

mutual

/-- The node at the cursor. Plain scalars go on at the column `least` or later. -/
def blockNode (least : Nat) : (steps : Nat) → Reader Value
  | 0 => failure
  | steps + 1 => do
    let column := (← get).column
    if atDash (← ahead) then
      return .list (← blockItems column steps)
    let origin ← newOrigin
    let (v, oneLine) ← leaf least steps
    if atColon (← ahead) then
      guard oneLine
      let k ← key v
      return .mapping origin (Entries.ofPairs (← blockPairs column k steps))
    pure v

/-- The items of a block sequence whose dashes stand in a column. -/
def blockItems (column : Nat) : (steps : Nat) → Reader (List Value)
  | 0 => failure
  | steps + 1 => do
    guard (← take? '-')
    spaces
    gap
    let s ← get
    let item ←
      if s.rest.isEmpty || s.column ≤ column then pure Value.null
      else blockNode (column + 1) steps
    gap
    let s ← get
    if s.rest.isEmpty || s.column < column then return [item]
    guard (s.fresh && s.column == column)
    if atDash s.rest then return item :: (← blockItems column steps)
    return [item]

/-- The pairs of a block mapping whose keys stand in a column, from the colon after the key `k`. -/
def blockPairs (column : Nat) (k : Scalar) : (steps : Nat) → Reader (List (Scalar × Value))
  | 0 => failure
  | steps + 1 => do
    guard (← take? ':')
    spaces
    gap
    let s ← get
    let v ←
      if s.rest.isEmpty || (s.fresh && s.column < column) then pure Value.null
      else if !s.fresh then do
        guard (!atDash s.rest)
        let (v, _) ← leaf (column + 1) steps
        guard (!atColon (← ahead))
        pure v
      else if s.column == column then
        if atDash s.rest then do
          pure (Value.list (← blockItems column steps))
        else pure Value.null
      else blockNode (column + 1) steps
    gap
    let s ← get
    if s.rest.isEmpty || s.column < column then return [(k, v)]
    guard (s.fresh && s.column == column && !atDash s.rest)
    let (next, oneLine) ← leaf (column + 1) steps
    guard (oneLine && atColon (← ahead))
    let k' ← key next
    return (k, v) :: (← blockPairs column k' steps)

end

/-- The characters that may stand in a text. -/
def isAllowed (c : Char) : Bool :=
  let n := c.toNat
  n == 9 || n == 10 || n == 13 || (0x20 ≤ n && n ≤ 0x7e) || n == 0x85 ||
    (0xa0 ≤ n && n ≤ 0xfffd) || 0x10000 ≤ n

/-- Takes a line that marks the start or the end of a document, if it stands here. -/
def marker? (mark : List Char) : Reader Bool := do
  let s ← get
  if s.column == 0 && mark.isPrefixOf s.rest && atBlank (s.rest.drop 3) then
    taken 3 (s.rest.drop 3)
    pure true
  else pure false

/-- One document and nothing else. A text without a node is null. -/
def document (steps : Nat) : Reader Value := do
  gap
  let _ ← marker? ['-', '-', '-']
  gap
  if (← ahead).isEmpty then return .null
  let v ← blockNode 0 steps
  gap
  let _ ← marker? ['.', '.', '.']
  gap
  guard (← ahead).isEmpty
  pure v

/-- The value that a text writes. -/
def read? (s : String) : Option Value :=
  let chars := match s.toList with
    | c :: rest => if c.toNat == 0xfeff then rest else c :: rest
    | [] => []
  if chars.all isAllowed then
    ((document (chars.length + 2)).run ⟨chars, 0, true, 0⟩).map Prod.fst
  else none

end RouteStubs.Yaml
