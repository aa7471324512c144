import RouteStubs.Text.Digit
import RouteStubs.Text.Quoted
import RouteStubs.Value.Json

/-!
# Addresses

The address of a service, taken apart and in its normal form: scheme and host in small letters, no
socket number that the scheme implies, no single or double points among the segments of the path,
and percent signs for all that may not stand there itself.

## Main definitions

* `Address`: the parts of an address.
* `Address.read?`: the address that a text writes.
* `Address.text`: an address in writing.
* `Address.credentials?`: the name and the password in an address.
-/

namespace RouteStubs

open Text

/-- The parts of an address. -/
structure Address where
  /-- The scheme; empty if there is none. -/
  scheme : String
  /-- The name and the password; empty if there are none. -/
  user : String
  /-- The host; empty if there is none. -/
  host : String
  /-- The number of the socket, unless it is that of the scheme. -/
  socket : Option Int
  /-- The path. -/
  path : String
  /-- What follows a question mark. -/
  query : Option String
  /-- What follows a hash. -/
  fragment : Option String
  deriving DecidableEq, Repr

namespace Address

/-! ### Percent signs -/

/-- The bytes of a character. -/
def bytesOf (c : Char) : List Nat := (String.toUTF8 (String.ofList [c])).toList.map UInt8.toNat

/-- A byte behind a percent sign. -/
def percent (byte : Nat) : List Char := '%' :: (hexDigits 2 byte).map Char.toUpper

/-- A printable ASCII character outside a set. -/
def isOutside (set : String) (c : Char) : Bool := 32 < c.toNat && c.toNat < 127 && !set.contains c

/-- Replaces each character that may not stand for itself by its bytes. What is written with percent
signs stays as it is. -/
def quote (safe : Char → Bool) : List Char → List Char
  | '%' :: a :: b :: rest =>
    if (Json.hexNumber? [a, b]).isSome then '%' :: a :: b :: quote safe rest
    else (if safe '%' then ['%'] else percent 37) ++ quote safe (a :: b :: rest)
  | c :: rest =>
    (if safe c then [c] else (bytesOf c).flatMap percent) ++ quote safe rest
  | [] => []

/-- A character that stands for itself everywhere. -/
def isUnreserved (c : Char) : Bool :=
  isCapital c || isSmall c || isAsciiDigit c || ['-', '.', '_', '~'].contains c

/-- The characters that may stand in a host. -/
def hostSafe (c : Char) : Bool := isUnreserved c || "!$&'()*+,;=\"`\x7b\x7d%|\\".contains c

/-- The characters that may stand in a name or a password. -/
def userSafe : Char → Bool := isOutside "\"#<>?`\x7b\x7d/;=@[\\]^|"

/-- The characters that may stand in a path. -/
def pathSafe : Char → Bool := isOutside "\"#<>?`\x7b\x7d"

/-- The characters that may stand in a query. -/
def querySafe : Char → Bool := isOutside "\"#<>"

/-- The characters that may stand in a fragment. -/
def fragmentSafe : Char → Bool := isOutside "\"<>`"

/-! ### Hosts -/

/-- Runs of digits with `between` single characters between them. -/
def isDigitRuns : (between : Nat) → (digit : Bool) → List Char → Bool
  | 0, digit, [] => digit
  | _ + 1, _, [] => false
  | 0, _, c :: rest => isAsciiDigit c && isDigitRuns 0 true rest
  | n + 1, digit, c :: rest =>
    (isAsciiDigit c && isDigitRuns (n + 1) true rest) || (digit && isDigitRuns n false rest)

/-- A number from 0 to 255 without leading zeros. -/
def isOctet (s : List Char) : Bool :=
  s.all isAsciiDigit && !s.isEmpty && s.length ≤ 3 && (s.length == 1 || s.head? != some '0') &&
    Json.digitsValue s ≤ 255

/-- Four numbers from 0 to 255 with points between them. -/
def isFourOctets (s : List Char) : Bool :=
  let parts := pieces '.' s
  parts.length == 4 && parts.all isOctet

/-- A group of one to four hexadecimal digits. -/
def isHexGroup (s : List Char) : Bool :=
  !s.isEmpty && s.length ≤ 4 && s.all fun c => (Json.hexValue? c).isSome

/-- How many groups parts between colons count for, if they are groups; four octets at the end count
for two. -/
def groupCount? (s : List Char) : Option Nat :=
  if s.isEmpty then some 0
  else
    let parts := pieces ':' s
    let last := parts.getLastD []
    if parts.dropLast.all isHexGroup then
      if isHexGroup last then some parts.length
      else if isFourOctets last then some (parts.length + 1)
      else none
    else none

/-- Where two colons first stand together: what is before them and what is after. -/
def doubleColon? : List Char → Option (List Char × List Char)
  | ':' :: ':' :: rest => some ([], rest)
  | c :: rest => (doubleColon? rest).map fun (before, after) => (c :: before, after)
  | [] => none

/-- Eight groups of hexadecimal digits with colons between them, of which two colons may leave out
some, and possibly a zone after a percent sign. -/
def isEightGroups (s : List Char) : Bool :=
  let digits := s.takeWhile (· != '%')
  let zone := s.drop (digits.length + 1)
  let zoneFits := digits.length == s.length || (!zone.isEmpty && !zone.contains '%')
  zoneFits && match doubleColon? digits with
    | none => groupCount? digits == some 8
    | some (before, after) =>
      match groupCount? before, groupCount? after with
      | some m, some n => m + n < 8 && !before.contains '.'
      | _, _ => false

/-- The normal form of a host. One that looks like the number of a host has to be one. -/
def normalHost? (s : List Char) : Option (List Char) :=
  if isDigitRuns 3 false s then if isFourOctets s then some s else none
  else if s.head? == some '[' && s.getLast? == some ']' then
    let inner := (s.drop 1).dropLast
    if isEightGroups inner then some inner else none
  else if s.all (·.toNat < 128) then some (quote hostSafe (s.map Char.toLower))
  else some (s.map Char.toLower)

/-! ### Sockets and paths -/

/-- The socket number of a scheme. -/
def socketOf? (scheme : String) : Option Int :=
  [("ftp", 21), ("http", 80), ("https", 443), ("ws", 80), ("wss", 443)].lookup scheme

/-- The normal form of a socket number, or nothing if it is no number. -/
def normalSocket? (scheme : String) (s : List Char) : Option (Option Int) :=
  if s.isEmpty then some none
  else (readInt? s).map fun n => if socketOf? scheme == some n then none else some n

/-- The segments of a path without single points, and without double points and the segments before
them. -/
def withoutPoints (segments : List (List Char)) : List (List Char) :=
  segments.foldl (fun kept segment =>
    if segment == ['.'] then kept
    else if segment == ['.', '.'] then if kept == [[]] then kept else kept.dropLast
    else kept ++ [segment]) []

/-- The normal form of a path. -/
def normalPath (s : List Char) : List Char :=
  ['/'].intercalate (withoutPoints (pieces '/' s))

/-! ### Reading -/

/-- A character that may stand in a scheme after its first one. -/
def isSchemeChar (c : Char) : Bool :=
  isCapital c || isSmall c || isAsciiDigit c || c == '+' || c == '.' || c == '-'

/-- The scheme at the start of an address, and what follows it. -/
def scheme? (s : List Char) : List Char × List Char :=
  let (letters, rest) := s.span isSchemeChar
  let starts := match letters with
    | [] => true
    | c :: _ => isCapital c || isSmall c
  match rest with
  | ':' :: after => if starts then (letters, after) else ([], s)
  | _ => ([], s)

/-- The part of an address before the first of some marks, and what follows it. -/
def upTo (marks : String) (s : List Char) : List Char × List Char :=
  s.span fun c => !marks.contains c

/-- The name and password, the host and the socket number of an authority. -/
def authority (s : List Char) : List Char × List Char × List Char :=
  let hostAndSocket := (s.reverse.takeWhile (· != '@')).reverse
  let user := s.take (s.length - hostAndSocket.length - 1)
  let bracketed := ((hostAndSocket.reverse.dropWhile (· != ']'))).reverse
  let host :=
    if hostAndSocket.head? == some '[' && !bracketed.isEmpty then bracketed
    else hostAndSocket.takeWhile (· != ':')
  let after := hostAndSocket.drop host.length
  (user, host, if after.head? == some ':' then after.drop 1 else after)

/-- Whether a path may follow what is before it. -/
def pathFits (hasScheme hasAuthority : Bool) (path : List Char) : Bool :=
  (!hasAuthority || path.isEmpty || path.head? == some '/') &&
    (hasScheme || hasAuthority || (!(['/', '/'].isPrefixOf path) && path.head? != some ':'))

/-- The greatest length of an address. -/
def maxLength : Nat := 65536

/-- The address that a text writes. -/
def read? (s : String) : Option Address := do
  let text := s.toList
  guard (text.length ≤ maxLength && text.all fun c => 32 ≤ c.toNat && c.toNat != 127)
  let (scheme, rest) := scheme? text
  let (authorityPart, rest) := if ['/', '/'].isPrefixOf rest then upTo "/?#" (rest.drop 2)
    else ([], rest)
  let (path, rest) := upTo "?#" rest
  let (query, rest) := match rest with
    | '?' :: after => let (q, r) := upTo "#" after; (some q, r)
    | _ => (none, rest)
  let fragment := if rest.isEmpty then none else some (rest.drop 1)
  let (user, host, socket) := authority authorityPart
  let host ← normalHost? host
  let socket ← normalSocket? (String.ofList scheme) socket
  let hasScheme := !scheme.isEmpty
  let hasAuthority := !user.isEmpty || !host.isEmpty || socket.isSome
  guard (pathFits hasScheme hasAuthority path)
  let path := if hasScheme || hasAuthority then normalPath path else path
  pure {
    scheme := String.ofList (scheme.map Char.toLower)
    user := String.ofList (quote userSafe user)
    host := String.ofList host
    socket := socket
    path := String.ofList (quote pathSafe path)
    query := query.map fun q => String.ofList (quote querySafe q)
    fragment := fragment.map fun f => String.ofList (quote fragmentSafe f) }

/-- Whether an address names a host and how to reach it. -/
def isAbsolute (a : Address) : Bool := a.scheme != "" && a.host != ""

/-- An address that names no host, as a path from the root. -/
def fromRoot (a : Address) : Address :=
  let path := String.ofList ('/' :: trimLeft (· == '/') a.path.toList)
  ⟨"", "", "", none, path, a.query, none⟩

/-! ### Writing -/

/-- The authority of an address in writing. -/
def authorityText (a : Address) : String :=
  (if a.user == "" then "" else a.user ++ "@") ++
    (if a.host.contains ':' then "[" ++ a.host ++ "]" else a.host) ++
    (match a.socket with
      | none => ""
      | some n => ":" ++ toString n)

/-- An address in writing. -/
def text (a : Address) : String :=
  let authority := a.authorityText
  (if a.scheme == "" then "" else a.scheme ++ ":") ++
    (if authority == "" then "" else "//" ++ authority) ++ a.path ++
    (match a.query with
      | none => ""
      | some q => "?" ++ q) ++
    (match a.fragment with
      | none => ""
      | some f => "#" ++ f)

/-! ### Credentials -/

/-- The bytes that a text with percent signs writes. -/
def unquote : List Char → List Nat
  | '%' :: a :: b :: rest =>
    match Json.hexNumber? [a, b] with
    | some byte => byte :: unquote rest
    | none => 37 :: unquote (a :: b :: rest)
  | c :: rest => bytesOf c ++ unquote rest
  | [] => []

/-- The bytes of the name and the password in an address, with a colon between them, if there are
any. -/
def credentials? (a : Address) : Option (List Nat) :=
  let user := a.user.toList
  let name := user.takeWhile (· != ':')
  let password := user.drop (name.length + 1)
  if name.isEmpty && password.isEmpty then none
  else some (unquote name ++ 58 :: unquote password)

end Address

/-- The digits of base 64. -/
def base64Digits : List Char :=
  "ABCDEFGHIJKLMNOPQRSTUVWXYZabcdefghijklmnopqrstuvwxyz0123456789+/".toList

/-- The digit of base 64 with a value. -/
def base64Digit (n : Nat) : Char := base64Digits.getD (n % 64) '='

/-- Bytes in base 64: four digits for three bytes. -/
def base64 : List Nat → List Char
  | a :: b :: c :: rest =>
    base64Digit (a / 4) :: base64Digit (a * 16 + b / 16) :: base64Digit (b * 4 + c / 64) ::
      base64Digit c :: base64 rest
  | [a, b] => [base64Digit (a / 4), base64Digit (a * 16 + b / 16), base64Digit (b * 4), '=']
  | [a] => [base64Digit (a / 4), base64Digit (a * 16), '=', '=']
  | [] => []

end RouteStubs
