import RouteStubs.Text.PrintableTable
import RouteStubs.Text.Basic

/-!
# Quoted text

The literal form of a text: quotes around it, with backslash escapes for the quote, the backslash
and whatever cannot be printed. Single quotes are used unless the text holds a single quote and
no double one.

## Main definitions

* `isPrintable`: graphic characters and the space.
* `quoted`: the literal of a text.
-/

namespace RouteStubs.Text

/-- Graphic characters, and the ASCII space as the only blank. -/
def isPrintable (c : Char) : Bool :=
  let n := c.toNat
  if n < 128 then 32 ≤ n && n < 127 else inRanges printableRanges n

/-- A hexadecimal digit in lower case. -/
def hexDigit (n : Nat) : Char := Char.ofNat (if n < 10 then 48 + n else 87 + n)

/-- The last `width` hexadecimal digits of a number. -/
def hexDigits : (width : Nat) → Nat → List Char
  | 0, _ => []
  | width + 1, n => hexDigits width (n / 16) ++ [hexDigit (n % 16)]

/-- One character inside a literal delimited by `quote`. -/
def escapeChar (quote : Char) (c : Char) : List Char :=
  let n := c.toNat
  if c = quote || c = '\\' then ['\\', c]
  else if isPrintable c then [c]
  else if c = '\n' then ['\\', 'n']
  else if c = '\r' then ['\\', 'r']
  else if c = '\t' then ['\\', 't']
  else if n < 0x100 then '\\' :: 'x' :: hexDigits 2 n
  else if n < 0x10000 then '\\' :: 'u' :: hexDigits 4 n
  else '\\' :: 'U' :: hexDigits 8 n

/-- The single quote. -/
def singleQuote : Char := Char.ofNat 39

/-- The double quote. -/
def doubleQuote : Char := Char.ofNat 34

/-- The quote that delimits the literal of a text. -/
def quoteFor (s : List Char) : Char :=
  if singleQuote ∈ s && doubleQuote ∉ s then doubleQuote else singleQuote

/-- The literal of a text. -/
def quotedChars (s : List Char) : List Char :=
  let quote := quoteFor s
  quote :: (s.flatMap (escapeChar quote) ++ [quote])

/-- The literal of a string. -/
def quoted (s : String) : String := onChars quotedChars s

end RouteStubs.Text
