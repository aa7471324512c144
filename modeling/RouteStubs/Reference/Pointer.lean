import RouteStubs.Fault
import RouteStubs.Text.Basic
import RouteStubs.Value.Written

/-!
# Pointers into a document

A reference into the document is a `#` and a pointer: a slash before each segment, with `~1` for a
slash inside a segment and `~0` for a tilde.

## Main definitions

* `Pointer.escape`, `Pointer.unescape`: a segment as it is written, and back.
* `Pointer.segments`: the segments of a reference.
-/

namespace RouteStubs.Pointer

open Text

/-- A segment as it is written in a pointer. -/
def escapeChars (s : List Char) : List Char :=
  replace ['/'] ['~', '1'] (replace ['~'] ['~', '0'] s)

/-- The segment that a pointer writes. -/
def unescapeChars (s : List Char) : List Char :=
  replace ['~', '0'] ['~'] (replace ['~', '1'] ['/'] s)

/-- A segment as it is written in a pointer. -/
def escape (s : String) : String := onChars escapeChars s

/-- The segment that a pointer writes. -/
def unescape (s : String) : String := onChars unescapeChars s

/-- The segments of a reference into the document. The reference `#` alone is the document. -/
def segments (ref : String) : Except Fault (List String) :=
  match ref.toList with
  | ['#'] => .ok []
  | '#' :: '/' :: rest => .ok ((pieces '/' rest).map fun s => String.ofList (unescapeChars s))
  | '#' :: _ => .error (.brokenReference ref .noSlash)
  | _ => .error (.unsupportedReference ref)

/-- The segments of a reference as it stands in a document, where it may be anything. -/
def segmentsOf : Value → Except Fault (List String)
  | .scalar (.text ref) => segments ref
  | other => .error (.unsupportedReference other.display)

end RouteStubs.Pointer
