import RouteStubs.Fault
import RouteStubs.Text.Blank
import RouteStubs.Value.Basic

/-!
# Descriptions

Descriptions come from documents and go into comments and docstrings of the generated code. They
are cleaned first: tags are dropped and blanks collapsed, so that no line break is left; inside a
docstring, backslashes and quotes are escaped as well.

## Main definitions

* `Prose.withoutTags`: a text without what stands between angle brackets.
* `Prose.clean`: the normal form of a description.
* `Prose.ofValue`: the description that a document gives.
* `Prose.docstring`: a description that can stand inside a docstring.
-/

namespace RouteStubs.Prose

open Text

/-- The number of characters of a tag whose opening bracket has just been read: at least one
character that is no closing bracket, and then a closing bracket. -/
def tagLength? (s : List Char) : Option Nat :=
  let inner := s.takeWhile (· != '>')
  if inner.isEmpty || inner.length == s.length then none else some (inner.length + 1)

/-- `dropTags skip`: the text without tags, after `skip` more characters of the tag just met. -/
def dropTags : Nat → List Char → List Char
  | _, [] => []
  | skip + 1, _ :: rest => dropTags skip rest
  | 0, c :: rest =>
    if c = '<' then
      match tagLength? rest with
      | some n => dropTags n rest
      | none => c :: dropTags 0 rest
    else c :: dropTags 0 rest

/-- The text without its tags, each from an opening bracket to the next closing one. -/
def withoutTags (s : List Char) : List Char := dropTags 0 s

/-- The normal form of a description: no tags, single spaces between words, none at the ends. -/
def cleanChars (s : List Char) : List Char := strip (collapse (withoutTags s))

/-- The normal form of a description. -/
def clean (s : String) : String := onChars cleanChars s

/-- The description that a document gives. What counts as not given is empty, and what is given has
to be a text. -/
def ofValue : Value → Except Fault String
  | .scalar (.text s) => .ok (clean s)
  | other => if other.isTrue then .error (.defect .wrongKind) else .ok ""

/-- The description under a key of a mapping. -/
def ofMember (entries : Entries) (key : String) : Except Fault String :=
  match entries.text? key with
  | some v => ofValue v
  | none => .ok ""

/-- A text with a double quote at its end escaped. -/
def escapeLastQuote (s : List Char) : List Char :=
  match s.reverse with
  | [] => []
  | c :: before => if c = '"' then before.reverse ++ ['\\', '"'] else s

/-- A description inside a docstring: backslashes are doubled, and a quote at the end and each run
of three quotes are escaped, so that the docstring ends where its own quotes say. -/
def docstringChars (s : List Char) : List Char :=
  replace ['"', '"', '"'] ['\\', '"', '\\', '"', '\\', '"']
    (escapeLastQuote (replace ['\\'] ['\\', '\\'] (cleanChars s)))

/-- A description inside a docstring. -/
def docstring (s : String) : String := onChars docstringChars s

end RouteStubs.Prose
