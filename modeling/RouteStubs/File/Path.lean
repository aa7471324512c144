import RouteStubs.Text.Case

/-!
# Paths

A path names a file or a directory, from the root or from the directory that one is in. Empty
segments and single points mean nothing and are left out; double points are kept, for what they mean
depends on the files.

## Main definitions

* `Path`: the paths, `Path.read` and `Path.text`.
* `Path.join`: a path inside a directory.
* `Path.suffix`: the suffix of the last name.
-/

namespace RouteStubs

/-- A path: its root, which is empty for a path from where one is, and the segments from there. -/
structure Path where
  /-- The root. -/
  root : String
  /-- The segments. -/
  segments : List String
  deriving DecidableEq, Repr

namespace Path

/-- The root at the start of a path. Two slashes are a root of their own, but three are as good as
one. -/
def rootOf (s : List Char) : String :=
  match s with
  | '/' :: '/' :: '/' :: _ => "/"
  | '/' :: '/' :: _ => "//"
  | '/' :: _ => "/"
  | _ => ""

/-- The path that a text writes. -/
def read (s : String) : Path :=
  ⟨rootOf s.toList, (Text.split '/' s).filter fun p => p != "" && p != "."⟩

/-- A path in writing. -/
def text (p : Path) : String :=
  let s := p.root ++ "/".intercalate p.segments
  if s == "" then "." else s

/-- The path `q` inside the directory `p`. -/
def join (p q : Path) : Path :=
  if q.root == "" then ⟨p.root, p.segments ++ q.segments⟩ else q

/-- The directory that a path is in. -/
def parent (p : Path) : Path := ⟨p.root, p.segments.dropLast⟩

/-- The suffix of the last name, from its last point on. A name does not start with its suffix, and
a point at the end is none. -/
def suffix (p : Path) : List Char :=
  let name := (p.segments.getLastD "").toList
  let after := (name.reverse.takeWhile (· != '.')).reverse
  if after.isEmpty || name.length < after.length + 2 then [] else '.' :: after

end Path

end RouteStubs
