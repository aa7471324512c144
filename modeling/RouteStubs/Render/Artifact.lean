import RouteStubs.Name.Style

/-!
# Generated files

What the generated files have in common: a path, a text that is made of lines, and a description
for the log.

## Main definitions

* `Artifact`: a generated file.
* `Artifact.lines`: a text made of lines.
* `Artifact.moduleName`: the name under which a generated file is imported.
-/

namespace RouteStubs

/-- A generated file. -/
structure Artifact where
  /-- The path, relative to the output directory. -/
  path : String
  /-- The text. -/
  content : String
  /-- What the file holds. -/
  description : String
  deriving DecidableEq, Repr

namespace Artifact

/-- A text made of lines, each with its end. -/
def lines (ls : List String) : String := String.join (ls.map (· ++ "\n"))

/-- The last part of a path. -/
def fileName (path : List Char) : List Char :=
  (path.reverse.takeWhile (· != '/')).reverse

/-- The name under which a generated file is imported: that of the file, without its suffix, as far
as it can be used. -/
def moduleName (path : String) : String :=
  let file := fileName path.toList
  let stem := if ".py".toList.isSuffixOf file then file.take (file.length - 3) else file
  match Name.segmentChars stem with
  | [] => "types"
  | kept => String.ofList kept

end Artifact

end RouteStubs
