import RouteStubs.Document.Basic
import RouteStubs.File.Tree
import RouteStubs.Text.Lines
import RouteStubs.Value.Json
import RouteStubs.Value.Yaml

/-!
# Loading documents

A document is read from a file whose suffix says in which format it is.

## Main definitions

* `Document.isYaml`: whether a path is that of a YAML file.
* `Document.load`: the document in a file.
-/

namespace RouteStubs.Document

/-- Whether a path is that of a YAML file; all others hold JSON. -/
def isYaml (path : Path) : Bool :=
  let suffix := String.ofList (Text.lower path.suffix)
  suffix == ".yaml" || suffix == ".yml"

/-- The value that the text of a file writes. -/
def parse? (path : Path) (text : String) : Option Value :=
  let text := Text.onChars Text.lineFeeds text
  if isYaml path then Yaml.read? text else Json.read? text

/-- The document in a file. -/
def load (fs : Files) (name : String) : Except Fault Value := do
  let path := Path.read name
  match fs.read path with
  | .error _ => throw (.invalidDocument (.unreadable path.text))
  | .ok content =>
    match String.fromUTF8? content with
    | none => throw (.defect .undecodable)
    | some text =>
      match parse? path text with
      | none => throw (.invalidDocument (.unparsable path.text))
      | some document =>
        validate document
        return document

end RouteStubs.Document
