import RouteStubs.Text.Quoted

/-!
# Why a document is refused

Every failure of the library is one of these causes. The wording is in one place, `Fault.message`,
so that a cause can be told from its text.

## Main definitions

* `Defect`: parts of a document that are of a kind no rule provides for.
* `Fault`: the causes, with `Fault.code` and `Fault.message`.
-/

namespace RouteStubs

/-- What is wrong at the top level of a document. -/
inductive DocumentProblem where
  /-- The document is not a mapping. -/
  | rootNotMapping
  /-- A required field is not there. -/
  | missing (field : String)
  /-- The paths are not a mapping. -/
  | pathsNotMapping
  /-- The file cannot be read. -/
  | unreadable (name : String)
  /-- The text of the file is in no accepted format. -/
  | unparsable (name : String)
  deriving DecidableEq, Repr

/-- Why a pointer leads nowhere. -/
inductive BreakReason where
  /-- The fragment is not a pointer. -/
  | noSlash
  /-- A mapping has no such entry. -/
  | noEntry (segment : String)
  /-- A list has no such item. -/
  | badIndex (segment : String)
  /-- A value without parts is on the way. -/
  | noParts (segment : String)
  /-- The pointer leads to something that is not a mapping. -/
  | notObject
  /-- References lead back to one of themselves. -/
  | loop (references : List String)
  deriving DecidableEq, Repr

/-- Why the members of a composition make no record. -/
inductive CompositionProblem where
  /-- The members are not a list. -/
  | membersNotList
  /-- A member leads back to the schema that it is part of. -/
  | selfReferring (member : Nat)
  /-- A member is not a record. -/
  | notRecord (member : Nat)
  deriving DecidableEq, Repr

/-- Parts of a document that are of a kind no rule provides for. -/
inductive Defect where
  /-- A member is asked of a value that has no members. -/
  | noMembers
  /-- A value is of a kind that the rule at hand cannot use. -/
  | wrongKind
  /-- A name has no character that could stand in an identifier. -/
  | nothingNameable
  /-- The bytes of a file are no text. -/
  | undecodable
  /-- The address of the chat service is no address. -/
  | badAddress
  /-- The bound on the depth of references was too low; no document reaches it. -/
  | outOfSteps
  deriving DecidableEq, Repr

/-- Why a document is refused. -/
inductive Fault where
  /-- The document lacks what every document has to have. -/
  | invalidDocument (problem : DocumentProblem)
  /-- A pointer into the document leads nowhere. -/
  | brokenReference (pointer : String) (reason : BreakReason)
  /-- A reference does not point into the document. -/
  | unsupportedReference (pointer : String)
  /-- Two members of a composition give one field different types. -/
  | incompatibleMerge (schema field : String)
  /-- The members of a composition make no record. -/
  | unsupportedComposition (schema : String) (problem : CompositionProblem)
  /-- A part of the document is of a kind no rule provides for. -/
  | defect (kind : Defect)
  deriving DecidableEq, Repr

/-- The wording of a problem at the top level. -/
def DocumentProblem.message : DocumentProblem → String
  | .rootNotMapping => "Document root must be a mapping."
  | .missing field => "Missing required field: " ++ field
  | .pathsNotMapping => "Field 'paths' must be a mapping."
  | .unreadable name => "Cannot read " ++ name
  | .unparsable name => "Failed to parse " ++ name

/-- The wording of the reason why a pointer leads nowhere. -/
def BreakReason.message : BreakReason → String
  | .noSlash => "pointer must start with '#/'"
  | .noEntry segment => "no entry " ++ Text.quoted segment
  | .badIndex segment => "bad index " ++ Text.quoted segment
  | .noParts segment => "cannot descend into " ++ Text.quoted segment
  | .notObject => "target is not an object"
  | .loop references => "reference loop: " ++ " -> ".intercalate references

/-- The wording of the problem of a composition. -/
def CompositionProblem.message : CompositionProblem → String
  | .membersNotList => "allOf must be a list"
  | .selfReferring member =>
    "allOf member " ++ toString member ++ " refers back to the schema being merged"
  | .notRecord member => "allOf member " ++ toString member ++ " is not an object schema"

namespace Fault

/-- The code of a cause, for programs. -/
def code : Fault → String
  | .invalidDocument _ => "INVALID_DOCUMENT"
  | .brokenReference _ _ => "BROKEN_REFERENCE"
  | .unsupportedReference _ => "UNSUPPORTED_REFERENCE"
  | .incompatibleMerge _ _ => "INCOMPATIBLE_MERGE"
  | .unsupportedComposition _ _ => "UNSUPPORTED_COMPOSITION"
  | .defect _ => "DEFECT"

/-- The wording of a cause, for readers. -/
def message : Fault → String
  | .invalidDocument problem => problem.message
  | .brokenReference pointer reason =>
    "Broken reference: " ++ pointer ++ " (" ++ reason.message ++ ")"
  | .unsupportedReference pointer =>
    "Unsupported reference: " ++ pointer ++ " (only '#/...' pointers are supported)"
  | .incompatibleMerge schema field =>
    "Incompatible allOf merge in " ++ schema ++ ": field " ++ Text.quoted field ++
      " has conflicting types"
  | .unsupportedComposition schema problem =>
    "Unsupported composition in " ++ schema ++ ": " ++ problem.message
  | .defect .noMembers => "a value without members is used as a mapping"
  | .defect .wrongKind => "a value is of a kind that cannot be used here"
  | .defect .nothingNameable => "nothing in the text can stand in a name"
  | .defect .undecodable => "the file is not a text"
  | .defect .badAddress => "the address of the chat service is no address"
  | .defect .outOfSteps => "references are nested too deeply"

end Fault

end RouteStubs
