import RouteStubs.Proofs.Resolver
import RouteStubs.Proofs.Schema.References
import RouteStubs.Proofs.Shape.Throughout

/-!
# Schemas that no rule provides for

A document may hold any value under any key. The rules pass over most values that are of no use to
them, but not over all: they refuse a list or a mapping among the names that are required, a
description that is given and is no text, a reference that is a list or a mapping, and a null member of
a composition. A union that has to be put aside is refused as well if a format in it is a list or a
mapping. What these rules refuse has no cause of its own among the causes for refusing a document.

## Main definitions

* `Fault.isForeseen`: the causes that the rules for schemas provide for.
* `Canon.Unforeseen`: a schema is such that a rule refuses it for no cause of its own.
* `Canon.HasLooseFormat`: somewhere in a value a format is a list or a mapping.

## Main statements

* `Shape.isKey_of_formatted`: a shape can be looked up if its formats can.
-/

namespace RouteStubs

/-- Whether a cause is one that the rules for schemas provide for. -/
def Fault.isForeseen : Fault → Bool
  | .brokenReference _ _ => true
  | .unsupportedReference _ => true
  | .incompatibleMerge _ _ => true
  | .unsupportedComposition _ _ => true
  | _ => false

/-! ### Formats -/

namespace Shape

/-- A format in the shape itself can be looked up, unless formats are loose. -/
def Formatted (loose : Prop) : Shape → Prop
  | .primitive _ format => format.isKey = true ∨ loose
  | _ => True

mutual

/-- A shape can be looked up if its formats can. -/
theorem isKey_of_formatted : ∀ {node : Shape}, node.Throughout (Formatted False) →
    node.isKey = true
  | .primitive _ _, h => h.self.resolve_right id
  | .record fields trailer _ _, h => by
    obtain ⟨hf, ht⟩ := below_record.mp h.below
    rw [isKey, Bool.and_eq_true]
    exact ⟨areFieldKeys_of_formatted hf, isTrailerKey_of_formatted ht⟩
  | .array element, h => by
    rw [isKey]
    exact isKey_of_formatted (below_array.mp h.below)
  | .union variants _, h => by
    rw [isKey]
    exact areKeys_of_formatted (below_union.mp h.below)
  | .enum _, _ => rfl
  | .handle _, _ => rfl
  | .unknown, _ => rfl

theorem areFieldKeys_of_formatted : ∀ {fields : List (Field Shape)},
    (∀ f ∈ fields, f.node.Throughout (Formatted False)) → areFieldKeys fields = true
  | [], _ => rfl
  | ⟨_, node, _, _⟩ :: rest, h => by
    obtain ⟨hf, hr⟩ := List.forall_mem_cons.mp h
    rw [areFieldKeys, Bool.and_eq_true]
    exact ⟨isKey_of_formatted hf, areFieldKeys_of_formatted hr⟩

theorem isTrailerKey_of_formatted : ∀ {trailer : Option Shape},
    (∀ tail, trailer = some tail → tail.Throughout (Formatted False)) → isTrailerKey trailer = true
  | none, _ => rfl
  | some _, h => isKey_of_formatted (h _ rfl)

theorem areKeys_of_formatted : ∀ {nodes : List Shape},
    (∀ node ∈ nodes, node.Throughout (Formatted False)) → areKeys nodes = true
  | [], _ => rfl
  | _ :: _, h => by
    obtain ⟨hv, hr⟩ := List.forall_mem_cons.mp h
    rw [areKeys, Bool.and_eq_true]
    exact ⟨isKey_of_formatted hv, areKeys_of_formatted hr⟩

end

end Shape

namespace Canon

open Fault

variable {entries : Entries} {f : Fault}

/-- A schema with a type, in the value or the value itself, has a list or a mapping for its format. -/
def HasLooseFormat (v : Value) : Prop :=
  ∃ (origin : Nat) (entries : Entries) (type format : Value), Value.Part (.mapping origin entries) v ∧
    ruleOf entries = .typed type ∧ entries.text? "format" = some format ∧ format.isKey = false

/-! ### Schemas -/

/-- The description of a mapping is given and is no text. -/
def IllDescribed (entries : Entries) : Prop :=
  ∃ v, entries.text? "description" = some v ∧ v.isTrue = true ∧ ∀ s, v ≠ .text s

/-- The names that a mapping requires are not all such that they could be keys. -/
def IllRequired (entries : Entries) : Prop :=
  ∃ names, entries.text? "required" = some (.list names) ∧ ∃ name ∈ names, name.isKey = false

/-- A record cannot be read: the names that it requires, its description or the description of one of
its properties are not what they should be. -/
def IllRecord (entries : Entries) : Prop :=
  IllRequired entries ∨ IllDescribed entries ∨
    ∃ key origin inner, (key, .mapping origin inner) ∈ propertiesOf entries ∧ IllDescribed inner

/-- The schema is such that a rule refuses it with a defect. A union is such only if it has to be put
aside, and if formats are loose. -/
inductive Unforeseen (loose : Prop) : Value → Defect → Prop
  /-- A reference that is a list or a mapping. -/
  | reference {origin : Nat} {entries : Entries} {ref : Value}
      (rule : ruleOf entries = .reference ref) (h : ref.isKey = false) :
      Unforeseen loose (.mapping origin entries) .wrongKind
  /-- A record that cannot be read. -/
  | record {origin : Nat} {entries : Entries} {type : Value} {one : Scalar}
      (rule : ruleOf entries = .typed type) (among : Value.Part (.scalar one) type)
      (form : formOf entries one = .record) (h : IllRecord entries) :
      Unforeseen loose (.mapping origin entries) .wrongKind
  /-- Properties beside the members of a composition that cannot be read. -/
  | beside {origin : Nat} {entries only : Entries} {listed : List Value}
      (rule : ruleOf entries = .composition (.list listed)) (beside : besideOf entries = some only)
      (h : IllRecord only) : Unforeseen loose (.mapping origin entries) .wrongKind
  /-- A null member of a composition without properties beside its members. -/
  | member {origin : Nat} {entries : Entries} {listed : List Value}
      (rule : ruleOf entries = .composition (.list listed)) (lone : besideOf entries = none)
      (h : Value.null ∈ listed) : Unforeseen loose (.mapping origin entries) .noMembers
  /-- A name that a composition demands and that cannot be a key. -/
  | demanded {origin : Nat} {entries : Entries} {listed : List Value} {name : Value}
      (rule : ruleOf entries = .composition (.list listed)) (h : name ∈ demanded entries listed)
      (key : name.isKey = false) : Unforeseen loose (.mapping origin entries) .wrongKind
  /-- The description of a composition that is given and is no text. -/
  | described {origin : Nat} {entries : Entries} {listed : List Value}
      (rule : ruleOf entries = .composition (.list listed)) (h : IllDescribed entries) :
      Unforeseen loose (.mapping origin entries) .wrongKind
  /-- Alternatives that have to be put aside. -/
  | alternatives {origin : Nat} {entries : Entries} {members : List Value}
      (rule : ruleOf entries = .alternatives (.list members)) (h : loose) :
      Unforeseen loose (.mapping origin entries) .wrongKind

/-! ### Where defects come from -/

theorem illDescribed_of_error (h : Prose.ofMember entries "description" = .error f) :
    f = .defect .wrongKind ∧ IllDescribed entries := by
  unfold Prose.ofMember at h
  split at h
  · next v hv =>
    unfold Prose.ofValue at h
    split at h
    · cases h
    · next hne =>
      split at h
      · next ht =>
        cases h
        exact ⟨rfl, v, hv, ht, hne⟩
      · cases h
  · cases h

theorem illRequired_of_error (h : requiredNames entries = .error f) :
    f = .defect .wrongKind ∧ IllRequired entries := by
  unfold requiredNames at h
  split at h
  · next names hn =>
    split at h
    · cases h
    · next hall =>
      cases h
      refine ⟨rfl, names, hn, ?_⟩
      simpa using hall
  · cases h

theorem illDescribed_of_field {property : Value} (h : fieldDescription property = .error f) :
    f = .defect .wrongKind ∧ ∃ origin inner, property = .mapping origin inner ∧
      IllDescribed inner := by
  unfold fieldDescription at h
  split at h
  · next origin inner =>
    obtain ⟨hf, hi⟩ := illDescribed_of_error h
    exact ⟨hf, origin, inner, rfl, hi⟩
  · cases h

theorem isForeseen_of_mergeFields {context : String} {merged more : List (Field Shape)}
    (h : mergeFields context merged more = .error f) : f.isForeseen = true := by
  induction more generalizing merged with
  | nil => cases h
  | cons g rest ih =>
    unfold mergeFields at h
    split at h
    · exact ih h
    · split at h
      · exact ih h
      · cases h
        rfl

theorem exists_of_requireFields_error {fields : List (Field Shape)} {names : List Value}
    (h : requireFields fields names = .error f) :
    f = .defect .wrongKind ∧ ∃ name ∈ names, name.isKey = false := by
  unfold requireFields at h
  split at h
  · cases h
  · next hall =>
    cases h
    refine ⟨rfl, ?_⟩
    simpa using hall

end Canon

namespace Resolver

variable {document : Value} {ref : String} {f : Fault}

/-- A text that is no reference into the document, or that leads nowhere, is refused for a cause of
its own. -/
theorem isForeseen_of_target (h : target document ref = .error f) : f.isForeseen = true := by
  cases target_error h <;> rfl

end Resolver

end RouteStubs
