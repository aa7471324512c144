import RouteStubs.Proofs.Ends
import RouteStubs.Proofs.Part
import RouteStubs.Shape.Canonical

/-!
# The rules by which a schema is read

The rule by which a schema is read depends on its keys alone, and so do the parts of it that are
read on the way. Both are computed here, apart from the walk, and the functions of the walk are
brought into the form in which each starts with its rule.

## Main definitions

* `Canon.Rule`, `Canon.ruleOf`: the rule that applies to a mapping.
* `Canon.Form`, `Canon.formOf`: what a schema with one type says.
* `Canon.shapedMembers`, `Canon.demanded`, `Canon.soleMember?`: how a composition is read.
* `Canon.parts`: the schemas inside a schema that are read with it.

## Main statements

* `Canon.ofEntries_eq`, `Canon.ofType_eq`, `Canon.composition_list`: the functions by their rules.
* `Canon.part_of_mem_parts`: the schemas inside a schema stand inside it.
-/

namespace RouteStubs.Canon

variable {ν : Type}

/-! ### The rule of a mapping -/

/-- The rules, in their order of precedence, each with what it reads. -/
inductive Rule where
  /-- A reference. -/
  | reference (ref : Value)
  /-- The members of a composition. -/
  | composition (members : Value)
  /-- The members of a union. -/
  | alternatives (members : Value)
  /-- The values of an enumeration. -/
  | values (listed : Value)
  /-- A type, or several. -/
  | typed (type : Value)

/-- The rule that applies to a mapping. -/
def ruleOf (entries : Entries) : Rule :=
  match entries.text? "$ref" with
  | some ref => .reference ref
  | none =>
  match entries.text? "allOf" with
  | some members => .composition members
  | none =>
  match (entries.text? "oneOf").or (entries.text? "anyOf") with
  | some members => .alternatives members
  | none =>
  match entries.text? "enum" with
  | some values => .values values
  | none =>
  match entries.text? "const" with
  | some value => .values (.list [value])
  | none => .typed ((entries.text? "type").getD .null)

/-- The key that each rule goes by. -/
theorem key_of_ruleOf (entries : Entries) :
    match ruleOf entries with
    | .reference ref => entries.text? "$ref" = some ref
    | .composition members => entries.text? "allOf" = some members
    | .alternatives members => entries.text? "oneOf" = some members ∨
        entries.text? "anyOf" = some members
    | .values listed => entries.text? "enum" = some listed ∨
        ∃ w, entries.text? "const" = some w ∧ listed = .list [w]
    | .typed type => type = (entries.text? "type").getD .null := by
  unfold ruleOf
  cases entries.text? "$ref" with
  | some ref => rfl
  | none =>
  cases entries.text? "allOf" with
  | some members => rfl
  | none =>
  cases entries.text? "oneOf" with
  | some members => exact .inl rfl
  | none =>
  cases entries.text? "anyOf" with
  | some members => exact .inr rfl
  | none =>
  cases entries.text? "enum" with
  | some values => exact .inl rfl
  | none =>
  cases entries.text? "const" with
  | some value => exact .inr ⟨value, rfl, rfl⟩
  | none => rfl

theorem ofEntries_eq (namer : Namer ν) (deeper : Deeper ν) (context : String) (origin : Nat)
    (entries : Entries) :
    ofEntries namer deeper context origin entries =
      match ruleOf entries with
      | .reference ref => reference namer deeper ref
      | .composition members => composition deeper context origin entries members
      | .alternatives members => alternatives deeper context entries members
      | .values listed => pure (enumeration listed)
      | .typed type => ofTypes deeper context entries ⟨origin, []⟩ type := by
  unfold ofEntries ruleOf
  cases entries.text? "$ref" with
  | some ref => rfl
  | none =>
  cases entries.text? "allOf" with
  | some members => rfl
  | none =>
  cases (entries.text? "oneOf").or (entries.text? "anyOf") with
  | some members => rfl
  | none =>
  cases entries.text? "enum" with
  | some values => rfl
  | none => cases entries.text? "const" <;> rfl

/-! ### Records -/

/-- The properties of a record. -/
def propertiesOf (entries : Entries) : Entries :=
  match entries.text? "properties" with
  | some (.mapping _ properties) => properties
  | _ => []

/-- The schema of the fields that a record does not name, if there is one. -/
def furtherOf (entries : Entries) : Option Value :=
  match entries.text? "additionalProperties" with
  | some (.mapping origin more) => some (.mapping origin more)
  | _ => none

/-- The schemas inside a record. -/
def recordParts (entries : Entries) : List Value :=
  (propertiesOf entries).map Prod.snd ++ (furtherOf entries).toList

/-- The description of a field. -/
def fieldDescription : Value → Except Fault String
  | .mapping _ entries => Prose.ofMember entries "description"
  | _ => .ok ""

theorem recordOf_eq (deeper : Deeper ν) (context : String) (entries : Entries)
    (source : Option Source) :
    recordOf deeper context entries source = (do
      let required ← Step.ofExcept (requiredNames entries)
      let fields ← fieldsOf deeper context required (propertiesOf entries)
      let trailer ← trailerOf deeper context entries
      let description ← Step.ofExcept (Prose.ofMember entries "description")
      pure (.record fields trailer description source)) := by
  unfold recordOf propertiesOf
  rcases entries.text? "properties" with _ | _ | _ | _ <;> rfl

/-! ### Types -/

/-- What a schema with one type says. -/
inductive Form where
  /-- Lists. -/
  | array
  /-- Records. -/
  | record
  /-- Values of one kind. -/
  | primitive (kind : Kind)
  /-- Anything. -/
  | anything

/-- What a schema says when it is read with one type; without a type its other keys decide. -/
def formOf (entries : Entries) (type : Scalar) : Form :=
  let untyped := type == .null
  if type == .text "array" || (untyped && entries.hasText "items") then .array
  else if type == .text "object" || (untyped &&
      (entries.hasText "properties" || entries.hasText "additionalProperties")) then .record
  else
    match type with
    | .text keyword =>
      match Kind.ofKeyword? keyword with
      | some kind => .primitive kind
      | none => .anything
    | _ => .anything

/-- The schema of the items of a list. -/
def itemsOf (entries : Entries) : Value := (entries.text? "items").getD .null

theorem ofType_eq (deeper : Deeper ν) (context : String) (entries : Entries) (source : Source)
    (type : Scalar) :
    ofType deeper context entries source type =
      match formOf entries type with
      | .array => Shape.array <$> deeper (context ++ "[]") (itemsOf entries)
      | .record => recordOf deeper context entries (some source)
      | .primitive kind => pure (.primitive kind ((entries.text? "format").getD .null))
      | .anything => pure .unknown := by
  unfold ofType formOf itemsOf
  -- the conditions of the two sides are the same, and are met in the same order
  by_cases harray : (type == .text "array" || (type == .null && entries.hasText "items")) = true
  · simp [harray]
  by_cases hrecord : (type == .text "object" || (type == .null &&
      (entries.hasText "properties" || entries.hasText "additionalProperties"))) = true
  · simp [harray, hrecord]
  simp only [harray, hrecord]
  cases type with
  | text keyword => cases hk : Kind.ofKeyword? keyword <;> simp [hk]
  | _ => rfl

/-- The identity of the reading of a schema with the type at a position of a list of types. -/
def readingOf (source : Source) (index : Nat) (type : Value) : Source :=
  if type.isText "object" then source else ⟨source.origin, source.form ++ [index]⟩

/-! ### Compositions -/

/-- The members of a composition that have a shape, the properties beside the list last. -/
def shapedMembers (entries : Entries) (listed : List Value) : List Member :=
  (listed.filter (!isRemark ·)).map .listed ++ ((besideOf entries).map Member.beside).toList

/-- The names that a composition requires by itself or by members without a shape. -/
def demanded (entries : Entries) (listed : List Value) : List Value :=
  requiredValues (.mapping 0 entries) ++ (listed.filter isRemark).flatMap requiredValues

/-- The properties beside a list of members are those of the mapping; names are not required there. -/
theorem text?_of_besideOf {entries only : Entries} (h : besideOf entries = some only) :
    only.text? "properties" = entries.text? "properties" ∧
      only.text? "additionalProperties" = entries.text? "additionalProperties" ∧
      only.text? "required" = none := by
  unfold besideOf at h
  cases hp : entries.text? "properties" <;> cases ha : entries.text? "additionalProperties" <;>
    simp only [hp, ha, List.filterMap_cons, List.filterMap_nil, Option.map_some, Option.map_none] at h <;>
    cases h <;> simp [Entries.text?, Entries.find?, Scalar.same]

/-- The member that a composition passes through: its only one, if nothing else is required. -/
def soleMember? : List Member → List Value → Option Member
  | [member], [] => some member
  | _, _ => none

theorem composition_list (deeper : Deeper ν) (context : String) (origin : Nat) (entries : Entries)
    (listed : List Value) :
    composition deeper context origin entries (.list listed) =
      match soleMember? (shapedMembers entries listed) (demanded entries listed) with
      | some (.beside only) => recordOf deeper context only (some ⟨origin, []⟩)
      | some (.listed schema) =>
        memberShape deeper context (besideOf entries).isNone (.listed schema)
      | none => (do
        let (fields, trailer) ← mergeMembers deeper context (besideOf entries).isNone 0 [] none
          (shapedMembers entries listed)
        let fields ← Step.ofExcept (requireFields fields (demanded entries listed))
        let description ← Step.ofExcept (Prose.ofMember entries "description")
        pure (.record fields trailer description (some ⟨origin, []⟩))) := by
  unfold composition
  dsimp only
  -- both lists are named, so that only their lengths are left to look at
  generalize hs : List.filter _
    (listed.map Member.listed ++ ((besideOf entries).map Member.beside).toList) = shaped
  have hshaped : shaped = shapedMembers entries listed := by
    rw [← hs, List.filter_append, List.filter_map, shapedMembers]
    cases besideOf entries <;> rfl
  generalize hd : requiredValues (.mapping origin entries) ++
    (listed.filter isRemark).flatMap requiredValues = required
  rw [← hshaped, show demanded entries listed = required from hd]
  clear hs hshaped hd
  rcases shaped with _ | ⟨_ | _, _ | ⟨_, _⟩⟩ <;> cases required <;> rfl

/-! ### Parts -/

/-- The schemas inside a member of a composition. -/
def memberParts : Member → List Value
  | .listed schema => [schema]
  | .beside entries => recordParts entries

mutual

/-- The schemas inside a schema that is read with a type. -/
def typeParts (entries : Entries) : Value → List Value
  | .scalar type =>
    match formOf entries type with
    | .array => [itemsOf entries]
    | .record => recordParts entries
    | _ => []
  | .list types => typesParts entries types
  | .mapping _ _ => []

/-- The schemas inside a schema that is read with several types. -/
def typesParts (entries : Entries) : List Value → List Value
  | [] => []
  | type :: rest => typeParts entries type ++ typesParts entries rest

end

/-- The schemas inside a schema that are read with it. -/
def parts : Value → List Value
  | .mapping _ entries =>
    match ruleOf entries with
    | .composition (.list listed) => (shapedMembers entries listed).flatMap memberParts
    | .alternatives (.list members) => members
    | .typed type => typeParts entries type
    | _ => []
  | _ => []

/-- The members of a composition that are merged. -/
def mergedMembers : Value → List Value
  | .mapping _ entries =>
    match ruleOf entries with
    | .composition (.list listed) =>
      if (soleMember? (shapedMembers entries listed) (demanded entries listed)).isNone then
        listed.filter (!isRemark ·)
      else []
    | _ => []
  | _ => []

section

open Value

variable {entries : Entries} {v : Value} {origin : Nat}

theorem part_of_mem_recordParts (h : v ∈ recordParts entries) : Part v (.mapping origin entries) := by
  rcases List.mem_append.mp h with h | h
  · obtain ⟨⟨key, w⟩, hm, rfl⟩ := List.mem_map.mp h
    unfold propertiesOf at hm
    split at hm
    · next hp => exact (Part.refl.entry hm).trans (part_of_text? hp)
    · cases hm
  · unfold furtherOf at h
    split at h
    · next ha =>
      obtain rfl : v = _ := by simpa using h
      exact part_of_text? ha
    · cases h

theorem part_of_mem_memberParts {listed : List Value} {member : Member}
    (hl : entries.text? "allOf" = some (.list listed)) (hm : member ∈ shapedMembers entries listed)
    (h : v ∈ memberParts member) : Part v (.mapping origin entries) := by
  rcases List.mem_append.mp hm with hm | hm
  · obtain ⟨w, hw, rfl⟩ := List.mem_map.mp hm
    obtain rfl : v = w := List.mem_singleton.mp h
    exact (Part.refl.item (List.mem_filter.mp hw).1).trans (part_of_text? hl)
  · obtain ⟨only, ho, rfl⟩ : ∃ only, besideOf entries = some only ∧ .beside only = member := by
      simpa using hm
    obtain ⟨hp, ha, -⟩ := text?_of_besideOf ho
    refine part_of_mem_recordParts ?_
    simpa only [memberParts, recordParts, propertiesOf, furtherOf, hp, ha] using h

mutual

theorem part_of_mem_typeParts :
    ∀ {type : Value}, v ∈ typeParts entries type → v = .null ∨ Part v (.mapping origin entries)
  | .scalar type, h => by
    simp only [typeParts] at h
    split at h
    · obtain rfl : v = itemsOf entries := List.mem_singleton.mp h
      unfold itemsOf
      cases hi : entries.text? "items" with
      | none => exact .inl rfl
      | some items => exact .inr (part_of_text? hi)
    · exact .inr (part_of_mem_recordParts h)
    · cases h
  | .list _, h => part_of_mem_typesParts h
  | .mapping _ _, h => by cases h

theorem part_of_mem_typesParts : ∀ {types : List Value},
    v ∈ typesParts entries types → v = .null ∨ Part v (.mapping origin entries)
  | [], h => by cases h
  | _ :: _, h => (List.mem_append.mp h).elim part_of_mem_typeParts part_of_mem_typesParts

end

/-- The schemas inside a schema are parts of it. Items that are not there are null. -/
theorem part_of_mem_parts {schema : Value} (h : v ∈ parts schema) : v = .null ∨ Part v schema := by
  cases schema with
  | mapping origin entries =>
    have hkey := key_of_ruleOf entries
    unfold parts at h
    cases hr : ruleOf entries with
    | composition members =>
      cases members with
      | list listed =>
        simp only [hr] at h hkey
        obtain ⟨member, hm, h⟩ := List.mem_flatMap.mp h
        exact .inr (part_of_mem_memberParts hkey hm h)
      | _ => simp [hr] at h
    | alternatives members =>
      cases members with
      | list members =>
        simp only [hr] at h hkey
        have hm : Part v (.list members) := Part.refl.item h
        exact .inr (hkey.elim (fun hk => hm.trans (part_of_text? hk))
          fun hk => hm.trans (part_of_text? hk))
      | _ => simp [hr] at h
    | typed type =>
      simp only [hr] at h
      exact part_of_mem_typeParts h
    | _ =>
      simp only [hr] at h
      cases h
  | _ => cases h

end

end RouteStubs.Canon
