import RouteStubs.Proofs.Renamed.Shape
import RouteStubs.Proofs.Schema.Rules

/-!
# The rules see no identities

By which rule a schema is read, what its parts are, which names it requires and what its description
is does not depend on the identities of the mappings in it.

## Main definitions

* `Canon.Rule.rename f`, `Canon.Member.rename f`: rules and members with other identities.

## Main statements

* `Canon.ruleOf_rename`: the rule of a mapping.
* `Canon.shapedMembers_rename`, `Canon.demanded_rename`: how a composition is read.
* `Canon.mergeFields_rename`: fields are merged alike.
-/

namespace RouteStubs

variable {f : Nat → Nat}

@[simp] theorem Prose.ofValue_rename (v : Value) : Prose.ofValue (v.rename f) = Prose.ofValue v := by
  cases v with
  | scalar s => rfl
  | list items => simp [ofValue, Value.isTrue]
  | mapping origin entries => simp [ofValue, Value.isTrue]

@[simp] theorem Prose.ofMember_rename (entries : Entries) (key : String) :
    Prose.ofMember (entries.rename f) key = Prose.ofMember entries key := by
  unfold ofMember
  rw [Entries.text?_rename]
  cases entries.text? key with
  | none => rfl
  | some v => exact ofValue_rename v

namespace Canon

open Shape

/-! ### Enumerations and names -/

theorem scalarsOf_rename (values : List Value) :
    scalarsOf (values.map (Value.rename f)) = scalarsOf values := by
  unfold scalarsOf
  rw [List.filterMap_map]
  congr 1
  funext v
  cases v <;> simp

@[simp] theorem enumeration_rename (v : Value) : enumeration (v.rename f) = enumeration v := by
  cases v with
  | list values =>
    rw [Value.rename_list, enumeration, scalarsOf_rename]
    rfl
  | _ => simp [enumeration]

theorem rename_enumeration (v : Value) : (enumeration v).rename f = enumeration v := by
  unfold enumeration
  split
  · split <;> rfl
  · rfl

theorem all_isKey_rename (names : List Value) :
    (names.map (Value.rename f)).all Value.isKey = names.all Value.isKey := by
  rw [List.all_map]
  exact congrArg (List.all names) (funext fun v => Value.isKey_rename v)

@[simp] theorem requiredNames_rename (entries : Entries) :
    requiredNames (entries.rename f) = requiredNames entries := by
  unfold requiredNames
  rw [Entries.text?_rename]
  rcases entries.text? "required" with _ | v
  · rfl
  · cases v with
    | list names =>
      simp only [Option.map_some, Value.rename_list, all_isKey_rename, List.filterMap_map]
      congr 3
      funext v
      cases v <;> simp
    | _ => simp

@[simp] theorem isRemark_rename (v : Value) : isRemark (v.rename f) = isRemark v := by
  cases v with
  | mapping origin entries =>
    have hkeys : shapeKeys.any (Entries.hasText (Entries.rename f entries)) =
        shapeKeys.any (Entries.hasText entries) :=
      congrArg (List.any shapeKeys) (funext fun key => Entries.hasText_rename entries key)
    rw [Value.rename_mapping, isRemark, isRemark, hkeys]
  | _ => simp [isRemark]

/-! ### Records -/

theorem propertiesOf_rename (entries : Entries) :
    propertiesOf (entries.rename f) = (propertiesOf entries).rename f := by
  unfold propertiesOf
  rw [Entries.text?_rename]
  rcases entries.text? "properties" with _ | v
  · rfl
  · cases v <;> simp

@[simp] theorem fieldDescription_rename (v : Value) :
    fieldDescription (v.rename f) = fieldDescription v := by
  cases v <;> simp [fieldDescription]

theorem mergeFields_rename (context : String) (merged more : List (Field Shape)) :
    mergeFields context (merged.map (renameField f)) (more.map (renameField f)) =
      (mergeFields context merged more).map (List.map (renameField f)) := by
  induction more generalizing merged with
  | nil => rfl
  | cons g rest ih =>
    simp only [List.map_cons, mergeFields, show (renameField f g).name = g.name from rfl,
      field?_rename]
    cases field? merged g.name with
    | none =>
      rw [← ih, List.map_append, List.map_singleton]
      rfl
    | some existing =>
      have hsame : (renameField f existing).node.same (renameField f g).node =
          existing.node.same g.node := same_rename existing.node g.node
      simp only [Option.map_some, hsame]
      split
      · rw [← ih, List.map_map, List.map_map]
        congr 2
        funext other
        change (if (other.name == g.name) = true then _ else _) =
          renameField f (if (other.name == g.name) = true then _ else _)
        split <;> rfl
      · rfl

theorem requireFields_rename (fields : List (Field Shape)) (names : List Value) :
    requireFields (fields.map (renameField f)) (names.map (Value.rename f)) =
      (requireFields fields names).map (List.map (renameField f)) := by
  unfold requireFields
  rw [all_isKey_rename]
  split
  · rw [Except.map, List.map_map, List.map_map]
    congr 2
    funext g
    have hany : (names.map (Value.rename f)).any (·.isText g.name) = names.any (·.isText g.name) := by
      rw [List.any_map]
      exact congrArg (List.any names) (funext fun v => Value.isText_rename v g.name)
    simp only [Function.comp, show (renameField f g).name = g.name from rfl, hany]
    split <;> rfl
  · rfl

/-! ### Compositions -/

/-- A member of a composition with other identities. -/
def Member.rename (f : Nat → Nat) : Member → Member
  | .listed schema => .listed (schema.rename f)
  | .beside entries => .beside (entries.rename f)

theorem besideOf_rename (entries : Entries) :
    besideOf (entries.rename f) = (besideOf entries).map (Entries.rename f) := by
  unfold besideOf
  simp only [Entries.text?_rename, List.filterMap_cons, List.filterMap_nil]
  cases entries.text? "properties" <;> cases entries.text? "additionalProperties" <;> rfl

theorem requiredValues_rename (v : Value) :
    requiredValues (v.rename f) = (requiredValues v).map (Value.rename f) := by
  unfold requiredValues
  rw [Value.member?_rename]
  rcases v.member? "required" with _ | w
  · rfl
  · cases w <;> simp

theorem filter_isRemark_rename (listed : List Value) :
    (listed.map (Value.rename f)).filter isRemark = (listed.filter isRemark).map (Value.rename f) := by
  rw [List.filter_map]
  congr 2
  funext v
  exact isRemark_rename v

theorem shapedMembers_rename (entries : Entries) (listed : List Value) :
    shapedMembers (entries.rename f) (listed.map (Value.rename f)) =
      (shapedMembers entries listed).map (Member.rename f) := by
  have hfilter : (listed.map (Value.rename f)).filter (!isRemark ·) =
      (listed.filter (!isRemark ·)).map (Value.rename f) := by
    rw [List.filter_map]
    congr 2
    funext v
    exact congrArg (!·) (isRemark_rename v)
  unfold shapedMembers
  rw [hfilter, besideOf_rename, List.map_append, List.map_map, List.map_map]
  cases besideOf entries <;> rfl

theorem demanded_rename (entries : Entries) (listed : List Value) :
    demanded (entries.rename f) (listed.map (Value.rename f)) =
      (demanded entries listed).map (Value.rename f) := by
  have hown : requiredValues (.mapping 0 (entries.rename f)) =
      (requiredValues (.mapping 0 entries)).map (Value.rename f) := by
    rw [← requiredValues_rename, Value.rename_mapping]
    rfl
  unfold demanded
  rw [hown, filter_isRemark_rename, List.map_append, List.flatMap_map, List.map_flatMap]
  congr 2
  funext v
  exact requiredValues_rename v

theorem soleMember?_rename (members : List Member) (names : List Value) :
    soleMember? (members.map (Member.rename f)) (names.map (Value.rename f)) =
      (soleMember? members names).map (Member.rename f) := by
  match members, names with
  | [_], [] => rfl
  | [], _ => cases names <;> rfl
  | [_], _ :: _ => rfl
  | _ :: _ :: _, _ => cases names <;> rfl

/-! ### Unions and types -/

theorem explicitDiscriminator_rename (entries : Entries) :
    explicitDiscriminator (entries.rename f) = (explicitDiscriminator entries).rename f := by
  unfold explicitDiscriminator
  rw [Entries.text?_rename]
  rcases entries.text? "discriminator" with _ | v
  · rfl
  · rw [Option.map_some, Option.bind_some, Option.bind_some, Value.member?_rename]
    cases v.member? "propertyName" <;> rfl

theorem ofSeveral_rename (nodes : List Shape) :
    ofSeveral (nodes.map (Shape.rename f)) = (ofSeveral nodes).rename f := by
  unfold ofSeveral
  rw [distinct_rename]
  rcases distinct nodes with _ | ⟨only, _ | ⟨_, _⟩⟩ <;> simp

@[simp] theorem formOf_rename (entries : Entries) (type : Scalar) :
    formOf (entries.rename f) type = formOf entries type := by
  unfold formOf
  simp only [Entries.hasText_rename]

theorem itemsOf_rename (entries : Entries) :
    itemsOf (entries.rename f) = (itemsOf entries).rename f := by
  unfold itemsOf
  rw [Entries.text?_rename]
  cases entries.text? "items" <;> rfl

theorem readingOf_rename (source : Source) (index : Nat) (type : Value) :
    readingOf (source.rename f) index (type.rename f) = (readingOf source index type).rename f := by
  unfold readingOf
  rw [Value.isText_rename]
  split <;> rfl

/-! ### The rule of a mapping -/

/-- A rule with other identities in what it reads. -/
def Rule.rename (f : Nat → Nat) : Rule → Rule
  | .reference ref => .reference (ref.rename f)
  | .composition members => .composition (members.rename f)
  | .alternatives members => .alternatives (members.rename f)
  | .values listed => .values (listed.rename f)
  | .typed type => .typed (type.rename f)

theorem ruleOf_rename (entries : Entries) : ruleOf (entries.rename f) = (ruleOf entries).rename f := by
  unfold ruleOf
  simp only [Entries.text?_rename]
  cases entries.text? "$ref" with
  | some ref => rfl
  | none =>
  cases entries.text? "allOf" with
  | some members => rfl
  | none =>
  cases entries.text? "oneOf" with
  | some members => rfl
  | none =>
  cases entries.text? "anyOf" with
  | some members => rfl
  | none =>
  cases entries.text? "enum" with
  | some values => rfl
  | none =>
  cases entries.text? "const" with
  | some value => simp [Rule.rename]
  | none => cases entries.text? "type" <;> rfl

end Canon

end RouteStubs
