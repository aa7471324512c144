import RouteStubs.Proofs.Satisfied
import RouteStubs.Proofs.Schema.Again
import RouteStubs.Proofs.Shape.Merged

/-!
# Which fields a schema requires

Each field of the record that a schema comes to is given by some schema in the document: by the
properties of the schema itself, of the target of a reference, of a member of a composition. The
schema that gives the field may require it, and so may each composition on the way down to it, by its
own list and by those of its members without a shape. A member with a shape requires what it gives
itself and nothing else: a name in its list that another member gives is lost.

## Main definitions

* `Canon.Gives document schema name required`: the schema gives a field, required or not.
* `Canon.Asks document schema name`: the name is in the list of the schema or of a member.
* `Canon.Describes`: the fields are those that are given.

## Main statements

* `Canon.IsRef.gives_iff`: another name for a reference gives what its target gives.
* `Canon.ReadsMembers.gathered`: what the members of a composition give together.
* `Naming.Walked.discloses`: the fields of the record that a schema comes to.
* `Naming.Reached.required_iff`: which fields of a composition are required.
* `Naming.not_required_iff_asks`: a name in the list of a member is not always required.
-/

namespace RouteStubs

namespace Canon

variable {document schema found : Value} {origin : Nat} {entries only : Entries} {listed : List Value}
  {name ref : String} {required : Bool} {fields fields' more all : List (Field Shape)}
  {gives gives' : String → Bool → Prop} {definitions : Definitions} {sub : Value → Shape → Prop}
  {source : Option Source} {trailer trailer' : Option Shape} {description : String}

/-! ### What a schema gives -/

/-- The schema gives records a field of this name, required or not. A name may be given several times,
and the field is required if it is so once. -/
inductive Gives (document : Value) : Value → String → Bool → Prop
  | property {origin : Nat} {entries : Entries} {type : Value} {key : Scalar} {property : Value}
      (rule : ruleOf entries = .typed type) (h : (key, property) ∈ propertiesOf entries) :
      Gives document (.mapping origin entries) key.display
        ((requiredValues (.mapping origin entries)).any (·.isText key.display))
  | target {origin : Nat} {entries : Entries} {ref name : String} {found : Value} {required : Bool}
      (rule : ruleOf entries = .reference (.text ref))
      (leads : Resolver.target document ref = .ok found) (h : Gives document found name required) :
      Gives document (.mapping origin entries) name required
  | member {origin : Nat} {entries : Entries} {listed : List Value} {schema : Value} {name : String}
      {required : Bool} (rule : ruleOf entries = .composition (.list listed))
      (shaped : .listed schema ∈ shapedMembers entries listed)
      (h : Gives document schema name required) :
      Gives document (.mapping origin entries) name required
  | beside {origin : Nat} {entries : Entries} {listed : List Value} {key : Scalar} {property : Value}
      (rule : ruleOf entries = .composition (.list listed))
      (h : (key, property) ∈ propertiesOf entries) :
      Gives document (.mapping origin entries) key.display false
  | demanded {origin : Nat} {entries : Entries} {listed : List Value} {name : String}
      (rule : ruleOf entries = .composition (.list listed))
      (demands : .text name ∈ Canon.demanded entries listed)
      (h : Gives document (.mapping origin entries) name false) :
      Gives document (.mapping origin entries) name true
  | alternative {origin : Nat} {entries : Entries} {first : Value} {others : List Value}
      {name : String} {required : Bool}
      (rule : ruleOf entries = .alternatives (.list (first :: others)))
      (h : Gives document first name required) :
      Gives document (.mapping origin entries) name required

/-- The name is in the list of required names of the schema or of a member, perhaps by way of a
reference. -/
inductive Asks (document : Value) : Value → String → Prop
  | own {origin : Nat} {entries : Entries} {name : String}
      (rule : ∀ ref, ruleOf entries ≠ .reference ref)
      (h : .text name ∈ requiredValues (.mapping origin entries)) :
      Asks document (.mapping origin entries) name
  | target {origin : Nat} {entries : Entries} {ref name : String} {found : Value}
      (rule : ruleOf entries = .reference (.text ref))
      (leads : Resolver.target document ref = .ok found) (h : Asks document found name) :
      Asks document (.mapping origin entries) name
  | member {origin : Nat} {entries : Entries} {listed : List Value} {schema : Value} {name : String}
      (rule : ruleOf entries = .composition (.list listed)) (hm : schema ∈ listed)
      (h : Asks document schema name) : Asks document (.mapping origin entries) name
  | alternative {origin : Nat} {entries : Entries} {first : Value} {others : List Value}
      {name : String} (rule : ruleOf entries = .alternatives (.list (first :: others)))
      (h : Asks document first name) : Asks document (.mapping origin entries) name

/-- A member of a composition gives records a field. What stands beside the list requires nothing. -/
def MemberGives (document : Value) : Member → String → Bool → Prop
  | .listed schema, name, required => Gives document schema name required
  | .beside only, name, required =>
    name ∈ (propertiesOf only).map (·.1.display) ∧ required = false

/-- What the schema gives, by the rule that it is read by. -/
theorem rule_of_gives (h : Gives document (.mapping origin entries) name required) :
    match ruleOf entries with
    | .reference (.text ref) => ∃ found, Resolver.target document ref = .ok found ∧
        Gives document found name required
    | .composition (.list listed) =>
      (∃ schema, .listed schema ∈ shapedMembers entries listed ∧
        Gives document schema name required) ∨
      (name ∈ (propertiesOf entries).map (·.1.display) ∧ required = false) ∨
      (required = true ∧ .text name ∈ demanded entries listed ∧
        Gives document (.mapping origin entries) name false)
    | .alternatives (.list (first :: _)) => Gives document first name required
    | .typed _ => name ∈ (propertiesOf entries).map (·.1.display) ∧
        required = (requiredValues (.mapping origin entries)).any (·.isText name)
    | _ => False := by
  cases h with
  | property rule h =>
    rw [rule]
    exact ⟨List.mem_map_of_mem h, rfl⟩
  | target rule leads h =>
    rw [rule]
    exact ⟨_, leads, h⟩
  | member rule shaped h =>
    rw [rule]
    exact .inl ⟨_, shaped, h⟩
  | beside rule h =>
    rw [rule]
    exact .inr (.inl ⟨List.mem_map_of_mem h, rfl⟩)
  | demanded rule demands h =>
    rw [rule]
    exact .inr (.inr ⟨rfl, demands, h⟩)
  | alternative rule h =>
    rw [rule]
    exact h

theorem gives_reference_iff (rule : ruleOf entries = .reference (.text ref))
    (leads : Resolver.target document ref = .ok found) :
    Gives document (.mapping origin entries) name required ↔ Gives document found name required := by
  constructor
  · intro h
    have hrule := rule_of_gives h
    rw [rule] at hrule
    obtain ⟨_, leads', hfound⟩ := hrule
    cases leads.symm.trans leads'
    exact hfound
  · exact .target rule leads

theorem gives_alternatives_iff {first : Value} {others : List Value}
    (rule : ruleOf entries = .alternatives (.list (first :: others))) :
    Gives document (.mapping origin entries) name required ↔ Gives document first name required := by
  constructor
  · intro h
    have hrule := rule_of_gives h
    rwa [rule] at hrule
  · exact .alternative rule

theorem gives_typed_iff {type : Value} (rule : ruleOf entries = .typed type) :
    Gives document (.mapping origin entries) name required ↔
      name ∈ (propertiesOf entries).map (·.1.display) ∧
        required = (requiredValues (.mapping origin entries)).any (·.isText name) := by
  constructor
  · intro h
    have hrule := rule_of_gives h
    rwa [rule] at hrule
  · rintro ⟨hname, rfl⟩
    obtain ⟨p, hp, rfl⟩ := List.mem_map.mp hname
    exact .property rule hp

/-- The properties of a composition stand beside its list. -/
theorem exists_beside (h : name ∈ (propertiesOf entries).map (·.1.display)) :
    ∃ only, besideOf entries = some only := by
  unfold propertiesOf at h
  split at h
  · next hp =>
    have hne : besideOf entries ≠ none := by
      unfold besideOf
      simp [List.filterMap_cons, hp]
    exact Option.ne_none_iff_exists'.mp hne
  · cases h

theorem propertiesOf_beside (h : besideOf entries = some only) :
    propertiesOf only = propertiesOf entries := by
  unfold propertiesOf
  rw [(text?_of_besideOf h).1]

theorem beside_mem_shapedMembers_iff :
    .beside only ∈ shapedMembers entries listed ↔ besideOf entries = some only := by
  simp [shapedMembers]

/-- A composition gives what its members give, and requires what is demanded besides. -/
theorem gives_composition_iff (rule : ruleOf entries = .composition (.list listed)) :
    Gives document (.mapping origin entries) name required ↔
      (∃ member ∈ shapedMembers entries listed, MemberGives document member name required) ∨
        (required = true ∧ .text name ∈ demanded entries listed ∧
          ∃ member ∈ shapedMembers entries listed, MemberGives document member name false) := by
  have hmembers : ∀ {required}, (∃ member ∈ shapedMembers entries listed,
      MemberGives document member name required) →
        Gives document (.mapping origin entries) name required := by
    rintro required ⟨member | only, hm, hg⟩
    · exact .member rule hm hg
    · obtain ⟨hname, rfl⟩ := hg
      rw [propertiesOf_beside (beside_mem_shapedMembers_iff.mp hm)] at hname
      obtain ⟨p, hp, rfl⟩ := List.mem_map.mp hname
      exact .beside rule hp
  -- a field that is demanded is given by a member, which does not require it
  have hgiven : ∀ {required}, Gives document (.mapping origin entries) name required →
      (∃ member ∈ shapedMembers entries listed, MemberGives document member name required) ∨
        (required = true ∧ .text name ∈ demanded entries listed ∧
          Gives document (.mapping origin entries) name false) := by
    intro required h
    have hrule := rule_of_gives h
    rw [rule] at hrule
    rcases hrule with ⟨schema, hm, hg⟩ | ⟨hname, rfl⟩ | hdemanded
    · exact .inl ⟨_, hm, hg⟩
    · obtain ⟨only, ho⟩ := exists_beside hname
      rw [← propertiesOf_beside ho] at hname
      exact .inl ⟨.beside only, beside_mem_shapedMembers_iff.mpr ho, hname, rfl⟩
    · exact .inr hdemanded
  constructor
  · intro h
    rcases hgiven h with hm | ⟨hr, hd, hg⟩
    · exact .inl hm
    · rcases hgiven hg with hm | ⟨hfalse, -⟩
      · exact .inr ⟨hr, hd, hm⟩
      · cases hfalse
  · rintro (hm | ⟨rfl, hd, hm⟩)
    · exact hmembers hm
    · exact .demanded rule hd (hmembers hm)

/-- A composition that passes its only member on gives what this gives. -/
theorem gives_passes_iff (rule : ruleOf entries = .composition (.list listed))
    (sole : soleMember? (shapedMembers entries listed) (demanded entries listed) =
      some (.listed schema)) :
    Gives document (.mapping origin entries) name required ↔ Gives document schema name required := by
  obtain ⟨hmembers, hdemanded⟩ := mem_of_soleMember? sole
  rw [gives_composition_iff rule, hmembers, hdemanded]
  simp [MemberGives]

/-- What is nothing but another name for a reference gives what the target gives. -/
theorem IsRef.gives_iff (h : IsRef schema ref) (leads : Resolver.target document ref = .ok found) :
    Gives document schema name required ↔ Gives document found name required := by
  induction h with
  | reference rule _ => exact gives_reference_iff rule leads
  | passes rule sole _ _ ih => exact (gives_passes_iff rule sole).trans (ih leads)
  | each rule _ _ ih => exact (gives_alternatives_iff rule).trans (ih _ List.mem_cons_self leads)

/-- A schema that says nothing about shapes is no reference. -/
theorem ruleOf_ne_reference_of_isRemark (h : isRemark (.mapping origin entries) = true) (ref : Value) :
    ruleOf entries ≠ .reference ref := by
  intro href
  have hkey : entries.text? "$ref" = some ref := by
    have hkey := key_of_ruleOf entries
    rwa [href] at hkey
  simp [isRemark, shapeKeys, Entries.hasText, hkey] at h

/-- A field is required only if its name is in a list. -/
theorem Gives.asks (h : Gives document schema name true) : Asks document schema name := by
  generalize hr : true = required at h
  induction h with
  | property rule _ =>
    refine .own (fun ref href => ?_) (any_isText_iff.mp hr.symm)
    cases rule.symm.trans href
  | target rule leads _ ih => exact .target rule leads (ih hr)
  | @member _ entries listed _ _ _ rule shaped _ ih =>
    refine .member rule ?_ (ih hr)
    rcases List.mem_append.mp shaped with hm | hm
    · obtain ⟨v, hv, heq⟩ := List.mem_map.mp hm
      cases heq
      exact (List.mem_filter.mp hv).1
    · simp at hm
  | beside _ _ => cases hr
  | @demanded origin entries listed name rule demands _ _ =>
    rcases List.mem_append.mp demands with hd | hd
    · refine .own (fun ref href => ?_) hd
      cases rule.symm.trans href
    · obtain ⟨v, hv, hname⟩ := List.mem_flatMap.mp hd
      obtain ⟨hmem, hremark⟩ := List.mem_filter.mp hv
      refine .member rule hmem ?_
      cases v with
      | mapping _ _ => exact .own (ruleOf_ne_reference_of_isRemark hremark) hname
      | _ => cases hname
  | alternative rule _ ih => exact .alternative rule (ih hr)

/-! ### The fields of records -/

/-- The fields are those that are given, and each of them is required if it is given as required. -/
structure Describes (gives : String → Bool → Prop) (fields : List (Field Shape)) : Prop where
  declared : ∀ name, name ∈ fields.map (·.name) ↔ ∃ required, gives name required
  required : ∀ f ∈ fields, f.required = true ↔ gives f.name true

/-- The fields are those that are given, perhaps several of one name, of which one is required if the
name is given as required. -/
structure Gathered (gives : String → Bool → Prop) (fields : List (Field Shape)) : Prop where
  declared : ∀ name, name ∈ fields.map (·.name) ↔ ∃ required, gives name required
  required : ∀ name, (∃ f ∈ fields, f.name = name ∧ f.required = true) ↔ gives name true

theorem Describes.congr (h : Describes gives fields)
    (hg : ∀ name required, gives name required ↔ gives' name required) :
    Describes gives' fields := by
  obtain rfl : gives = gives' := funext fun name => funext fun required => propext (hg name required)
  exact h

theorem Describes.gathered (h : Describes gives fields) : Gathered gives fields where
  declared := h.declared
  required name := by
    constructor
    · rintro ⟨f, hf, rfl, hr⟩
      exact (h.required f hf).mp hr
    · intro hg
      obtain ⟨f, hf, rfl⟩ := List.mem_map.mp ((h.declared name).mpr ⟨true, hg⟩)
      exact ⟨f, hf, rfl, (h.required f hf).mpr hg⟩

theorem gathered_nil : Gathered (fun _ _ => False) [] where
  declared := by simp
  required := by simp

theorem Gathered.append (h : Gathered gives fields) (h' : Gathered gives' more) :
    Gathered (fun name required => gives name required ∨ gives' name required) (fields ++ more) where
  declared name := by
    rw [List.map_append, List.mem_append, h.declared, h'.declared, exists_or]
  required name := by
    rw [← h.required, ← h'.required]
    simp only [List.mem_append, or_and_right, exists_or]

/-- Fields that are merged are each given once. -/
theorem Unites.describes (h : Unites all fields) (hg : Gathered gives all) :
    Describes gives fields where
  declared name := by rw [h.mem_names_iff, hg.declared]
  required f hf := by rw [h.required f hf, hg.required]

/-- Names that are demanded make the fields required that are there. -/
theorem Describes.demand (h : Describes gives fields) (names : List Value) :
    Describes (fun name required => gives name required ∨
      (required = true ∧ .text name ∈ names ∧ gives name false)) (fields.map (demand names)) where
  declared name := by
    have hnames : (fields.map (Canon.demand names)).map (·.name) = fields.map (·.name) := by
      simp [Function.comp_def]
    rw [hnames, h.declared]
    constructor
    · rintro ⟨required, hg⟩
      exact ⟨required, .inl hg⟩
    · rintro ⟨required, hg | ⟨-, -, hg⟩⟩
      · exact ⟨required, hg⟩
      · exact ⟨false, hg⟩
  required f hf := by
    obtain ⟨g, hg, rfl⟩ := List.mem_map.mp hf
    rw [demand_required_iff, demand_name, h.required g hg]
    obtain ⟨required, hgiven⟩ := (h.declared g.name).mp (List.mem_map_of_mem hg)
    constructor
    · rintro (ht | hn)
      · exact .inl ht
      · cases required with
        | true => exact .inl hgiven
        | false => exact .inr ⟨rfl, hn, hgiven⟩
    · rintro (ht | ⟨-, hn, -⟩)
      · exact .inl ht
      · exact .inr hn

/-! ### The fields that a schema reads as -/

theorem contains_of_requiredNames {names : List String} (h : requiredNames entries = .ok names)
    (name : String) (origin : Nat) :
    names.contains name = (requiredValues (.mapping origin entries)).any (·.isText name) := by
  rw [Bool.eq_iff_iff, any_isText_iff, List.contains_iff_mem]
  unfold requiredNames at h
  unfold requiredValues Value.member?
  split at h
  · next listed hl =>
    simp only [hl]
    split at h
    · cases h
      rw [List.mem_filterMap]
      constructor
      · rintro ⟨v, hv, hname⟩
        split at hname
        · cases hname
          exact hv
        · cases hname
      · exact fun hv => ⟨_, hv, rfl⟩
    · cases h
  · next hno =>
    cases h
    simp

theorem ReadsFields.names_eq {names : List String} {properties : Entries}
    (h : ReadsFields sub names properties fields) :
    fields.map (·.name) = properties.map (·.1.display) := by
  induction h with
  | nil => rfl
  | cons _ _ _ ih => rw [List.map_cons, List.map_cons, ih]

theorem ReadsFields.required_eq {names : List String} {properties : Entries}
    (h : ReadsFields sub names properties fields) :
    ∀ f ∈ fields, f.required = names.contains f.name := by
  induction h with
  | nil => simp
  | cons _ _ _ ih => exact List.forall_mem_cons.mpr ⟨rfl, ih⟩

/-- The fields of a record are those of its properties, and those in its list are required. -/
theorem ReadsRecord.describes (h : ReadsRecord sub entries source
    (.record fields trailer description source)) (origin : Nat) :
    Describes (fun name required => name ∈ (propertiesOf entries).map (·.1.display) ∧
      required = (requiredValues (.mapping origin entries)).any (·.isText name)) fields := by
  cases h with
  | intro names properties _ _ =>
    refine ⟨fun name => ?_, fun f hf => ?_⟩
    · rw [properties.names_eq]
      simp only [exists_and_left, exists_eq, and_true]
    · rw [properties.required_eq f hf, contains_of_requiredNames names f.name origin]
      have hname : f.name ∈ (propertiesOf entries).map (·.1.display) :=
        properties.names_eq ▸ List.mem_map_of_mem hf
      simp only [hname, true_and, eq_comm]

/-- What stands beside the list of a composition requires nothing. -/
theorem ReadsRecord.describes_beside (h : ReadsRecord sub only source
    (.record fields trailer description source)) (ho : besideOf entries = some only) :
    Describes (MemberGives document (.beside only)) fields := by
  refine (h.describes 0).congr fun name required => ?_
  have hnone : requiredValues (.mapping 0 only) = [] := by
    simp [requiredValues, Value.member?, (text?_of_besideOf ho).2.2]
  rw [hnone]
  rfl

/-- Members that are merged give their fields together. -/
theorem ReadsMembers.gathered {members : List Member}
    (h : ReadsMembers definitions sub fields trailer members fields' trailer')
    (hu : Unites all fields) (hg : Gathered gives all)
    (hm : ∀ member ∈ members, ∀ node fields trailer description source,
      ReadsMember sub member node →
        definitions.dereference node = some (.record fields trailer description source) →
          Describes (MemberGives document member) fields) :
    Describes (fun name required => gives name required ∨
      ∃ member ∈ members, MemberGives document member name required) fields' := by
  induction h generalizing gives all with
  | nil => exact (hu.describes hg).congr fun name required => by simp
  | cons head record merge _ ih =>
    obtain ⟨hmember, hrest⟩ := List.forall_mem_cons.mp hm
    have hmore := (hmember _ _ _ _ _ head record).gathered
    refine (ih (hu.of_mergeFields merge) (hg.append hmore) hrest).congr fun name required => ?_
    rw [List.exists_mem_cons_iff, or_assoc]

/-- Alternatives come to the first of them, or else to a union. -/
theorem eq_first_of_joins {first node : Shape} {rest : List Shape}
    (h : Shape.Joins (first :: rest) node) :
    node = first ∨ ∃ variants discriminator, node = .union variants discriminator := by
  rcases h with h | ⟨discriminator, h⟩
  · obtain ⟨kept, hk⟩ := Shape.distinct_cons first rest
    rw [h] at hk
    cases hk
    exact .inl rfl
  · exact .inr ⟨_, discriminator, h⟩

/-- If the shape is a record, the entries read as it. -/
def RecordsRead (sub : Value → Shape → Prop) (entries : Entries) (node : Shape) : Prop :=
  ∀ fields trailer description source, node = .record fields trailer description source →
    ReadsRecord sub entries source node

theorem ReadsRecord.recordsRead {node : Shape} (h : ReadsRecord sub entries source node) :
    RecordsRead sub entries node := by
  rintro fields trailer description source rfl
  cases h with
  | intro names properties further described => exact ⟨names, properties, further, described⟩

theorem ReadsType.recordsRead {source : Source} {type : Scalar} {node : Shape}
    (h : ReadsType sub entries source type node) : RecordsRead sub entries node := by
  unfold ReadsType at h
  split at h
  · obtain ⟨element, -, rfl⟩ := h
    intro _ _ _ _ he
    cases he
  · exact h.recordsRead
  · intro _ _ _ _ he
    cases h.symm.trans he
  · intro _ _ _ _ he
    cases h.symm.trans he

mutual

theorem ReadsTypes.recordsRead : ∀ {source : Source} {type : Value} {node : Shape},
    ReadsTypes sub entries source type node → RecordsRead sub entries node
  | _, .scalar _, _, h => ReadsType.recordsRead h
  | _, .list _, node, ⟨nodes, hn, he⟩ => by
    intro fields trailer description source hr
    have hall := ReadsEachType.recordsRead hn
    cases nodes with
    | nil => exact nomatch he.symm.trans hr
    | cons first rest =>
      -- what several types come to is a record only if it is the first of their shapes
      have hj : Shape.Joins (first :: rest) node := he ▸ joins_ofSeveral (List.cons_ne_nil _ _)
      rcases eq_first_of_joins hj with rfl | ⟨_, _, rfl⟩
      · exact hall node List.mem_cons_self fields trailer description source hr
      · cases hr
  | _, .mapping _ _, _, h => fun _ _ _ _ he => nomatch h.symm.trans he

theorem ReadsEachType.recordsRead : ∀ {source : Source} {index : Nat} {types : List Value}
    {nodes : List Shape}, ReadsEachType sub entries source index types nodes →
      ∀ node ∈ nodes, RecordsRead sub entries node
  | _, _, [], _, h, node, hm => by simp [show _ = [] from h] at hm
  | _, _, _ :: _, _, ⟨first, others, hn, head, tail⟩, node, hm => by
    subst hn
    rcases List.mem_cons.mp hm with rfl | hm
    · exact ReadsTypes.recordsRead head
    · exact ReadsEachType.recordsRead tail node hm

end

/-! ### Rule by rule -/

section Rules

variable {node : Shape}

/-- A shape that leads to a record and is no handle is this record. -/
theorem eq_record_of_dereference (hno : ¬ node.IsDirect)
    (hr : definitions.dereference node = some (.record fields trailer description source)) :
    node = .record fields trailer description source := by
  have hne : ∀ target, node ≠ .handle target := by
    rintro target rfl
    exact hno trivial
  rw [Definitions.dereference_eq_self hne] at hr
  exact Option.some.inj hr

theorem enumeration_ne_record (values : Value) :
    enumeration values ≠ .record fields trailer description source := by
  unfold enumeration
  split
  · split <;> simp
  · simp

theorem ReadsTypes.describes {type : Value} {form : Source} (rule : ruleOf entries = .typed type)
    (h : ReadsTypes sub entries form type node)
    (hr : definitions.dereference node = some (.record fields trailer description source)) :
    Describes (Gives document (.mapping origin entries)) fields := by
  obtain rfl := eq_record_of_dereference h.not_isDirect hr
  have hrecord := h.recordsRead fields trailer description source rfl
  exact (hrecord.describes origin).congr fun _ _ => (gives_typed_iff rule).symm

variable (hsub : ∀ schema node fields trailer description source, sub schema node →
  definitions.dereference node = some (.record fields trailer description source) →
    Describes (Gives document schema) fields)
include hsub

theorem ReadsAlternatives.describes {members : Value} (rule : ruleOf entries = .alternatives members)
    (h : ReadsAlternatives definitions sub entries members node)
    (hr : definitions.dereference node = some (.record fields trailer description source)) :
    Describes (Gives document (.mapping origin entries)) fields := by
  have hno : ∀ {node : Shape}, ¬ node.IsDirect →
      (∀ fields trailer description source, node ≠ .record fields trailer description source) →
        definitions.dereference node ≠ some (.record fields trailer description source) :=
    fun hdirect hne hr => hne _ _ _ _ (eq_record_of_dereference hdirect hr)
  unfold ReadsAlternatives at h
  split at h
  · next first others =>
    obtain ⟨nodes, hnodes, hunion⟩ := h
    cases hnodes with
    | cons head _ =>
      rcases eq_first_of_joins hunion.joins with rfl | ⟨_, _, rfl⟩
      · exact (hsub _ _ _ _ _ _ head hr).congr fun _ _ => (gives_alternatives_iff rule).symm
      · exact absurd hr (hno id fun _ _ _ _ he => nomatch he)
  · subst h
    exact absurd hr (hno id fun _ _ _ _ he => nomatch he)

/-- The fields that the members of a composition are merged into. -/
theorem ReadsMembers.describes {members : List Member}
    (h : ReadsMembers definitions sub [] none members fields trailer)
    (hm : members ⊆ shapedMembers entries listed) :
    Describes (fun name required => ∃ member ∈ members, MemberGives document member name required)
      fields := by
  refine (h.gathered unites_nil gathered_nil ?_).congr fun _ _ => or_iff_right id
  intro member hmember node fields trailer description source hread hr
  cases member with
  | listed schema => exact hsub schema node fields trailer description source hread hr
  | beside only =>
    have hrecord : ReadsRecord sub only none node := hread
    obtain rfl := eq_record_of_dereference hrecord.not_isDirect hr
    have hfields := hrecord.recordsRead fields trailer description source rfl
    exact hfields.describes_beside (beside_mem_shapedMembers_iff.mp (hm hmember))

theorem ReadsComposition.describes (rule : ruleOf entries = .composition (.list listed))
    (h : ReadsComposition definitions sub origin entries listed node)
    (hr : definitions.dereference node = some (.record fields trailer description source)) :
    Describes (Gives document (.mapping origin entries)) fields := by
  cases h with
  | @beside only _ sole record =>
    obtain ⟨hmembers, hdemanded⟩ := mem_of_soleMember? sole
    have hm : Member.beside only ∈ shapedMembers entries listed := hmembers ▸ List.mem_singleton_self _
    have ho : besideOf entries = some only := beside_mem_shapedMembers_iff.mp hm
    obtain rfl := eq_record_of_dereference record.not_isDirect hr
    have hfields := record.recordsRead fields trailer description source rfl
    have hbeside : Describes (MemberGives document (.beside only)) fields :=
      hfields.describes_beside ho
    refine hbeside.congr fun name required => ?_
    rw [gives_composition_iff rule, hmembers, hdemanded]
    simp
  | passes sole head =>
    exact (hsub _ _ _ _ _ _ head hr).congr fun _ _ => (gives_passes_iff rule sole).symm
  | merges several members required described =>
    obtain rfl := Shape.record.inj (eq_record_of_dereference id hr) |>.1
    have hmerged := members.describes hsub (List.Subset.refl _)
    by_cases hk : (demanded entries listed).all Value.isKey = true
    · rw [requireFields_eq hk] at required
      cases required
      refine (hmerged.demand _).congr fun name required => ?_
      rw [gives_composition_iff rule]
    · rw [requireFields_eq_error hk] at required
      cases required

end Rules

end Canon

namespace Naming

open Canon

variable {ν : Type} {namer : Namer ν} {N : Naming namer} {document schema found : Value}
  {p p' : Progress ν} {context name ref : String} {node : Shape} {definitions : Definitions}
  {fields : List (Field Shape)} {trailer : Option Shape} {description : String}
  {source : Option Source} {origin : Nat} {entries : Entries} {listed : List Value}

variable (N document) in
/-- What reads as a shape that leads to a record gives the fields of this record. -/
def Discloses (p : Progress ν) (definitions : Definitions) : Prop :=
  ∀ depth schema node fields trailer description source,
    Reads (N.Points p) definitions depth schema node →
      definitions.dereference node = some (.record fields trailer description source) →
        Describes (Gives document schema) fields

/-- A handle that leads to a record has a target that gives the fields of this record. -/
theorem Walked.describes_target (hw : N.Walked document p) (hc : p.resolver.chain = [])
    (hd : definitions <+: p.definitions)
    (ih : ∀ earlier, earlier <+: definitions → earlier.length < definitions.length →
      N.Discloses document p earlier) {steps : Nat} (hp : N.Points p name ref)
    (ht : Resolver.target document ref = .ok found)
    (hr : Definitions.followIn definitions.find? steps (.handle name) =
      some (.record fields trailer description source)) :
    Describes (Gives document found) fields := by
  induction steps generalizing name ref found with
  | zero => cases hr
  | succ steps ihs =>
    rw [Definitions.followIn, Option.bind_eq_some_iff] at hr
    obtain ⟨next, hnext, hr⟩ := hr
    -- the name is defined as what the target reads as, by means of fewer definitions
    obtain ⟨earlier, later, hsplit⟩ := Definitions.exists_split hnext
    obtain ⟨rest, hrest⟩ := hd
    have hfull : p.definitions = earlier ++ (name, next) :: (later ++ rest) := by
      rw [← hrest, hsplit, List.append_assoc, List.cons_append]
    obtain ⟨ref', found', depth, hs, ht', hread⟩ := hw.read _ _ _ _ hfull
    cases hp.1.symm.trans hs
    cases ht.symm.trans ht'
    cases next with
    | handle target =>
      obtain ⟨ref', hp', href⟩ := hread.isRef fun _ _ => Points.unique
      obtain ⟨_, found', _, -, ht', -⟩ := hw.exists_read hc hp'
      exact (ihs hp' ht' hr).congr fun _ _ => (href.gives_iff ht').symm
    | _ =>
      have hrecord := hr
      rw [Definitions.followIn_eq_some (by simp)] at hrecord
      refine ih earlier ⟨_, hsplit.symm⟩ ?_ depth found _ fields trailer description source hread ?_
      · rw [hsplit, List.length_append, List.length_cons]
        omega
      · rw [Definitions.dereference_eq_self (by simp), hrecord]

/-- What reads as a shape that leads to a record gives the fields of this record. -/
theorem Walked.discloses (hw : N.Walked document p) (hc : p.resolver.chain = [])
    (hd : definitions <+: p.definitions) : N.Discloses document p definitions := by
  -- a handle leads to what was read by means of fewer definitions
  induction hn : definitions.length using Nat.strong_induction_on generalizing definitions with
  | h n ihn =>
    have ih : ∀ earlier, earlier <+: definitions → earlier.length < definitions.length →
        N.Discloses document p earlier := fun earlier he hlt =>
      ihn earlier.length (hn ▸ hlt) (he.trans hd) rfl
    intro depth
    induction depth with
    | zero => exact fun _ _ _ _ _ _ h => h.elim
    | succ depth ihd =>
      intro schema node fields trailer description source h hr
      cases schema with
      | mapping origin entries =>
        obtain ⟨plain, he, hplain⟩ := h
        cases hnull : isNullable entries with
        | true =>
          -- with null beside it nothing is a record
          rw [hnull, if_pos rfl] at hplain
          subst hplain
          have hrecord := eq_record_of_dereference (Shape.not_isDirect_orNull plain) hr
          exact absurd hrecord Shape.orNull_ne_record
        | false =>
          simp only [hnull, Bool.false_eq_true, if_false] at hplain
          subst hplain
          unfold ReadsEntries at he
          cases hrule : ruleOf entries with
          | reference r =>
            simp only [hrule] at he
            obtain ⟨ref, name, rfl, hp, rfl⟩ := he
            obtain ⟨_, found, _, -, ht, -⟩ := hw.exists_read hc hp
            exact (hw.describes_target hc hd ih hp ht hr).congr fun _ _ =>
              (gives_reference_iff hrule ht).symm
          | composition members =>
            simp only [hrule] at he
            obtain ⟨listed, rfl, hcomposition⟩ := he
            exact hcomposition.describes ihd hrule hr
          | alternatives members =>
            simp only [hrule] at he
            exact he.describes ihd hrule hr
          | values values =>
            simp only [hrule] at he
            rw [Definitions.dereference_eq_self (he ▸ fun _ => enumeration_ne_handle values)] at hr
            exact absurd (he.symm.trans (Option.some.inj hr)) (enumeration_ne_record values)
          | typed type =>
            simp only [hrule] at he
            exact he.describes hrule hr
      | _ =>
        obtain rfl : node = .unknown := h
        exact nomatch eq_record_of_dereference id hr

/-- Whatever has been walked before, a composition that leads to a record has the fields that its
members give. A field is required if the composition demands its name, by its own list or by that of a
member without a shape, or if a member gives the field as required. Its name is in one of the lists
then. -/
theorem Reached.required_iff (h : N.Reached document p)
    (rule : ruleOf entries = .composition (.list listed))
    (hs : (shapeOf namer context (.mapping origin entries)).runFrom p = (.ok node, p'))
    (hr : p'.definitions.dereference node = some (.record fields trailer description source)) :
    (∀ name, name ∈ fields.map (·.name) ↔ ∃ member ∈ shapedMembers entries listed, ∃ required,
      MemberGives document member name required) ∧
    ∀ f ∈ fields, (f.required = true ↔ .text f.name ∈ demanded entries listed ∨
        ∃ member ∈ shapedMembers entries listed, MemberGives document member f.name true) ∧
      (f.required = true → Asks document (.mapping origin entries) f.name) := by
  obtain ⟨hw, hc⟩ := h.between
  obtain ⟨he, hw', depth, hread⟩ := (shapeOf_ends hw hc _ _).of_ok hs
  have hdescribes : Describes (Gives document (.mapping origin entries)) fields :=
    hw'.discloses (he.chain_eq.trans hc) (List.prefix_refl _) depth _ node fields trailer description
      source hread hr
  have hdeclared : ∀ name, name ∈ fields.map (·.name) ↔
      ∃ member ∈ shapedMembers entries listed, ∃ required,
        MemberGives document member name required := by
    intro name
    rw [hdescribes.declared]
    simp only [gives_composition_iff rule]
    constructor
    · rintro ⟨required, ⟨member, hm, hg⟩ | ⟨-, -, member, hm, hg⟩⟩
      · exact ⟨member, hm, required, hg⟩
      · exact ⟨member, hm, false, hg⟩
    · rintro ⟨member, hm, required, hg⟩
      exact ⟨required, .inl ⟨member, hm, hg⟩⟩
  refine ⟨hdeclared, fun f hf => ⟨?_, fun hrequired => ?_⟩⟩
  · rw [hdescribes.required f hf, gives_composition_iff rule]
    constructor
    · rintro (hg | ⟨-, hd, -⟩)
      · exact .inr hg
      · exact .inl hd
    · rintro (hd | hg)
      · -- the field is given by some member, as required or not
        obtain ⟨member, hm, required, hg⟩ := (hdeclared f.name).mp (List.mem_map_of_mem hf)
        cases required with
        | true => exact .inl ⟨member, hm, hg⟩
        | false => exact .inr ⟨rfl, hd, member, hm, hg⟩
      · exact .inl hg
  · exact ((hdescribes.required f hf).mp hrequired).asks

/-- The component, and a member without a shape that requires an age. -/
def petMembers : List Value :=
  [.mapping 21 [(.text "$ref", .text "#/components/schemas/Pet")],
    .mapping 22 [(.text "required", .list [.text "age"])]]

/-- The members, with an age beside them. -/
def petEntries : Entries :=
  [(.text "allOf", .list petMembers),
    (.text "properties", .mapping 23 [(.text "age", .mapping 24 [(.text "type", .text "integer")])])]

/-- Records of the component, with an age that is required. -/
def petWithAge : Value := .mapping 20 petEntries

/-- One field is required by the component, and the other one by a member without a shape. -/
theorem required_petWithAge : ∃ node p fields trailer description source,
    (shapeOf Registry.nameFor "<inline>" petWithAge).runFrom
      (Progress.start ⟨[], [], []⟩ petDocument) = (.ok node, p) ∧
    p.definitions.dereference node = some (.record fields trailer description source) ∧
    fields.map (fun f => (f.name, f.required)) = [("name", true), ("age", true)] ∧
    ∀ f ∈ fields, Asks petDocument petWithAge f.name := by
  have hstart : Registry.naming.Reached petDocument (Progress.start ⟨[], [], []⟩ petDocument) :=
    .start (Registry.sound_start [])
  have hrun : ((shapeOf Registry.nameFor "<inline>" petWithAge).runFrom
      (Progress.start ⟨[], [], []⟩ petDocument)).1 = .ok (.record
        [⟨"name", .primitive .string .null, true, ""⟩, ⟨"age", .primitive .integer .null, true, ""⟩]
        none "" (some ⟨20, []⟩)) := rfl
  refine ⟨_, _, _, _, _, _, Prod.ext hrun rfl, rfl, rfl, ?_⟩
  have hall := (hstart.required_iff rfl (Prod.ext hrun rfl) rfl).2
  intro f hf
  have hrequired : f.required = true := by
    simp only [List.mem_cons, List.not_mem_nil, or_false] at hf
    rcases hf with rfl | rfl <;> rfl
  exact (hall f hf).2 hrequired

/-- Two records, of which the first one requires the field of the second one. -/
def crossRequired : Value :=
  .mapping 1 [(.text "allOf", .list [
    .mapping 2 [(.text "type", .text "object"),
      (.text "properties", .mapping 3 [(.text "a", .mapping 4 [(.text "type", .text "string")])]),
      (.text "required", .list [.text "b"])],
    .mapping 5 [(.text "type", .text "object"),
      (.text "properties", .mapping 6 [(.text "b", .mapping 7 [(.text "type", .text "string")])])]])]

/-- A field whose name is in the list of a member is not always required. -/
theorem not_required_iff_asks : ¬ ∀ (document : Value) (origin : Nat) (entries : Entries)
    (listed : List Value) (node : Shape) (p : Progress Registry) (fields : List (Field Shape))
    (trailer : Option Shape) (description : String) (source : Option Source),
    ruleOf entries = .composition (.list listed) →
    (shapeOf Registry.nameFor "<inline>" (.mapping origin entries)).runFrom
      (Progress.start ⟨[], [], []⟩ document) = (.ok node, p) →
    p.definitions.dereference node = some (.record fields trailer description source) →
    ∀ f ∈ fields, f.required = true ↔ Asks document (.mapping origin entries) f.name := by
  intro hall
  have hrun : ((shapeOf Registry.nameFor "<inline>" crossRequired).runFrom
      (Progress.start ⟨[], [], []⟩ (.mapping 0 []))).1 = .ok (.record
        [⟨"a", .primitive .string .null, false, ""⟩, ⟨"b", .primitive .string .null, false, ""⟩]
        none "" (some ⟨1, []⟩)) := rfl
  have hasks : Asks (.mapping 0 []) crossRequired "b" := by
    refine .member rfl List.mem_cons_self (.own (fun _ h => nomatch h) ?_)
    exact List.mem_singleton_self _
  have hb := hall _ _ _ _ _ _ _ _ _ _ rfl (Prod.ext hrun rfl) rfl
    ⟨"b", .primitive .string .null, false, ""⟩ (by simp)
  exact nomatch hb.mpr hasks

end Naming

end RouteStubs
