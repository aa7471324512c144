import RouteStubs.Proofs.Schema.Definitions
import RouteStubs.Proofs.Schema.Rules
import RouteStubs.Proofs.Shape

/-!
# What a schema reads as

The canonical form of a schema, as a relation and without a state: given which reference each name
stands for, and given the definitions that were found before, a schema reads as a shape. Each rule
is the one of the walk with the state left out. Members of a composition are followed into the
definitions; nothing else looks into them but the discriminator of a union, which was looked for
among some of them.

## Main definitions

* `Canon.Reads points definitions n schema node`: the schema reads as the shape, within a depth.
* `Canon.ReadsRecord`, `Canon.ReadsComposition`, `Canon.ReadsUnion`, `Canon.ReadsTypes`: its rules.
* `Canon.ReadsSource`: the rules that make a record of a mapping.

## Main statements

* `Canon.Reads.mono`: more names and more definitions leave readings as they are.
-/

namespace RouteStubs

namespace Canon

variable {points points' : String → String → Prop} {definitions definitions' : Definitions}
  {sub sub' : Value → Shape → Prop} {node : Shape}

/-! ### Records -/

/-- The properties read as the fields, in their order. -/
inductive ReadsFields (sub : Value → Shape → Prop) (required : List String) :
    Entries → List (Field Shape) → Prop
  | nil : ReadsFields sub required [] []
  | cons {key : Scalar} {property : Value} {rest : Entries} {node : Shape} {description : String}
      {fields : List (Field Shape)} (head : sub property node)
      (described : fieldDescription property = .ok description)
      (tail : ReadsFields sub required rest fields) :
      ReadsFields sub required ((key, property) :: rest)
        (⟨key.display, node, required.contains key.display, description⟩ :: fields)

/-- What a record says about further fields reads as the trailer. -/
def ReadsTrailer (sub : Value → Shape → Prop) (entries : Entries) (trailer : Option Shape) : Prop :=
  match entries.text? "additionalProperties" with
  | some (.scalar (.bool true)) => trailer = some .unknown
  | some (.mapping origin more) => ∃ node, sub (.mapping origin more) node ∧ trailer = some node
  | _ => trailer = none

/-- The entries read as the record, which has this identity. -/
inductive ReadsRecord (sub : Value → Shape → Prop) (entries : Entries) (source : Option Source) :
    Shape → Prop
  | intro {required : List String} {fields : List (Field Shape)} {trailer : Option Shape}
      {description : String} (names : requiredNames entries = .ok required)
      (properties : ReadsFields sub required (propertiesOf entries) fields)
      (further : ReadsTrailer sub entries trailer)
      (described : Prose.ofMember entries "description" = .ok description) :
      ReadsRecord sub entries source (.record fields trailer description source)

theorem ReadsFields.mono {required : List String} {properties : Entries}
    {fields : List (Field Shape)} (hs : ∀ p ∈ properties, ∀ s, sub p.2 s → sub' p.2 s)
    (h : ReadsFields sub required properties fields) :
    ReadsFields sub' required properties fields := by
  induction h with
  | nil => exact .nil
  | cons head described _ ih =>
    exact .cons (hs _ List.mem_cons_self _ head) described
      (ih fun p hp => hs p (List.mem_cons_of_mem _ hp))

theorem ReadsTrailer.mono {entries : Entries} {trailer : Option Shape}
    (hs : ∀ v, furtherOf entries = some v → ∀ s, sub v s → sub' v s)
    (h : ReadsTrailer sub entries trailer) : ReadsTrailer sub' entries trailer := by
  unfold ReadsTrailer furtherOf at *
  split at h
  · exact h
  · next origin more hmore =>
    obtain ⟨node, hn, rfl⟩ := h
    exact ⟨node, hs _ (by rw [hmore]) _ hn, rfl⟩
  · exact h

theorem ReadsRecord.mono {entries : Entries} {source : Option Source}
    (hs : ∀ v ∈ recordParts entries, ∀ s, sub v s → sub' v s)
    (h : ReadsRecord sub entries source node) : ReadsRecord sub' entries source node := by
  obtain ⟨names, properties, further, described⟩ := h
  refine ⟨names, properties.mono fun p hp => hs _ ?_, further.mono fun v hv => hs v ?_, described⟩
  · exact List.mem_append_left _ (List.mem_map_of_mem hp)
  · exact List.mem_append_right _ (by simp [hv])

/-! ### Compositions -/

/-- A member of a composition reads as the shape. -/
def ReadsMember (sub : Value → Shape → Prop) : Member → Shape → Prop
  | .listed schema, node => sub schema node
  | .beside entries, node => ReadsRecord sub entries none node

/-- The members read as records, by way of the definitions, and merged into the fields and the
trailer they make the fields and the trailer at the end. -/
inductive ReadsMembers (definitions : Definitions) (sub : Value → Shape → Prop) :
    List (Field Shape) → Option Shape → List Member → List (Field Shape) → Option Shape → Prop
  | nil {fields : List (Field Shape)} {trailer : Option Shape} :
      ReadsMembers definitions sub fields trailer [] fields trailer
  | cons {fields more merged fields' : List (Field Shape)} {trailer tail trailer' : Option Shape}
      {member : Member} {rest : List Member} {node : Shape} {description context : String}
      {source : Option Source} (head : ReadsMember sub member node)
      (record : definitions.dereference node = some (.record more tail description source))
      (merge : mergeFields context fields more = .ok merged)
      (others : ReadsMembers definitions sub merged (trailer.or tail) rest fields' trailer') :
      ReadsMembers definitions sub fields trailer (member :: rest) fields' trailer'

/-- The composition reads as the shape. -/
inductive ReadsComposition (definitions : Definitions) (sub : Value → Shape → Prop) (origin : Nat)
    (entries : Entries) (listed : List Value) : Shape → Prop
  | beside {only : Entries} {node : Shape}
      (sole : soleMember? (shapedMembers entries listed) (demanded entries listed) =
        some (.beside only))
      (record : ReadsRecord sub only (some ⟨origin, []⟩) node) :
      ReadsComposition definitions sub origin entries listed node
  | passes {schema : Value} {node : Shape}
      (sole : soleMember? (shapedMembers entries listed) (demanded entries listed) =
        some (.listed schema))
      (head : sub schema node) : ReadsComposition definitions sub origin entries listed node
  | merges {fields fields' : List (Field Shape)} {trailer : Option Shape} {description : String}
      (several : soleMember? (shapedMembers entries listed) (demanded entries listed) = none)
      (members : ReadsMembers definitions sub [] none (shapedMembers entries listed) fields trailer)
      (required : requireFields fields (demanded entries listed) = .ok fields')
      (described : Prose.ofMember entries "description" = .ok description) :
      ReadsComposition definitions sub origin entries listed
        (.record fields' trailer description (some ⟨origin, []⟩))

theorem ReadsMember.mono {member : Member}
    (hs : ∀ v ∈ memberParts member, ∀ s, sub v s → sub' v s) (h : ReadsMember sub member node) :
    ReadsMember sub' member node := by
  cases member with
  | listed schema => exact hs schema (List.mem_singleton_self _) _ h
  | beside entries => exact ReadsRecord.mono hs h

theorem ReadsMembers.mono {fields fields' : List (Field Shape)} {trailer trailer' : Option Shape}
    {members : List Member} (hd : definitions <+: definitions')
    (hs : ∀ v ∈ members.flatMap memberParts, ∀ s, sub v s → sub' v s)
    (h : ReadsMembers definitions sub fields trailer members fields' trailer') :
    ReadsMembers definitions' sub' fields trailer members fields' trailer' := by
  induction h with
  | nil => exact .nil
  | cons head record merge _ ih =>
    rw [List.flatMap_cons] at hs
    exact .cons (head.mono fun v hv => hs v (List.mem_append_left _ hv))
      (Definitions.dereference_mono hd record) merge
      (ih fun v hv => hs v (List.mem_append_right _ hv))

theorem mem_of_soleMember? {members : List Member} {required : List Value} {member : Member}
    (h : soleMember? members required = some member) : members = [member] ∧ required = [] := by
  unfold soleMember? at h
  split at h
  · simp_all
  · cases h

theorem ReadsComposition.mono {origin : Nat} {entries : Entries} {listed : List Value}
    (hd : definitions <+: definitions')
    (hs : ∀ v ∈ (shapedMembers entries listed).flatMap memberParts, ∀ s, sub v s → sub' v s)
    (h : ReadsComposition definitions sub origin entries listed node) :
    ReadsComposition definitions' sub' origin entries listed node := by
  cases h with
  | beside sole record =>
    rw [(mem_of_soleMember? sole).1] at hs
    exact .beside sole (record.mono (by simpa [memberParts] using hs))
  | passes sole head =>
    rw [(mem_of_soleMember? sole).1] at hs
    exact .passes sole (hs _ (by simp [memberParts]) _ head)
  | merges several members required described =>
    exact .merges several (members.mono hd hs) required described

/-! ### Unions -/

/-- Distinct shapes read as the only one, or else as their union. The discriminator is the one that
was found among definitions finished by then. -/
def ReadsUnion (definitions : Definitions) (entries : Entries) : List Shape → Shape → Prop
  | [only], node => node = only
  | several, node => ∃ earlier, earlier <+: definitions ∧
      node = .union several
        (Shape.discriminator? earlier several (explicitDiscriminator entries))

/-- The members of a union read as the shape. -/
def ReadsAlternatives (definitions : Definitions) (sub : Value → Shape → Prop) (entries : Entries) :
    Value → Shape → Prop
  | .list (first :: others), node => ∃ nodes, List.Forall₂ sub (first :: others) nodes ∧
      ReadsUnion definitions entries (Shape.distinct nodes) node
  | _, node => node = .unknown

theorem ReadsUnion.mono {entries : Entries} {several : List Shape}
    (hd : definitions <+: definitions') (h : ReadsUnion definitions entries several node) :
    ReadsUnion definitions' entries several node := by
  unfold ReadsUnion at *
  split at h
  · exact h
  · obtain ⟨earlier, he, rfl⟩ := h
    exact ⟨earlier, he.trans hd, rfl⟩

theorem forall₂_mono {schemas : List Value} {nodes : List Shape}
    (hs : ∀ v ∈ schemas, ∀ s, sub v s → sub' v s) (h : List.Forall₂ sub schemas nodes) :
    List.Forall₂ sub' schemas nodes := by
  induction h with
  | nil => exact .nil
  | cons head _ ih =>
    exact .cons (hs _ List.mem_cons_self _ head) (ih fun v hv => hs v (List.mem_cons_of_mem _ hv))

theorem ReadsAlternatives.mono {entries : Entries} {members : List Value}
    (hd : definitions <+: definitions') (hs : ∀ v ∈ members, ∀ s, sub v s → sub' v s)
    (h : ReadsAlternatives definitions sub entries (.list members) node) :
    ReadsAlternatives definitions' sub' entries (.list members) node := by
  cases members with
  | nil => exact h
  | cons first others =>
    obtain ⟨nodes, hn, hu⟩ := h
    exact ⟨nodes, forall₂_mono hs hn, hu.mono hd⟩

/-! ### Types -/

/-- The entries read with one type as the shape. -/
def ReadsType (sub : Value → Shape → Prop) (entries : Entries) (source : Source) (type : Scalar)
    (node : Shape) : Prop :=
  match formOf entries type with
  | .array => ∃ element, sub (itemsOf entries) element ∧ node = .array element
  | .record => ReadsRecord sub entries (some source) node
  | .primitive kind => node = .primitive kind ((entries.text? "format").getD .null)
  | .anything => node = .unknown

mutual

/-- The entries read with a type, or with several, as the shape. -/
def ReadsTypes (sub : Value → Shape → Prop) (entries : Entries) (source : Source) :
    Value → Shape → Prop
  | .scalar type, node => ReadsType sub entries source type node
  | .list types, node => ∃ nodes, ReadsEachType sub entries source 0 types nodes ∧
      node = ofSeveral nodes
  | .mapping _ _, node => node = .unknown

/-- The entries read with each of several types as the shapes. -/
def ReadsEachType (sub : Value → Shape → Prop) (entries : Entries) (source : Source) (index : Nat) :
    List Value → List Shape → Prop
  | [], nodes => nodes = []
  | type :: rest, nodes => ∃ node others, nodes = node :: others ∧
      ReadsTypes sub entries (readingOf source index type) type node ∧
      ReadsEachType sub entries source (index + 1) rest others

end

theorem ReadsType.mono {entries : Entries} {source : Source} {type : Scalar}
    (hs : ∀ v ∈ typeParts entries (.scalar type), ∀ s, sub v s → sub' v s)
    (h : ReadsType sub entries source type node) : ReadsType sub' entries source type node := by
  unfold ReadsType at *
  rw [typeParts] at hs
  cases hf : formOf entries type with
  | array =>
    simp only [hf] at h hs ⊢
    obtain ⟨element, he, rfl⟩ := h
    exact ⟨element, hs _ (List.mem_singleton_self _) _ he, rfl⟩
  | record =>
    simp only [hf] at h hs ⊢
    exact h.mono hs
  | primitive kind =>
    simp only [hf] at h ⊢
    exact h
  | anything =>
    simp only [hf] at h ⊢
    exact h

mutual

theorem ReadsTypes.mono {entries : Entries} : ∀ {source : Source} {type : Value} {node : Shape},
    (∀ v ∈ typeParts entries type, ∀ s, sub v s → sub' v s) →
      ReadsTypes sub entries source type node → ReadsTypes sub' entries source type node
  | _, .scalar _, _, hs, h => ReadsType.mono hs h
  | _, .list _, _, hs, ⟨nodes, hn, hu⟩ => ⟨nodes, ReadsEachType.mono hs hn, hu⟩
  | _, .mapping _ _, _, _, h => h

theorem ReadsEachType.mono {entries : Entries} :
    ∀ {source : Source} {index : Nat} {types : List Value} {nodes : List Shape},
      (∀ v ∈ typesParts entries types, ∀ s, sub v s → sub' v s) →
        ReadsEachType sub entries source index types nodes →
          ReadsEachType sub' entries source index types nodes
  | _, _, [], _, _, h => h
  | _, _, _ :: _, _, hs, ⟨node, others, hn, head, tail⟩ =>
    ⟨node, others, hn, ReadsTypes.mono (fun v hv => hs v (List.mem_append_left _ hv)) head,
      ReadsEachType.mono (fun v hv => hs v (List.mem_append_right _ hv)) tail⟩

end

/-! ### Records of a mapping -/

/-- The entries of a mapping read as the record that has this identity. A composition that passes its
member on makes no record of its own. -/
inductive ReadsSource (definitions : Definitions) (sub : Value → Shape → Prop) (origin : Nat)
    (entries : Entries) : Source → Shape → Prop
  | typed {type : Value} {form : List Nat} {node : Shape} (rule : ruleOf entries = .typed type)
      (record : ReadsRecord sub entries (some ⟨origin, form⟩) node) :
      ReadsSource definitions sub origin entries ⟨origin, form⟩ node
  | composed {listed : List Value} {node : Shape} (rule : ruleOf entries = .composition (.list listed))
      (own : ∀ schema, soleMember? (shapedMembers entries listed) (demanded entries listed) ≠
        some (.listed schema))
      (composition : ReadsComposition definitions sub origin entries listed node) :
      ReadsSource definitions sub origin entries ⟨origin, []⟩ node

theorem ReadsSource.origin_eq {origin : Nat} {entries : Entries} {source : Source}
    (h : ReadsSource definitions sub origin entries source node) : source.origin = origin := by
  cases h <;> rfl

theorem ReadsSource.exists_record {origin : Nat} {entries : Entries} {source : Source}
    (h : ReadsSource definitions sub origin entries source node) :
    ∃ fields trailer description, node = .record fields trailer description (some source) := by
  cases h with
  | typed _ record =>
    cases record
    exact ⟨_, _, _, rfl⟩
  | composed _ own composition =>
    cases composition with
    | beside _ record =>
      cases record
      exact ⟨_, _, _, rfl⟩
    | passes sole _ => exact absurd sole (own _)
    | merges _ _ _ _ => exact ⟨_, _, _, rfl⟩

theorem ReadsSource.mono {origin : Nat} {entries : Entries} {source : Source}
    (hd : definitions <+: definitions') (hs : ∀ v s, sub v s → sub' v s)
    (h : ReadsSource definitions sub origin entries source node) :
    ReadsSource definitions' sub' origin entries source node := by
  cases h with
  | typed rule record => exact .typed rule (record.mono fun v _ => hs v)
  | composed rule own composition => exact .composed rule own (composition.mono hd fun v _ => hs v)

/-! ### Schemas -/

/-- The entries of a mapping read as the shape, `nullable` aside. -/
def ReadsEntries (points : String → String → Prop) (definitions : Definitions)
    (sub : Value → Shape → Prop) (origin : Nat) (entries : Entries) (node : Shape) : Prop :=
  match ruleOf entries with
  | .reference ref => ∃ r name, ref = .text r ∧ points name r ∧ node = .handle name
  | .composition members => ∃ listed, members = .list listed ∧
      ReadsComposition definitions sub origin entries listed node
  | .alternatives members => ReadsAlternatives definitions sub entries members node
  | .values listed => node = enumeration listed
  | .typed type => ReadsTypes sub entries ⟨origin, []⟩ type node

/-- Whether a mapping admits null beside what it says. -/
def isNullable (entries : Entries) : Bool :=
  match entries.text? "nullable" with
  | some (.scalar (.bool true)) => true
  | _ => false

theorem isNullable_of_text? {entries : Entries}
    (h : entries.text? "nullable" = some (.bool true)) : isNullable entries = true := by
  unfold isNullable
  rw [h]

theorem isNullable_eq_false {entries : Entries}
    (h : entries.text? "nullable" ≠ some (.bool true)) : isNullable entries = false := by
  unfold isNullable
  split
  · next hnull => exact absurd hnull h
  · rfl

/-- The schema reads as the shape, no more than a number of schemas deep. A handle in the shape has
a name that points to the reference in its place. -/
def Reads (points : String → String → Prop) (definitions : Definitions) :
    (depth : Nat) → Value → Shape → Prop
  | 0, _, _ => False
  | depth + 1, .mapping origin entries, node => ∃ plain,
      ReadsEntries points definitions (Reads points definitions depth) origin entries plain ∧
        node = if isNullable entries then plain.orNull else plain
  | _ + 1, .list _, node => node = .unknown
  | _ + 1, .scalar _, node => node = .unknown

theorem ReadsEntries.mono {origin : Nat} {entries : Entries}
    (hp : ∀ name r, points name r → points' name r) (hd : definitions <+: definitions')
    (hs : ∀ v s, sub v s → sub' v s)
    (h : ReadsEntries points definitions sub origin entries node) :
    ReadsEntries points' definitions' sub' origin entries node := by
  unfold ReadsEntries at *
  cases hr : ruleOf entries with
  | reference ref =>
    simp only [hr] at h ⊢
    obtain ⟨r, name, hr, hname, hn⟩ := h
    exact ⟨r, name, hr, hp _ _ hname, hn⟩
  | composition members =>
    simp only [hr] at h ⊢
    obtain ⟨listed, hl, hc⟩ := h
    exact ⟨listed, hl, hc.mono hd fun v _ => hs v⟩
  | alternatives members =>
    simp only [hr] at h ⊢
    cases members with
    | list members => exact h.mono hd fun v _ => hs v
    | _ => exact h
  | values listed =>
    simp only [hr] at h ⊢
    exact h
  | typed type =>
    simp only [hr] at h ⊢
    exact ReadsTypes.mono (fun v _ => hs v) h

theorem Reads.mono {depth : Nat} {schema : Value} (hp : ∀ name r, points name r → points' name r)
    (hd : definitions <+: definitions') (h : Reads points definitions depth schema node) :
    Reads points' definitions' depth schema node := by
  induction depth generalizing schema node with
  | zero => exact h
  | succ depth ih =>
    cases schema with
    | mapping origin entries =>
      obtain ⟨plain, he, hn⟩ := h
      exact ⟨plain, he.mono hp hd fun _ _ => ih, hn⟩
    | _ => exact h

end Canon

end RouteStubs
