import RouteStubs.Proofs.Renamed.Resolver
import RouteStubs.Proofs.Renamed.Rules
import RouteStubs.Proofs.Schema.Course
import RouteStubs.Proofs.Schema.Throughout

/-!
# The walk with other identities

A walk through a schema and one through the same schema with other identities go alongside each other.
Each rule asks only for its parts, so one rule after the other is shown to match itself on renamed
schemas, as long as the walks through its parts match. On the way it is seen which faults the rule can
have, and where the formats of the shapes that it makes come from.

## Main definitions

* `Progress.rename f`: the state of the walk with other identities.
* `Canon.Together`: the states of the two walks.
* `Canon.Renamed`: the shapes that the two walks find.
* `Canon.level`: one level of the walk.

## Main statements

* `Canon.recordOf_matches`, `Canon.composition_matches`, `Canon.alternatives_matches`,
  `Canon.ofTypes_matches`, `Canon.reference_matches`: the rules.
* `Canon.level_matches`: one level of the walk.
-/

namespace RouteStubs

open Shape

/-- The state of the walk with other identities. Names do not depend on identities. -/
def Progress.rename {ν : Type} (f : Nat → Nat) (p : Progress ν) : Progress ν :=
  ⟨p.names, p.resolver.rename f, p.definitions.rename f,
    p.deferred.map fun d => (d.1.map (Shape.rename f), d.2.rename f)⟩

variable {ν α : Type} {f : Nat → Nat}

theorem Definitions.rename_id (definitions : Definitions) : definitions.rename id = definitions := by
  simp [Definitions.rename, Shape.rename_id]

theorem Progress.rename_id (p : Progress ν) : p.rename id = p := by
  have hdeferred :
      p.deferred.map (fun d => (d.1.map (Shape.rename id), d.2.rename id)) = p.deferred := by
    simp [Shape.map_rename_id, Value.rename_id]
  rw [rename, hdeferred, Resolver.rename_id, Definitions.rename_id]

theorem Keyed.put_map {β : Type} (g : α → β) (pairs : List (String × α)) (name : String) (v : α) :
    Keyed.put (pairs.map fun e => (e.1, g e.2)) name (g v) =
      (Keyed.put pairs name v).map fun e => (e.1, g e.2) := by
  induction pairs with
  | nil => rfl
  | cons e rest ih =>
    obtain ⟨n, old⟩ := e
    rw [List.map_cons, Keyed.put, Keyed.put]
    split
    · rfl
    · rw [ih, List.map_cons]

theorem Progress.define_rename (name : String) (node : Shape) (p : Progress ν) :
    (p.rename f).define name (node.rename f) = (p.define name node).rename f := by
  unfold define rename
  congr 1
  exact Keyed.put_map (Shape.rename f) p.definitions name node

theorem Progress.defer_rename (variants : List Shape) (explicit : Value) (p : Progress ν) :
    (p.rename f).defer (variants.map (Shape.rename f)) (explicit.rename f) =
      (p.defer variants explicit).rename f := by
  have hany : (p.rename f).deferred.any
      (fun d => sameVariants d.1 (variants.map (Shape.rename f))) =
      p.deferred.any fun d => sameVariants d.1 variants := by
    rw [rename, List.any_map]
    congr 1
    funext d
    exact sameVariants_map_rename d.1 variants
  unfold defer
  rw [hany]
  split
  · unfold rename
    congr 1
    rw [List.map_map, List.map_map]
    apply List.map_congr_left
    intro d _
    simp only [Function.comp, sameVariants_map_rename]
    split <;> rfl
  · unfold rename
    rw [List.map_append]
    rfl

namespace Canon

open Step

/-! ### States and shapes -/

/-- The states of the two walks: the second is the first with other identities, what the resolver
remembers is right, these references are being expanded, and the definitions have formats that can be
looked up, unless formats are loose where references lead. -/
structure Together (f : Nat → Nat) (defined : Prop) (document : Value) (chain : List Value)
    (p p' : Progress ν) : Prop where
  renamed : p' = p.rename f
  recalls : p.resolver.Recalls document
  chain_eq : p.resolver.chain = chain
  formatted : ∀ name node, p.definitions.find? name = some node →
    node.Throughout (Formatted defined)

/-- The shapes that the two walks find. -/
def Renamed (f : Nat → Nat) (loose : Prop) (node node' : Shape) : Prop :=
  node' = node.rename f ∧ node.Throughout (Formatted loose)

/-- The records that the two walks find, as far as their fields go. -/
def RenamedFields (f : Nat → Nat) (loose : Prop) (fields fields' : List (Field Shape)) : Prop :=
  fields' = fields.map (renameField f) ∧ ∀ g ∈ fields, g.node.Throughout (Formatted loose)

/-- The trailers that the two walks find. -/
def RenamedTrailer (f : Nat → Nat) (loose : Prop) (trailer trailer' : Option Shape) : Prop :=
  trailer' = trailer.map (Shape.rename f) ∧
    ∀ tail, trailer = some tail → tail.Throughout (Formatted loose)

/-- The lists of shapes that the two walks find. -/
def RenamedNodes (f : Nat → Nat) (loose : Prop) (nodes nodes' : List Shape) : Prop :=
  nodes' = nodes.map (Shape.rename f) ∧ ∀ node ∈ nodes, node.Throughout (Formatted loose)

/-- The walks through a schema match. -/
def DeeperMatches (f : Nat → Nat) (defined loose : Prop) (document : Value) (E : Fault → Prop)
    (deeper deeper' : Deeper ν) (chain : List Value) (v : Value) : Prop :=
  ∀ context, Matches (Together f defined document chain) (Renamed f loose) E
    (deeper context v) (deeper' context (v.rename f))

variable {defined loose : Prop} {document : Value} {chain : List Value} {E : Fault → Prop}
  {deeper deeper' : Deeper ν} {context : String} {entries : Entries} {node : Shape}

theorem throughout_formatted {loose' : Prop} (h : loose → loose')
    (hn : node.Throughout (Formatted loose)) : node.Throughout (Formatted loose') := by
  refine hn.imp fun inner hi => ?_
  unfold Formatted at hi ⊢
  split at hi
  · exact hi.imp_right h
  · trivial

theorem renamed_unknown : Renamed f loose .unknown .unknown :=
  ⟨rfl, throughout_of_isLeaf trivial trivial⟩

theorem renamed_record {fields fields' : List (Field Shape)} {trailer trailer' : Option Shape}
    (hf : RenamedFields f loose fields fields') (ht : RenamedTrailer f loose trailer trailer')
    (description : String) (source : Option Source) :
    Renamed f loose (.record fields trailer description source)
      (.record fields' trailer' description (source.map (Source.rename f))) := by
  refine ⟨?_, throughout_record trivial hf.2 ht.2⟩
  rw [hf.1, ht.1, rename_record]

/-! ### Records -/

theorem fieldsOf_matches {required : List String} {properties : Entries}
    (hd : ∀ v ∈ properties.map Prod.snd,
      DeeperMatches f defined loose document E deeper deeper' chain v)
    (hE : ∀ v ∈ properties.map Prod.snd, ∀ fault, fieldDescription v = .error fault → E fault) :
    Matches (Together f defined document chain) (RenamedFields f loose) E
      (fieldsOf deeper context required properties)
      (fieldsOf deeper' context required (properties.rename f)) := by
  induction properties with
  | nil => exact matches_pure ⟨rfl, fun g hg => absurd hg List.not_mem_nil⟩
  | cons property rest ih =>
    obtain ⟨key, property⟩ := property
    rw [List.map_cons, List.forall_mem_cons] at hd hE
    refine (hd.1 _).bind fun node node' hnode => ?_
    refine (matches_ofExcept_same (fieldDescription_rename property) hE.1).bind ?_
    rintro _ description rfl
    refine (ih hd.2 hE.2).bind fun fields fields' hfields => ?_
    refine matches_pure ⟨?_, List.forall_mem_cons.mpr ⟨hnode.2, hfields.2⟩⟩
    rw [hfields.1, hnode.1, List.map_cons, renameField]

theorem trailerOf_matches
    (hd : ∀ v, furtherOf entries = some v → DeeperMatches f defined loose document E deeper deeper' chain v) :
    Matches (Together f defined document chain) (RenamedTrailer f loose) E
      (trailerOf deeper context entries) (trailerOf deeper' context (entries.rename f)) := by
  unfold trailerOf furtherOf at *
  rw [Entries.text?_rename]
  generalize entries.text? "additionalProperties" = further at hd ⊢
  rcases further with _ | v
  · exact matches_pure ⟨rfl, nofun⟩
  · cases v with
    | scalar s =>
      simp only [Option.map_some, Value.rename_scalar]
      split
      · refine matches_pure ⟨rfl, ?_⟩
        rintro _ ⟨⟩
        exact (renamed_unknown (f := f)).2
      · next hmapping => cases hmapping
      · exact matches_pure ⟨rfl, nofun⟩
    | list items =>
      simp only [Option.map_some, Value.rename_list]
      exact matches_pure ⟨rfl, nofun⟩
    | mapping origin more =>
      simp only [Option.map_some, Value.rename_mapping]
      have hin := hd _ rfl (context ++ ".*")
      rw [Value.rename_mapping] at hin
      refine hin.map fun node node' hnode => ?_
      refine ⟨congrArg some hnode.1, ?_⟩
      rintro _ ⟨⟩
      exact hnode.2

/-- Two records with the same keys go alongside if the schemas inside do. -/
theorem recordOf_matches
    (hd : ∀ v ∈ recordParts entries, DeeperMatches f defined loose document E deeper deeper' chain v)
    (hE : IllRecord entries → E (.defect .wrongKind)) (source : Option Source) :
    Matches (Together f defined document chain) (Renamed f loose) E
      (recordOf deeper context entries source)
      (recordOf deeper' context (entries.rename f) (source.map (Source.rename f))) := by
  rw [recordOf_eq, recordOf_eq, propertiesOf_rename]
  refine (matches_ofExcept_same (requiredNames_rename entries) fun fault h => ?_).bind ?_
  · obtain ⟨rfl, hill⟩ := illRequired_of_error h
    exact hE (.inl hill)
  rintro _ required rfl
  refine (fieldsOf_matches (fun v hv => hd v (List.mem_append_left _ hv)) ?_).bind
    fun fields fields' hfields => ?_
  · intro v hv fault h
    obtain ⟨⟨key, w⟩, hm, rfl⟩ := List.mem_map.mp hv
    obtain ⟨rfl, origin, inner, rfl, hill⟩ := illDescribed_of_field h
    exact hE (.inr (.inr ⟨key, origin, inner, hm, hill⟩))
  refine (trailerOf_matches fun v hv => hd v (List.mem_append_right _ (by simp [hv]))).bind
    fun trailer trailer' htrailer => ?_
  refine (matches_ofExcept_same (Prose.ofMember_rename entries _) fun fault h => ?_).bind ?_
  · obtain ⟨rfl, hill⟩ := illDescribed_of_error h
    exact hE (.inr (.inl hill))
  rintro _ description rfl
  exact matches_pure (renamed_record hfields htrailer description source)

/-! ### Compositions -/

/-- A member that a composition refuses before it is read: null where no properties stand beside. -/
def Refused (lone : Bool) : Member → Prop
  | .listed schema => schema = .null ∧ lone = true
  | .beside _ => False

/-- The properties beside a composition cannot be read. -/
def IllBeside : Member → Prop
  | .listed _ => False
  | .beside only => IllRecord only

theorem memberShape_matches {member : Member} {lone : Bool}
    (hd : ∀ v ∈ memberParts member, DeeperMatches f defined loose document E deeper deeper' chain v)
    (hrefused : Refused lone member → E (.defect .noMembers))
    (hill : IllBeside member → E (.defect .wrongKind)) :
    Matches (Together f defined document chain) (Renamed f loose) E
      (memberShape deeper context lone member)
      (memberShape deeper' context lone (member.rename f)) := by
  cases member with
  | beside only => exact recordOf_matches hd hill none
  | listed v =>
    have hin := hd v (List.mem_singleton_self v) context
    cases v with
    | scalar s =>
      simp only [memberShape, Member.rename, Value.rename_scalar]
      split
      · next hnull =>
        obtain rfl : s = .null := by simpa using hnull
        split
        · next hl => exact matches_throw (hrefused ⟨rfl, hl⟩)
        · exact hin
      · exact hin
    | list items => simpa only [memberShape, Member.rename, Value.rename_list] using hin
    | mapping origin entries =>
      simpa only [memberShape, Member.rename, Value.rename_mapping] using hin

theorem mergeMembers_matches {members : List Member} {lone : Bool} {index : Nat}
    {fields fields' : List (Field Shape)} {trailer trailer' : Option Shape}
    (hforeseen : ∀ fault : Fault, fault.isForeseen = true → E fault) (hloose : defined → loose)
    (hd : ∀ v ∈ members.flatMap memberParts, DeeperMatches f defined loose document E deeper deeper' chain v)
    (hrefused : ∀ member ∈ members, Refused lone member → E (.defect .noMembers))
    (hill : ∀ member ∈ members, IllBeside member → E (.defect .wrongKind))
    (hf : RenamedFields f loose fields fields') (ht : RenamedTrailer f loose trailer trailer') :
    Matches (Together f defined document chain)
      (fun merged merged' => RenamedFields f loose merged.1 merged'.1 ∧
        RenamedTrailer f loose merged.2 merged'.2) E
      (mergeMembers deeper context lone index fields trailer members)
      (mergeMembers deeper' context lone index fields' trailer' (members.map (Member.rename f))) := by
  induction members generalizing index fields fields' trailer trailer' with
  | nil => exact matches_pure ⟨hf, ht⟩
  | cons member rest ih =>
    rw [List.forall_mem_cons] at hrefused hill
    rw [List.flatMap_cons] at hd
    refine (memberShape_matches (fun v hv => hd v (List.mem_append_left _ hv)) hrefused.1
      hill.1).bind fun node node' hnode => ?_
    refine matches_get fun p p' hp => ?_
    rw [hp.renamed, hnode.1]
    simp only [Progress.rename, Definitions.dereference_rename]
    rcases hfound : p.definitions.dereference node with _ | found
    · exact matches_throw (hforeseen _ rfl)
    -- what the member leads to has the formats of the shape or of a definition
    have hformatted : found.Throughout (Formatted loose) := by
      rcases Definitions.followIn_eq_or hfound with rfl | ⟨name, hn⟩
      · exact hnode.2
      · exact throughout_formatted hloose (hp.formatted name found hn)
    cases found with
    | record more tail description source =>
      obtain ⟨hmore, htail⟩ := below_record.mp hformatted.below
      rw [Option.map_some, rename_record]
      refine (matches_ofExcept (g := List.map (renameField f))
        (Q := RenamedFields f loose) ?_
        (fun merged hmerged => ⟨rfl, Definitions.forall_node_of_mergeFields hmerged hf.2 hmore⟩)
        fun fault h => hforeseen fault (isForeseen_of_mergeFields h)).bind fun merged merged' hm => ?_
      · rw [hf.1, mergeFields_rename]
      · refine ih (fun v hv => hd v (List.mem_append_right _ hv)) hrefused.2 hill.2 hm ?_
        rw [ht.1]
        cases trailer with
        | some first => exact ⟨rfl, ht.2⟩
        | none => exact ⟨rfl, htail⟩
    | _ => exact matches_throw (hforeseen _ rfl)

theorem composition_matches {origin : Nat} {members : Value}
    (hforeseen : ∀ fault : Fault, fault.isForeseen = true → E fault) (hloose : defined → loose)
    (hrule : ruleOf entries = .composition members)
    (hd : ∀ v ∈ parts (.mapping origin entries),
      DeeperMatches f defined loose document E deeper deeper' chain v)
    (hE : ∀ d, Unforeseen loose (.mapping origin entries) d → E (.defect d)) :
    Matches (Together f defined document chain) (Renamed f loose) E
      (composition deeper context origin entries members)
      (composition deeper' context (f origin) (entries.rename f) (members.rename f)) := by
  cases members with
  | list listed =>
    simp only [parts, hrule] at hd
    have hrefused : ∀ member ∈ shapedMembers entries listed,
        Refused (besideOf entries).isNone member → E (.defect .noMembers) := by
      intro member hm hr
      cases member with
      | beside only => exact hr.elim
      | listed v =>
        obtain ⟨rfl, hlone⟩ := hr
        have hnull : Value.null ∈ listed ∧ isRemark .null = false := by
          simpa [shapedMembers] using hm
        exact hE _ (.member hrule (Option.isNone_iff_eq_none.mp hlone) hnull.1)
    have hill : ∀ member ∈ shapedMembers entries listed, IllBeside member →
        E (.defect .wrongKind) := by
      intro member hm hi
      cases member with
      | listed v => exact hi.elim
      | beside only =>
        have honly : besideOf entries = some only := by simpa [shapedMembers] using hm
        exact hE _ (.beside hrule honly hi)
    have hlone : (besideOf (entries.rename f)).isNone = (besideOf entries).isNone := by
      rw [besideOf_rename, Option.isNone_map]
    rw [Value.rename_list, composition_list, composition_list, shapedMembers_rename, demanded_rename,
      soleMember?_rename, hlone]
    rcases hsole : soleMember? (shapedMembers entries listed) (demanded entries listed) with _ | member
    · refine (mergeMembers_matches hforeseen hloose hd hrefused hill
        ⟨rfl, fun g hg => absurd hg List.not_mem_nil⟩ ⟨rfl, fun tail ht => by cases ht⟩).bind
          fun merged merged' hm => ?_
      refine (matches_ofExcept (g := List.map (renameField f)) (Q := RenamedFields f loose) ?_
        (fun fields hfields => ⟨rfl, Definitions.forall_node_of_requireFields hfields hm.1.2⟩)
        fun fault h => ?_).bind fun fields fields' hfields => ?_
      · rw [hm.1.1, requireFields_rename]
      · obtain ⟨rfl, name, hname, hkey⟩ := exists_of_requireFields_error h
        exact hE _ (.demanded hrule hname hkey)
      refine (matches_ofExcept_same (Prose.ofMember_rename entries _) fun fault h => ?_).bind ?_
      · obtain ⟨rfl, hi⟩ := illDescribed_of_error h
        exact hE _ (.described hrule hi)
      rintro _ description rfl
      exact matches_pure (renamed_record hfields hm.2 description (some ⟨origin, []⟩))
    · have hmem := mem_of_soleMember? hsole
      have hin : member ∈ shapedMembers entries listed := by
        rw [hmem.1]
        exact List.mem_singleton_self member
      have hparts : ∀ v ∈ memberParts member,
          DeeperMatches f defined loose document E deeper deeper' chain v := fun v hv =>
        hd v (List.mem_flatMap.mpr ⟨member, hin, hv⟩)
      cases member with
      | beside only => exact recordOf_matches hparts (hill _ hin) (some ⟨origin, []⟩)
      | listed schema => exact memberShape_matches hparts (hrefused _ hin) (hill _ hin)
  | _ =>
    simp only [Value.rename_scalar, Value.rename_mapping, composition]
    exact matches_throw (hforeseen _ rfl)

/-! ### Unions -/

theorem memberShapes_matches {members : List Value} {index : Nat}
    (hd : ∀ v ∈ members, DeeperMatches f defined loose document E deeper deeper' chain v) :
    Matches (Together f defined document chain) (RenamedNodes f loose) E
      (memberShapes deeper context index members)
      (memberShapes deeper' context index (members.map (Value.rename f))) := by
  induction members generalizing index with
  | nil => exact matches_pure ⟨rfl, List.forall_mem_nil _⟩
  | cons member rest ih =>
    rw [List.forall_mem_cons] at hd
    refine (hd.1 _).bind fun node node' hnode => ?_
    refine (ih hd.2).bind fun nodes nodes' hnodes => ?_
    refine matches_pure ⟨?_, List.forall_mem_cons.mpr ⟨hnode.2, hnodes.2⟩⟩
    rw [hnodes.1, hnode.1, List.map_cons]

/-- A union is put aside in both walks or in neither. -/
theorem unionOf_matches {variants : List Shape} (explicit : Value)
    (hv : ∀ node ∈ variants, node.Throughout (Formatted loose)) (hE : loose → E (.defect .wrongKind)) :
    Matches (σ := Progress ν) (Together f defined document chain) (Renamed f loose) E
      (unionOf variants explicit) (unionOf (variants.map (Shape.rename f)) (explicit.rename f)) := by
  refine matches_get fun p p' hp => ?_
  obtain rfl := hp.renamed
  have hdiscriminator : discriminator? (p.rename f).definitions (variants.map (Shape.rename f))
      (explicit.rename f) = discriminator? p.definitions variants explicit :=
    discriminator?_rename p.definitions variants explicit
  have hany : (variants.map (Shape.rename f)).any
      (fun v => ((p.rename f).definitions.dereference v).isNone) =
      variants.any fun v => (p.definitions.dereference v).isNone := by
    rw [List.any_map]
    congr 1
    funext v
    simp only [Function.comp, Progress.rename, Definitions.dereference_rename, Option.isNone_map]
  have hrenamed : Renamed f loose
      (.union variants (discriminator? p.definitions variants explicit))
      (.union (variants.map (Shape.rename f)) (discriminator? p.definitions variants explicit)) :=
    ⟨(rename_union f variants _).symm, throughout_union trivial hv⟩
  simp only [hdiscriminator, hany, areKeys_map_rename]
  split
  · split
    · next hkeys =>
      refine matches_throw (hE ?_)
      by_contra hloose
      have hkey : areKeys variants = true := areKeys_of_formatted fun node hn =>
        throughout_formatted hloose (hv node hn)
      simp [hkey] at hkeys
    · refine Matches.bind (Q := fun _ _ => True) (matches_modify trivial fun q q' hq => ?_)
        fun _ _ _ => matches_pure hrenamed
      obtain rfl := hq.renamed
      -- only what is put aside changes
      obtain ⟨deferred, hdefer⟩ := Naming.Course.exists_deferred variants explicit q
      refine ⟨Progress.defer_rename variants explicit q, ?_, ?_, ?_⟩
      · rw [hdefer]
        exact hq.recalls
      · rw [hdefer]
        exact hq.chain_eq
      · rw [hdefer]
        exact hq.formatted
  · exact matches_pure hrenamed

theorem alternatives_matches {origin : Nat} {members : Value}
    (hrule : ruleOf entries = .alternatives members)
    (hd : ∀ v ∈ parts (.mapping origin entries),
      DeeperMatches f defined loose document E deeper deeper' chain v)
    (hE : ∀ d, Unforeseen loose (.mapping origin entries) d → E (.defect d)) :
    Matches (Together f defined document chain) (Renamed f loose) E
      (alternatives deeper context entries members)
      (alternatives deeper' context (entries.rename f) (members.rename f)) := by
  cases members with
  | list listed =>
    simp only [parts, hrule] at hd
    rw [Value.rename_list]
    cases listed with
    | nil => exact matches_pure renamed_unknown
    | cons first others =>
      refine (memberShapes_matches hd).bind fun nodes nodes' hnodes => ?_
      have hdistinct : ∀ node ∈ distinct nodes, node.Throughout (Formatted loose) := fun node hn =>
        hnodes.2 node (mem_of_mem_distinct hn)
      rw [hnodes.1, distinct_rename, explicitDiscriminator_rename]
      rcases hone : distinct nodes with _ | ⟨only, _ | ⟨second, more⟩⟩
      · rw [hone] at hdistinct
        exact unionOf_matches _ hdistinct fun hloose => hE _ (.alternatives hrule hloose)
      · exact matches_pure ⟨rfl, hdistinct only (hone ▸ List.mem_singleton_self only)⟩
      · rw [hone] at hdistinct
        exact unionOf_matches _ hdistinct fun hloose => hE _ (.alternatives hrule hloose)
  | _ =>
    simp only [Value.rename_scalar, Value.rename_mapping, alternatives]
    exact matches_pure renamed_unknown

/-! ### Types -/

theorem ofType_matches {type : Scalar}
    (hd : ∀ v ∈ typeParts entries (.scalar type),
      DeeperMatches f defined loose document E deeper deeper' chain v)
    (hE : formOf entries type = .record → IllRecord entries → E (.defect .wrongKind))
    (hformat : ∀ kind, formOf entries type = .primitive kind →
      ((entries.text? "format").getD .null).isKey = true ∨ loose) (source : Source) :
    Matches (Together f defined document chain) (Renamed f loose) E
      (ofType deeper context entries source type)
      (ofType deeper' context (entries.rename f) (source.rename f) type) := by
  rw [ofType_eq, ofType_eq, formOf_rename]
  rw [typeParts] at hd
  cases hform : formOf entries type with
  | array =>
    simp only [hform] at hd ⊢
    rw [itemsOf_rename]
    refine (hd _ (List.mem_singleton_self _) _).map fun element element' he => ?_
    exact ⟨by rw [he.1, rename_array], throughout_array trivial he.2⟩
  | record =>
    simp only [hform] at hd ⊢
    exact recordOf_matches hd (hE hform) (some source)
  | primitive kind =>
    simp only [Entries.text?_rename]
    refine matches_pure ⟨?_, throughout_of_isLeaf trivial (hformat kind hform)⟩
    cases entries.text? "format" <;> rfl
  | anything => exact matches_pure renamed_unknown

mutual

/-- Lists of types are read one type after the other, with the same parts. -/
theorem ofTypes_matches (hformat : ((entries.text? "format").getD .null).isKey = true ∨ loose) :
    ∀ (type : Value) (_ : ∀ v ∈ typeParts entries type,
        DeeperMatches f defined loose document E deeper deeper' chain v)
      (_ : ∀ one, Value.Part (.scalar one) type → formOf entries one = .record → IllRecord entries →
        E (.defect .wrongKind)) (source : Source),
      Matches (Together f defined document chain) (Renamed f loose) E
        (ofTypes deeper context entries source type)
        (ofTypes deeper' context (entries.rename f) (source.rename f) (type.rename f))
  | .scalar type, hd, hE, source => by
    rw [Value.rename_scalar, ofTypes, ofTypes]
    exact ofType_matches hd (hE type .refl) (fun _ _ => hformat) source
  | .list types, hd, hE, source => by
    rw [Value.rename_list, ofTypes, ofTypes]
    refine (ofEachType_matches hformat types hd
      (fun type ht one hone => hE one (hone.item ht)) source 0).map fun nodes nodes' hn => ⟨?_, ?_⟩
    · rw [hn.1, ofSeveral_rename]
    · -- what several types give together is made of what each gives
      have hdistinct : ∀ node ∈ distinct nodes, node.Throughout (Formatted loose) := fun node hm =>
        hn.2 node (mem_of_mem_distinct hm)
      unfold ofSeveral
      split
      · exact throughout_of_isLeaf trivial trivial
      · next only hone => exact hdistinct only (hone ▸ List.mem_singleton_self only)
      · exact throughout_union trivial hdistinct
  | .mapping _ _, _, _, _ => by
    rw [Value.rename_mapping, ofTypes, ofTypes]
    exact matches_pure renamed_unknown

theorem ofEachType_matches (hformat : ((entries.text? "format").getD .null).isKey = true ∨ loose) :
    ∀ (types : List Value) (_ : ∀ v ∈ typesParts entries types,
        DeeperMatches f defined loose document E deeper deeper' chain v)
      (_ : ∀ type ∈ types, ∀ one, Value.Part (.scalar one) type → formOf entries one = .record →
        IllRecord entries → E (.defect .wrongKind)) (source : Source) (index : Nat),
      Matches (Together f defined document chain) (RenamedNodes f loose) E
        (ofEachType deeper context entries source index types)
        (ofEachType deeper' context (entries.rename f) (source.rename f) index
          (types.map (Value.rename f)))
  | [], _, _, _, _ => by
    rw [List.map_nil, ofEachType, ofEachType]
    exact matches_pure ⟨rfl, List.forall_mem_nil _⟩
  | type :: rest, hd, hE, source, index => by
    rw [List.map_cons, ofEachType, ofEachType]
    rw [List.forall_mem_cons] at hE
    refine Matches.bind (Q := Renamed f loose) ?_ fun node node' hnode => ?_
    · have h := ofTypes_matches hformat type (fun v hv => hd v (List.mem_append_left _ hv)) hE.1
        (readingOf source index type)
      rwa [← readingOf_rename] at h
    refine (ofEachType_matches hformat rest (fun v hv => hd v (List.mem_append_right _ hv)) hE.2 source
      (index + 1)).bind fun nodes nodes' hnodes => ?_
    refine matches_pure ⟨?_, List.forall_mem_cons.mpr ⟨hnode.2, hnodes.2⟩⟩
    rw [hnodes.1, hnode.1, List.map_cons]

end

/-! ### References -/

section

variable {namer : Namer ν}

/-- What is known of a reference in the two walks. -/
def RenamedTarget (f : Nat → Nat) (document : Value) (chain : List Value) (ref : Value)
    (resolved resolved' : Resolved) : Prop :=
  resolved'.node = resolved.node.rename f ∧ resolved'.cyclic = resolved.cyclic ∧
    ∃ s, ref = .text s ∧ Resolver.target document s = .ok resolved.node ∧
      (resolved.cyclic = false → Value.text s ∉ chain)

theorem resolve_matches (hforeseen : ∀ fault : Fault, fault.isForeseen = true → E fault)
    (ref : Value) (hE : ref.isKey = false → E (.defect .wrongKind)) :
    Matches (σ := Progress ν) (Together f defined document chain)
      (RenamedTarget f document chain ref) E
      (Progress.onResolver (Resolver.resolve ref))
      (Progress.onResolver (Resolver.resolve (ref.rename f))) := by
  refine matches_within (T := Resolver.Together f document chain) ?_ ?_ ?_
  · refine (Resolver.lookup_matches hforeseen ref hE).bind fun v v' hv => ?_
    obtain ⟨rfl, s, rfl, htarget⟩ := hv
    refine matches_get fun r r' hr => ?_
    obtain ⟨rfl, -, rfl⟩ := hr
    refine matches_pure ⟨rfl, ?_, s, rfl, htarget, fun hout hm => ?_⟩
    · change (r.chain.map (Value.rename f)).any _ = _
      rw [List.any_map]
      congr 1
      funext w
      exact Value.same_rename w (.text s)
    · rw [List.any_eq_false] at hout
      exact hout _ hm (by simp [Value.same, Scalar.same])
  · rintro p _ ⟨rfl, hrecalls, hchain, -⟩
    exact ⟨rfl, hrecalls, hchain⟩
  · rintro p _ r _ ⟨rfl, -, -, hformatted⟩ ⟨rfl, hrecalls, hchain⟩
    exact ⟨rfl, hrecalls, hchain, hformatted⟩

/-- The target of a reference is walked while the reference is on the chain. -/
theorem visiting_matches {ref : String} {step step' : Step (Progress ν) Shape}
    (h : Matches (Together f defined document (chain ++ [.text ref])) (Renamed f loose) E step step') :
    Matches (Together f defined document chain) (Renamed f loose) E
      (Progress.visiting (.text ref) step) (Progress.visiting (.text ref) step') := by
  refine matches_between h ?_ ?_
  · rintro p _ ⟨rfl, hrecalls, rfl, hformatted⟩
    refine ⟨?_, ⟨hrecalls.document_eq, hrecalls.found⟩, rfl, hformatted⟩
    simp [Progress.rename, Resolver.rename, Resolver.enter]
  · rintro p _ ⟨rfl, hrecalls, hchain, hformatted⟩
    refine ⟨?_, ⟨hrecalls.document_eq, hrecalls.found⟩, ?_, hformatted⟩
    · simp [Progress.rename, Resolver.rename, Resolver.leave]
    · simp [Resolver.leave, hchain]

theorem reference_matches (hforeseen : ∀ fault : Fault, fault.isForeseen = true → E fault)
    (hnamer : ∀ ref names fault, ((namer ref).runFrom names).1 = .error fault → E fault)
    (ref : Value) (hE : ref.isKey = false → E (.defect .wrongKind))
    (hd : ∀ s found, ref = .text s → Value.text s ∉ chain → Resolver.target document s = .ok found →
      DeeperMatches f defined defined document E deeper deeper' (chain ++ [.text s]) found) :
    Matches (Together f defined document chain) (Renamed f loose) E (reference namer deeper ref)
      (reference namer deeper' (ref.rename f)) := by
  refine (resolve_matches hforeseen ref hE).bind fun resolved resolved' hresolved => ?_
  obtain ⟨hnode, hcyclic, s, rfl, htarget, hout⟩ := hresolved
  refine Matches.bind (Q := fun name name' => name' = name) ?_ ?_
  · refine matches_within (T := fun names names' => names' = names) ?_ ?_ ?_
    · exact matches_self (hnamer _)
    · rintro p _ ⟨rfl, -, -, -⟩
      rfl
    · rintro p _ names _ ⟨rfl, hrecalls, hchain, hformatted⟩ rfl
      exact ⟨rfl, hrecalls, hchain, hformatted⟩
  rintro _ name rfl
  have hhandle : Renamed f loose (.handle name) (.handle name) :=
    ⟨rfl, throughout_of_isLeaf trivial trivial⟩
  refine matches_get fun p p' hp => ?_
  obtain rfl := hp.renamed
  have hknown : ((p.rename f).definitions.find? name).isSome = (p.definitions.find? name).isSome := by
    simp only [Progress.rename, Definitions.find?_rename, Option.isSome_map]
  rw [hknown, hcyclic]
  split
  · exact matches_pure hhandle
  · next hnew =>
    rw [Bool.or_eq_true, not_or, Bool.not_eq_true, Bool.not_eq_true] at hnew
    have hin := hd s resolved.node rfl (hout hnew.2) htarget name
    rw [← hnode] at hin
    refine (visiting_matches hin).bind fun node node' hfound => ?_
    refine Matches.bind (Q := fun _ _ => True) (matches_modify trivial fun q q' hq => ?_)
      fun _ _ _ => matches_pure hhandle
    obtain ⟨rfl, hrecalls, hchain, hformatted⟩ := hq
    refine ⟨?_, hrecalls, hchain, fun other found hother => ?_⟩
    · rw [hfound.1, Progress.define_rename]
    · -- a definition is the new one or stood there before
      by_cases hname : other = name
      · subst hname
        obtain rfl : node = found := by
          simpa [Progress.define, Definitions.find?] using hother
        exact hfound.2
      · refine hformatted other found ?_
        simpa [Progress.define, Definitions.find?, Keyed.lookup_put_of_ne _ hname] using hother

end

/-! ### Schemas -/

/-- The schema is a reference. -/
def IsReference (v : Value) (ref : String) : Prop :=
  ∃ origin entries, v = .mapping origin entries ∧ ruleOf entries = .reference (.text ref)

/-- One level of the walk, which leaves the schemas inside to what is given. -/
def level (namer : Namer ν) (deeper : Deeper ν) : Deeper ν := fun context schema =>
  match schema with
  | .mapping origin entries => do
    let node ← ofEntries namer deeper context origin entries
    match Entries.text? entries "nullable" with
    | some (.scalar (.bool true)) => pure node.orNull
    | _ => pure node
  | _ => pure .unknown

theorem shape_succ (namer : Namer ν) (steps : Nat) :
    shape namer (steps + 1) = level namer (shape namer steps) := by
  funext context schema
  cases schema <;> rfl

variable {namer : Namer ν}

theorem ofEntries_matches {origin : Nat}
    (hforeseen : ∀ fault : Fault, fault.isForeseen = true → E fault)
    (hnamer : ∀ ref names fault, ((namer ref).runFrom names).1 = .error fault → E fault)
    (hE : ∀ d, Unforeseen loose (.mapping origin entries) d → E (.defect d))
    (hloose : defined → loose) (hformat : HasLooseFormat (.mapping origin entries) → loose)
    (hd : ∀ v ∈ parts (.mapping origin entries),
      DeeperMatches f defined loose document E deeper deeper' chain v)
    (hr : ∀ s found, ruleOf entries = .reference (.text s) → Value.text s ∉ chain →
      Resolver.target document s = .ok found →
      DeeperMatches f defined defined document E deeper deeper' (chain ++ [.text s]) found) :
    Matches (Together f defined document chain) (Renamed f loose) E
      (ofEntries namer deeper context origin entries)
      (ofEntries namer deeper' context (f origin) (entries.rename f)) := by
  rw [ofEntries_eq, ofEntries_eq, ruleOf_rename]
  cases hrule : ruleOf entries with
  | reference ref =>
    refine reference_matches hforeseen hnamer ref (fun hkey => hE _ (.reference hrule hkey)) ?_
    rintro s found rfl hout htarget
    exact hr s found hrule hout htarget
  | composition members => exact composition_matches hforeseen hloose hrule hd hE
  | alternatives members => exact alternatives_matches hrule hd hE
  | values listed =>
    refine matches_pure ⟨?_, throughout_of_isLeaf (isLeaf_enumeration listed) ?_⟩
    · rw [rename_enumeration, enumeration_rename]
    · unfold enumeration
      split
      · split <;> trivial
      · trivial
  | typed type =>
    simp only [parts, hrule] at hd
    refine ofTypes_matches ?_ type hd (fun one hone hform hill => ?_) ⟨origin, []⟩
    · cases hfound : entries.text? "format" with
      | none => exact .inl rfl
      | some format =>
        cases hkey : format.isKey with
        | true => exact .inl hkey
        | false => exact .inr (hformat ⟨origin, entries, type, format, .refl, hrule, hfound, hkey⟩)
    · exact hE _ (.record hrule hone hform hill)

/-- One level of the walk, if the levels below match. -/
theorem level_matches {v : Value}
    (hforeseen : ∀ fault : Fault, fault.isForeseen = true → E fault)
    (hnamer : ∀ ref names fault, ((namer ref).runFrom names).1 = .error fault → E fault)
    (hE : ∀ d, Unforeseen loose v d → E (.defect d)) (hloose : defined → loose)
    (hformat : HasLooseFormat v → loose)
    (hd : ∀ w ∈ parts v, DeeperMatches f defined loose document E deeper deeper' chain w)
    (hr : ∀ s found, IsReference v s → Value.text s ∉ chain →
      Resolver.target document s = .ok found →
      DeeperMatches f defined defined document E deeper deeper' (chain ++ [.text s]) found) :
    DeeperMatches f defined loose document E (level namer deeper) (level namer deeper') chain v := by
  intro context
  cases v with
  | mapping origin entries =>
    rw [Value.rename_mapping]
    refine (ofEntries_matches hforeseen hnamer hE hloose hformat hd fun s found hrule => hr s found
      ⟨origin, entries, rfl, hrule⟩).bind fun node node' hnode => ?_
    rw [Entries.text?_rename]
    have hplain : Matches (σ := Progress ν) (Together f defined document chain) (Renamed f loose) E
        (pure node) (pure node') := matches_pure hnode
    rcases Entries.text? entries "nullable" with _ | v
    · exact hplain
    cases v with
    | scalar s =>
      rw [Option.map_some, Value.rename_scalar]
      split
      · refine matches_pure ⟨?_, ?_⟩
        · rw [hnode.1, orNull_rename]
        · exact throughout_orNull hnode.2 (.inl rfl) trivial fun _ _ _ _ => trivial
      · exact hplain
    | list items =>
      rw [Option.map_some, Value.rename_list]
      exact hplain
    | mapping origin' entries' =>
      rw [Option.map_some, Value.rename_mapping]
      exact hplain
  | scalar s => exact matches_pure renamed_unknown
  | list items =>
    rw [Value.rename_list]
    exact matches_pure renamed_unknown

end Canon

end RouteStubs
