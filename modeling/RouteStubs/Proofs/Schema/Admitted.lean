import RouteStubs.Proofs.Schema.Enumerated
import RouteStubs.Proofs.Schema.References
import RouteStubs.Proofs.Schema.Satisfies

/-!
# What satisfies a schema is admitted by its shape

Each rule reads a schema as a shape that admits every value that satisfies the schema, if the shapes
of the schemas inside do. There is one statement for each rule, for any relation `sat` that says
which values satisfy the schemas inside, and the whole is an induction on the depth within which a
value satisfies a schema: a reference takes one from it, however deep its target is.

## Main statements

* `Canon.ReadsRecord.admits`, `Canon.ReadsComposition.admits`, `Canon.ReadsAlternatives.admits`,
  `Canon.ReadsTypes.admits`: the rules.
* `Canon.Reads.admits`: what satisfies a schema is admitted by the shape that it reads as.
-/

namespace RouteStubs.Canon

open Definitions

variable {key : Scalar → Datum} {definitions : Definitions} {document v : Value}
  {sub : Value → Shape → Prop} {sat : Value → Value → Prop} {node : Shape} {entries : Entries}
  {fields : List (Field Shape)} {trailer : Option Shape} {source : Option Source}

variable (key definitions sub sat) in
/-- The shapes of the schemas admit what satisfies them. -/
def Admitting (inner : List Value) : Prop :=
  ∀ schema ∈ inner, ∀ node v, sub schema node → sat schema v → Admits key definitions node v

theorem Admitting.subset {inner some_ : List Value} (h : Admitting key definitions sub sat inner)
    (hs : some_ ⊆ inner) : Admitting key definitions sub sat some_ := fun v hv => h v (hs hv)

/-! ### Records -/

theorem ReadsFields.forall₂ {required : List String} {properties : Entries}
    (h : ReadsFields sub required properties fields) :
    List.Forall₂ (fun p f => f.name = p.1.display ∧ sub p.2 f.node ∧
      f.required = required.contains f.name) properties fields := by
  induction h with
  | nil => exact .nil
  | cons head _ _ ih => exact .cons ⟨rfl, head, rfl⟩ ih

theorem mem_of_requiredNames {required : List String} {name : String}
    (h : requiredNames entries = .ok required) (hm : name ∈ required) :
    ∃ names, entries.text? "required" = some (.list names) ∧ .text name ∈ names := by
  unfold requiredNames at h
  split at h
  · next names hn =>
    split at h
    · cases h
      refine ⟨names, hn, ?_⟩
      obtain ⟨w, hw, hs⟩ := List.mem_filterMap.mp hm
      split at hs
      · cases hs
        exact hw
      · cases hs
    · cases h
  · cases h
    cases hm

/-- A record that the keys about entries hold of is admitted. -/
theorem ReadsRecord.admits (ha : Admitting key definitions sub sat (recordParts entries))
    (hv : v.isMapping = true) (hh : EntriesHold sat entries v)
    (h : ReadsRecord sub entries source node) : Admits key definitions node v := by
  obtain ⟨names, properties, further, -⟩ := h
  have hfields := properties.forall₂
  have hmem : ∀ p ∈ propertiesOf entries, ∃ origin properties,
      entries.text? "properties" = some (.mapping origin properties) ∧ p ∈ properties := by
    intro p hp
    unfold propertiesOf at hp
    split at hp
    · next origin properties hprop => exact ⟨origin, properties, hprop, hp⟩
    · cases hp
  refine .record hv (fun f hf w hw => ?_) (fun f hf hr => ?_) fun t ht name w hw hno => ?_
  · -- a field is named after its property, so an entry of its name is what the property is about
    obtain ⟨p, hp, hname, hsub, -⟩ := exists_mem_of_forall₂ hfields.flip hf
    obtain ⟨origin, properties, hprop, hm⟩ := hmem p hp
    exact ha p.2 (List.mem_append_left _ (List.mem_map_of_mem hp)) f.node w hsub
      (hh.properties origin properties hprop p hm w (hname ▸ hw))
  · obtain ⟨p, hp, -, -, hreq⟩ := exists_mem_of_forall₂ hfields.flip hf
    rw [hreq, List.contains_iff_mem] at hr
    obtain ⟨names, hn, hm⟩ := mem_of_requiredNames names hr
    exact hh.required names hn hv f.name hm
  · unfold ReadsTrailer at further
    split at further
    · rw [further] at ht
      cases ht
      exact .unknown
    · next origin more hmore =>
      obtain ⟨inner, hsub, hinner⟩ := further
      rw [hinner] at ht
      cases ht
      -- an entry that no field is named after is one that no property is about
      refine ha _ (List.mem_append_right _ (by simp [furtherOf, hmore])) _ w hsub
        (hh.additional _ hmore name w hw fun origin properties hprop p hp => ?_)
      have hp : p ∈ propertiesOf entries := by
        unfold propertiesOf
        rwa [hprop]
      obtain ⟨f, hf, hname, -⟩ := exists_mem_of_forall₂ hfields hp
      exact hname ▸ hno f hf
    · rw [further] at ht
      cases ht

/-! ### Compositions -/

/-- A value that each member admits has the fields that the members are merged into. -/
theorem ReadsMembers.fits {members : List Member} {fields' : List (Field Shape)}
    {trailer' : Option Shape}
    (ha : ∀ member ∈ members, ∀ node, ReadsMember sub member node → Admits key definitions node v)
    (h : ReadsMembers definitions sub fields trailer members fields' trailer')
    (hf : Fits key definitions fields trailer v) : Fits key definitions fields' trailer' v := by
  induction h with
  | nil => exact hf
  | cons head record merge _ ih =>
    have hrecord := (ha _ List.mem_cons_self _ head).dereference record
    exact ih (fun member hm => ha member (List.mem_cons_of_mem _ hm))
      (hf.merge (admits_record_iff.mp hrecord).2 merge)

/-- The properties beside the members hold of a value that the keys about entries hold of. -/
theorem EntriesHold.beside {only : Entries} (h : EntriesHold sat entries v)
    (ho : besideOf entries = some only) : EntriesHold sat only v := by
  obtain ⟨hp, ha, hr⟩ := text?_of_besideOf ho
  refine ⟨hp ▸ h.properties, fun names hn => ?_, ?_⟩
  · rw [hr] at hn
    cases hn
  · rw [ha, hp]
    exact h.additional

theorem besideOf_of_mem {only : Entries} {listed : List Value}
    (h : .beside only ∈ shapedMembers entries listed) : besideOf entries = some only := by
  rcases List.mem_append.mp h with h | h
  · obtain ⟨_, -, hw⟩ := List.mem_map.mp h
    cases hw
  · simpa using h

theorem mem_of_shapedMembers {schema : Value} {listed : List Value}
    (h : .listed schema ∈ shapedMembers entries listed) :
    schema ∈ listed ∧ isRemark schema = false := by
  rcases List.mem_append.mp h with h | h
  · obtain ⟨w, hw, he⟩ := List.mem_map.mp h
    cases he
    simpa using List.mem_filter.mp hw
  · simp at h

/-- The names that a composition demands are there. -/
theorem hasEntry_of_demanded {listed : List Value} {name : String} (hv : v.isMapping = true)
    (hr : HasRequired entries v) (hl : ∀ member ∈ listed, sat member v)
    (hs : ∀ origin entries, sat (.mapping origin entries) v → HasRequired entries v)
    (hm : .text name ∈ demanded entries listed) : ∃ w, v.HasEntry name w := by
  have hrequired : ∀ origin es, HasRequired es v →
      .text name ∈ requiredValues (.mapping origin es) → ∃ w, v.HasEntry name w := by
    intro origin es hes hm
    unfold requiredValues at hm
    split at hm
    · next names hn => exact hes names hn hv name hm
    · cases hm
  rcases List.mem_append.mp hm with hm | hm
  · exact hrequired 0 entries hr hm
  · obtain ⟨remark, hmem, hm⟩ := List.mem_flatMap.mp hm
    obtain ⟨hmem, hremark⟩ := List.mem_filter.mp hmem
    cases remark with
    | mapping origin es => exact hrequired origin es (hs origin es (hl _ hmem)) hm
    | _ => cases hremark

theorem ReadsComposition.admits {origin : Nat} {listed : List Value}
    (ha : Admitting key definitions sub sat ((shapedMembers entries listed).flatMap memberParts))
    (hh : EntriesHold sat entries v) (hl : ∀ member ∈ listed, sat member v)
    (hs : ∀ origin entries, sat (.mapping origin entries) v → HasRequired entries v)
    (hk : (∀ member ∈ listed, isRemark member = true) → v.isMapping = true)
    (h : ReadsComposition definitions sub origin entries listed node) :
    Admits key definitions node v := by
  have hlisted : ∀ schema, .listed schema ∈ shapedMembers entries listed → ∀ node,
      sub schema node → Admits key definitions node v := fun schema hm node hr =>
    ha schema (List.mem_flatMap.mpr ⟨_, hm, List.mem_singleton_self _⟩) node v hr
      (hl schema (mem_of_shapedMembers hm).1)
  have hbeside : ∀ only, .beside only ∈ shapedMembers entries listed → v.isMapping = true →
      ∀ source node, ReadsRecord sub only source node → Admits key definitions node v :=
    fun only hm hv source node hr => hr.admits
      (ha.subset fun w hw => List.mem_flatMap.mpr ⟨_, hm, hw⟩) hv (hh.beside (besideOf_of_mem hm))
  cases h with
  | @beside only _ sole record =>
    -- no listed member has a shape, so the value is a record
    have hm : shapedMembers entries listed = [.beside only] := (mem_of_soleMember? sole).1
    refine hbeside only (by simp [hm]) (hk fun member hmem => ?_) _ _ record
    by_contra hshape
    have hmem : Member.listed member ∈ shapedMembers entries listed :=
      List.mem_append_left _ (List.mem_map_of_mem (List.mem_filter.mpr ⟨hmem, by simp [hshape]⟩))
    simp [hm] at hmem
  | @passes schema _ sole head =>
    -- the one member that has a shape stands for the whole
    have hm : shapedMembers entries listed = [.listed schema] := (mem_of_soleMember? sole).1
    exact hlisted schema (by simp [hm]) node head
  | merges several members required _ =>
    -- a member with a shape is a record, and without one the value is a record anyway
    have hv : v.isMapping = true := by
      by_cases hall : ∀ member ∈ listed, isRemark member = true
      · exact hk hall
      · simp only [not_forall] at hall
        obtain ⟨schema, hmem, hshape⟩ := hall
        have hmem : Member.listed schema ∈ shapedMembers entries listed :=
          List.mem_append_left _ (List.mem_map_of_mem (List.mem_filter.mpr ⟨hmem, by simp [hshape]⟩))
        obtain ⟨found, _, _, _, _, hr, hd⟩ := members.exists_of_mem hmem
        exact (admits_record_iff.mp ((hlisted schema hmem found hr).dereference hd)).1
    refine admits_record_iff.mpr ⟨hv, (members.fits (fun member hm found hr => ?_)
      fits_empty).require required fun name hn =>
        hasEntry_of_demanded hv hh.required hl hs hn⟩
    cases member with
    | listed schema => exact hlisted schema hm found hr
    | beside only => exact hbeside only hm hv none found hr

/-! ### Unions -/

/-- Shapes with scalars of which those that are the same stand for the same. -/
theorem agree_of_within {scalars : List Scalar} {other : Shape}
    (hs : ∀ a ∈ scalars, ∀ b ∈ scalars, a.same b = true → key a = key b)
    (h : node.Within scalars) (h' : other.Within scalars) : Agree key node other :=
  fun a b ha hb => hs a (h a ha) b (h' b hb)

theorem ReadsUnion.admits {several : List Shape} (h : ReadsUnion definitions entries several node)
    (hm : ∃ w ∈ several, Admits key definitions w v) : Admits key definitions node v := by
  obtain ⟨w, hw, ha⟩ := hm
  unfold ReadsUnion at h
  split at h
  · next only =>
    rw [h]
    exact List.mem_singleton.mp hw ▸ ha
  · obtain ⟨_, -, rfl⟩ := h
    exact .union hw ha

theorem ReadsAlternatives.admits {members : List Value}
    (ha : Admitting key definitions sub sat members)
    (hw : ∀ schema ∈ members, ∀ schema' ∈ members, ∀ node node', sub schema node →
      sub schema' node' → Agree key node node')
    (hm : ∃ member ∈ members, sat member v)
    (h : ReadsAlternatives definitions sub entries (.list members) node) :
    Admits key definitions node v := by
  obtain ⟨member, hmem, hsat⟩ := hm
  cases members with
  | nil => cases hmem
  | cons first others =>
    obtain ⟨nodes, hnodes, hu⟩ := h
    obtain ⟨w, hw', hr⟩ := exists_mem_of_forall₂ hnodes hmem
    -- the variant that admits the value may have been dropped for one that is the same
    refine hu.admits ((ha member hmem w v hr hsat).exists_distinct hw' fun a ham b hbm => ?_)
    obtain ⟨schema, hs, hra⟩ := exists_mem_of_forall₂ hnodes.flip ham
    obtain ⟨schema', hs', hrb⟩ := exists_mem_of_forall₂ hnodes.flip hbm
    exact hw schema hs schema' hs' a b hra hrb

/-! ### Enumerations -/

theorem mem_scalarsOf {values : List Value} {s : Scalar} (h : .scalar s ∈ values) :
    s ∈ scalarsOf values := List.mem_filterMap.mpr ⟨_, h, rfl⟩

/-- A value that says the same as a listed one is admitted, if it is a scalar or none is listed. -/
theorem admits_enumeration (hk : ∀ a b : Scalar, a.datum = b.datum → key a = key b)
    {values : List Value} (hm : ∃ w ∈ values, w.Equals v)
    (hs : (∃ s, .scalar s ∈ values) → ∃ s, v = .scalar s) :
    Admits key definitions (enumeration (.list values)) v := by
  obtain ⟨w, hw, he⟩ := hm
  simp only [enumeration]
  split
  · exact .unknown
  · next several hne =>
    -- something is listed, so the value is a scalar and what it says the same as is one
    obtain ⟨first, hfirst⟩ := List.exists_mem_of_ne_nil _ hne
    have hfirst : first ∈ scalarsOf values := mem_of_mem_keepNew_nil hfirst
    obtain ⟨u, hu, hus⟩ := List.mem_filterMap.mp hfirst
    obtain ⟨s, rfl⟩ := hs (by
      cases u with
      | scalar t => exact ⟨t, hu⟩
      | _ => cases hus)
    cases w with
    | scalar a =>
      have he : a.datum = s.datum := by simpa [Value.Equals] using he
      rcases exists_mem_keepNew [] (mem_scalarsOf hw) with hkept | ⟨b, hb, hab⟩
      · exact .enum hkept (hk _ _ he)
      · exact .enum hb (hk _ _ ((Scalar.datum_eq_of_sameKind hab).symm.trans he))
    | _ => simp [Value.Equals] at he

/-! ### Types -/

theorem keyword_of_ofKeyword? {keyword : String} {kind : Kind}
    (h : Kind.ofKeyword? keyword = some kind) : keyword = kind.keyword := by
  unfold Kind.ofKeyword? at h
  split at h <;> cases h <;> rfl

theorem HasType.admits {type : String} {kind : Kind} (h : HasType type v)
    (hk : Kind.ofKeyword? type = some kind) : kind.admits v = true := by
  have hkeyword := keyword_of_ofKeyword? hk
  cases kind with
  | string => exact h.string hkeyword
  | integer => exact h.integer hkeyword
  | number => exact h.number hkeyword
  | boolean => exact h.boolean hkeyword
  | null => exact h.null hkeyword
  | other name =>
    unfold Kind.ofKeyword? at hk
    split at hk <;> cases hk

/-- What a schema says when it is read with a type holds of a value that has the type. -/
theorem formOf_holds {type : Scalar} (h : TypesHold entries v (.scalar type)) :
    match formOf entries type with
    | .array => v.isList = true
    | .record => v.isMapping = true
    | .primitive kind => kind.admits v = true
    | .anything => True := by
  cases type with
  | null =>
    simp only [TypesHold, HasImpliedType] at h
    unfold formOf
    by_cases hi : entries.hasText "items" = true
    · simpa [hi] using h
    · by_cases hp : (entries.hasText "properties" ||
          entries.hasText "additionalProperties") = true
      · simpa [hi, hp] using h
      · simp [hi, hp]
  | text type =>
    simp only [TypesHold] at h
    unfold formOf
    by_cases ha : type = "array"
    · simpa [ha] using h.array ha
    · by_cases ho : type = "object"
      · simpa [ho] using h.object ho
      · cases hk : Kind.ofKeyword? type with
        | none => simp [ha, ho, hk]
        | some kind => simpa [ha, ho, hk] using h.admits hk
  | _ => simp [formOf]

theorem ReadsType.admits {source : Source} {type : Scalar}
    (ha : Admitting key definitions sub sat (typeParts entries (.scalar type)))
    (hh : Holds document sat entries v) (hnull : ∀ node, sub .null node → node = .unknown)
    (ht : TypesHold entries v (.scalar type)) (h : ReadsType sub entries source type node) :
    Admits key definitions node v := by
  have hform := formOf_holds ht
  unfold ReadsType at h
  rw [typeParts] at ha
  cases hf : formOf entries type with
  | array =>
    simp only [hf] at ha h hform
    obtain ⟨element, he, rfl⟩ := h
    cases hi : entries.text? "items" with
    | none =>
      simp only [itemsOf, hi] at he
      exact .array hform fun w _ => hnull element he ▸ .unknown
    | some items =>
      refine .array hform fun w hw => ha _ (List.mem_singleton_self _) _ w he ?_
      rw [itemsOf, hi]
      exact hh.items items hi w hw
  | record =>
    simp only [hf] at ha h hform
    exact h.admits ha hform hh.toEntriesHold
  | primitive kind =>
    simp only [hf] at h hform
    rw [h]
    exact .primitive hform
  | anything =>
    simp only [hf] at h
    rw [h]
    exact .unknown

theorem admits_ofSeveral {nodes : List Shape} (hm : ∃ w ∈ nodes, Admits key definitions w v)
    (ha : ∀ a ∈ nodes, ∀ b ∈ nodes, Agree key a b) : Admits key definitions (ofSeveral nodes) v := by
  obtain ⟨w, hw, h⟩ := hm
  obtain ⟨other, ho, h⟩ := h.exists_distinct hw ha
  unfold ofSeveral
  split
  · exact .unknown
  · next only hd =>
    rw [hd] at ho
    exact List.mem_singleton.mp ho ▸ h
  · exact .union ho h

mutual

theorem ReadsTypes.admits {scalars : List Scalar}
    (hs : ∀ a ∈ scalars, ∀ b ∈ scalars, a.same b = true → key a = key b)
    (hh : Holds document sat entries v) (hnull : ∀ node, sub .null node → node = .unknown) :
    ∀ {source : Source} {type : Value} {node : Shape},
      Admitting key definitions sub sat (typeParts entries type) →
        (∀ v ∈ typeParts entries type, ∀ node, sub v node → node.Within scalars) →
          TypesHold entries v type → ReadsTypes sub entries source type node →
            Admits key definitions node v
  | _, .scalar _, _, ha, _, ht, h => ReadsType.admits ha hh hnull ht h
  | _, .list types, _, ha, hw, ht, ⟨nodes, hn, he⟩ => by
    rw [he]
    refine admits_ofSeveral (ReadsEachType.exists_admits hs hh hnull ha hw ht hn)
      fun a ham b hbm => agree_of_within hs ?_ ?_
    · exact ReadsEachType.within hw hn a ham
    · exact ReadsEachType.within hw hn b hbm
  | _, .mapping _ _, _, _, _, _, h => by
    rw [show _ = Shape.unknown from h]
    exact .unknown

theorem ReadsEachType.exists_admits {scalars : List Scalar}
    (hs : ∀ a ∈ scalars, ∀ b ∈ scalars, a.same b = true → key a = key b)
    (hh : Holds document sat entries v) (hnull : ∀ node, sub .null node → node = .unknown) :
    ∀ {source : Source} {index : Nat} {types : List Value} {nodes : List Shape},
      Admitting key definitions sub sat (typesParts entries types) →
        (∀ v ∈ typesParts entries types, ∀ node, sub v node → node.Within scalars) →
          SomeTypeHolds entries v types → ReadsEachType sub entries source index types nodes →
            ∃ w ∈ nodes, Admits key definitions w v
  | _, _, [], _, _, _, ht, _ => ht.elim
  | _, _, _ :: _, _, ha, hw, ht, ⟨first, others, hn, head, tail⟩ => by
    subst hn
    rcases ht with ht | ht
    · exact ⟨first, List.mem_cons_self, ReadsTypes.admits hs hh hnull
        (ha.subset (List.subset_append_left _ _)) (fun v hv => hw v (List.mem_append_left _ hv)) ht head⟩
    · obtain ⟨w, hm, h⟩ := ReadsEachType.exists_admits hs hh hnull
        (ha.subset (List.subset_append_right _ _)) (fun v hv => hw v (List.mem_append_right _ hv)) ht tail
      exact ⟨w, List.mem_cons_of_mem _ hm, h⟩

end

/-! ### Schemas -/

variable {points : String → String → Prop} {scalars : List Scalar}

theorem Reads.eq_unknown {depth : Nat} {s : Scalar}
    (h : Reads points definitions depth (.scalar s) node) : node = .unknown := by
  cases depth with
  | zero => cases h
  | succ depth => exact h

theorem SatisfiesWithin.hasRequired {also : Entries → Value → Prop} {depth origin : Nat}
    (h : SatisfiesWithin also document depth (.mapping origin entries) v) :
    HasRequired entries v := by
  cases depth with
  | zero => cases h
  | succ depth =>
    rcases h with ⟨-, rfl⟩ | ⟨h, -⟩
    · -- null is no mapping
      intro names _ hmapping
      cases hmapping
    · exact h.required

/-- A value that says the same as a listed one is admitted, whether several are listed or one as a constant.
-/
theorem Holds.admits_listed (hk : ∀ a b : Scalar, a.datum = b.datum → key a = key b) {listed : Value}
    (hh : Holds document sat entries v) (hkept : Kept entries v)
    (hlisted : entries.text? "enum" = some listed ∨
      ∃ w, entries.text? "const" = some w ∧ listed = .list [w]) :
    Admits key definitions (enumeration listed) v := by
  rcases hlisted with henum | ⟨w, hw, rfl⟩
  · cases listed with
    | list values => exact admits_enumeration hk (hh.enum values henum) (hkept.enum values henum)
    | _ => exact .unknown
  · have heq := hh.const w hw
    refine admits_enumeration hk ⟨w, List.mem_singleton_self w, heq⟩ ?_
    rintro ⟨s, hm⟩
    obtain rfl := List.mem_singleton.mp hm
    cases v with
    | scalar t => exact ⟨t, rfl⟩
    | _ => simp [Value.Equals] at heq

/-- What a mapping reads as, null aside, admits the values that it holds of, if the shapes of its parts do
and a handle stands for what its reference asks for. -/
theorem ReadsEntries.admits {origin : Nat} {also : Entries → Value → Prop} {reach depth : Nat}
    (hk : ∀ a b : Scalar, a.datum = b.datum → key a = key b)
    (hs : ∀ a ∈ scalars, ∀ b ∈ scalars, a.same b = true → key a = key b)
    (hreference : ∀ name ref found, points name ref → Resolver.target document ref = .ok found →
      SatisfiesWithin also document reach found v → Admits key definitions (.handle name) v)
    (ha : Admitting key definitions (Reads points definitions depth)
      (SatisfiesWithin also document reach) (parts (.mapping origin entries)))
    (hw : ∀ w ∈ parts (.mapping origin entries), ∀ node,
      Reads points definitions depth w node → node.Within scalars)
    (hh : Holds document (SatisfiesWithin also document reach) entries v) (hkept : Kept entries v)
    (h : ReadsEntries points definitions (Reads points definitions depth) origin entries node) :
    Admits key definitions node v := by
  have hkey := key_of_ruleOf entries
  unfold ReadsEntries at h
  unfold parts at ha hw
  cases hr : ruleOf entries with
  | reference ref =>
    simp only [hr] at h hkey
    obtain ⟨r, name, rfl, hp, rfl⟩ := h
    obtain ⟨_, found, hrr, ht, hfound⟩ := hh.reference _ hkey
    cases hrr
    exact hreference name r found hp ht hfound
  | composition members =>
    simp only [hr] at h hkey ha
    obtain ⟨listed, rfl, hc⟩ := h
    exact hc.admits ha hh.toEntriesHold (hh.all listed hkey)
      (fun _ _ => SatisfiesWithin.hasRequired) (hkept.all listed hkey)
  | alternatives members =>
    simp only [hr] at h hkey ha hw
    cases members with
    | list members =>
      refine h.admits ha (fun a ham b hbm na nb hra hrb => agree_of_within hs
        (hw a ham na hra) (hw b hbm nb hrb)) ?_
      exact hkey.elim (hh.one members) (hh.any members)
    | _ =>
      rw [show node = .unknown from h]
      exact .unknown
  | values listed =>
    simp only [hr] at h hkey
    rw [h]
    exact hh.admits_listed hk hkept hkey
  | typed type =>
    simp only [hr] at h hkey ha hw
    exact h.admits hs hh (fun _ => Reads.eq_unknown) ha hw (hkey ▸ hh.type)

/-- A value that satisfies a schema is admitted by the shape that the schema reads as, if each name is
defined as what the target of its reference reads as. -/
theorem Reads.admits (hk : ∀ a b : Scalar, a.datum = b.datum → key a = key b)
    (hs : ∀ a ∈ scalars, ∀ b ∈ scalars, a.same b = true → key a = key b)
    (hdefs : ∀ name ref, points name ref → ∃ node found depth, definitions.find? name = some node ∧
      Resolver.target document ref = .ok found ∧ Reads points definitions depth found node)
    (hwithin : ∀ name node, definitions.find? name = some node → node.Within scalars)
    (hdocument : document.enumerated ⊆ scalars) {reach : Nat} {depth : Nat} {schema : Value}
    (hschema : schema.enumerated ⊆ scalars) (h : Reads points definitions depth schema node)
    (hsat : SatisfiesWithin Kept document reach schema v) : Admits key definitions node v := by
  induction reach generalizing depth schema node v with
  | zero => cases hsat
  | succ reach ih =>
    cases depth with
    | zero => cases h
    | succ depth =>
    cases schema with
    | mapping origin entries =>
      obtain ⟨plain, he, rfl⟩ := h
      rcases hsat with ⟨hnull, rfl⟩ | ⟨hh, hkept⟩
      · rw [isNullable_of_text? hnull, if_pos rfl]
        exact admits_orNull_null
      have hparts : ∀ w ∈ parts (.mapping origin entries), w.enumerated ⊆ scalars := fun w hw =>
        List.Subset.trans (enumerated_parts hw) hschema
      -- the target of a reference may read deeper than this schema, but it is satisfied within less
      have hreference : ∀ name ref found, points name ref → Resolver.target document ref = .ok found →
          SatisfiesWithin Kept document reach found v → Admits key definitions (.handle name) v := by
        intro name ref found hp ht hfound
        obtain ⟨node, found', depth', hf, ht', hread⟩ := hdefs name ref hp
        cases ht.symm.trans ht'
        exact .handle hf
          (ih (List.Subset.trans (Resolver.part_of_target ht).1.enumerated hdocument) hread hfound)
      have hplain : Admits key definitions plain v :=
        he.admits hk hs hreference (fun w hw node v hr hv => ih (hparts w hw) hr hv)
          (fun w hm node hr => hr.within hwithin (hparts w hm)) hh hkept
      split
      · exact hplain.orNull
      · exact hplain
    | _ =>
      rw [show node = .unknown from h]
      exact .unknown

end RouteStubs.Canon
