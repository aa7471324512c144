import RouteStubs.Proofs.Admits
import RouteStubs.Proofs.Schema.Tied
import RouteStubs.Proofs.Schema.Walked
import RouteStubs.Proofs.Shape.Alike
import RouteStubs.Proofs.Shape.Throughout

/-!
# What is so throughout the shape of a schema

A property of shapes holds throughout the shape that a schema reads as, if it holds throughout the
definitions that compositions are merged from and of what the rules make. The rules go by the schemas
inside, so there is one statement for each of them.

## Main definitions

* `Canon.RuleClosed`: a property holds of whatever the rules make of some schemas.

## Main statements

* `Canon.ReadsRecord.below`, `Canon.ReadsComposition.throughout`, `Canon.ReadsTypes.throughout`:
  the rules that make records and read types.
* `Canon.TiedEntries.throughout`, `Canon.Reads.throughout`: all rules.
* `Naming.Walked.throughout`: the definitions of a walk.
-/

namespace RouteStubs

namespace Canon

open Shape

variable {P : Shape → Prop} {tie : Tie} {points : String → String → Prop} {definitions : Definitions}
  {sub : Value → Shape → Prop} {node : Shape} {fields : List (Field Shape)} {trailer : Option Shape}
  {entries : Entries} {source : Option Source}

/-! ### Records -/

theorem ReadsFields.throughout {required : List String} {properties : Entries}
    (hs : ∀ v ∈ properties.map Prod.snd, ∀ node, sub v node → node.Throughout P)
    (h : ReadsFields sub required properties fields) : ∀ f ∈ fields, f.node.Throughout P := by
  induction h with
  | nil =>
    intro f hf
    cases hf
  | cons head _ _ ih =>
    intro f hf
    rcases List.mem_cons.mp hf with rfl | hf
    · exact hs _ List.mem_cons_self _ head
    · exact ih (fun v hv => hs v (List.mem_cons_of_mem _ hv)) f hf

section Basic

variable (hb : ∀ node : Shape, node.IsBasic → P node)
include hb

theorem ReadsTrailer.throughout
    (hs : ∀ v, furtherOf entries = some v → ∀ node, sub v node → node.Throughout P)
    (h : ReadsTrailer sub entries trailer) : ∀ tail, trailer = some tail → tail.Throughout P := by
  intro tail ht
  unfold ReadsTrailer furtherOf at *
  split at h
  · rw [h] at ht
    cases ht
    exact throughout_of_isLeaf trivial (hb _ trivial)
  · next ha =>
    obtain ⟨w, hw, rfl⟩ := h
    cases ht
    exact hs _ (by rw [ha]) _ hw
  · rw [h] at ht
    cases ht

theorem ReadsRecord.below
    (hs : ∀ v ∈ recordParts entries, ∀ node, sub v node → node.Throughout P)
    (h : ReadsRecord sub entries source node) : node.Below P := by
  obtain ⟨-, properties, further, -⟩ := h
  refine below_record.mpr ⟨properties.throughout fun v hv => hs v (List.mem_append_left _ hv),
    further.throughout hb fun v hv => hs v (List.mem_append_right _ ?_)⟩
  simp [hv]

/-! ### Compositions -/

omit hb in
theorem throughout_of_dereference {found : Shape}
    (hd : ∀ name node, definitions.find? name = some node → node.Throughout P)
    (h : node.Throughout P) (hf : definitions.dereference node = some found) :
    found.Throughout P := by
  rcases Definitions.followIn_eq_or hf with rfl | ⟨name, hn⟩
  · exact h
  · exact hd name found hn

/-- The properties beside a composition are no record of their own, so only what is inside them
counts. -/
theorem ReadsMember.below {member : Member} {found : Shape}
    (hd : ∀ name node, definitions.find? name = some node → node.Throughout P)
    (hs : ∀ v ∈ memberParts member, ∀ node, sub v node → node.Throughout P)
    (h : ReadsMember sub member node) (hf : definitions.dereference node = some found) :
    found.Below P := by
  cases member with
  | listed schema =>
    exact (throughout_of_dereference hd (hs schema (List.mem_singleton_self _) _ h) hf).below
  | beside entries =>
    have hbelow := ReadsRecord.below hb hs h
    cases h
    cases hf
    exact hbelow

theorem ReadsMembers.throughout {fields' : List (Field Shape)} {trailer' : Option Shape}
    {members : List Member}
    (hd : ∀ name node, definitions.find? name = some node → node.Throughout P)
    (hs : ∀ v ∈ members.flatMap memberParts, ∀ node, sub v node → node.Throughout P)
    (h : ReadsMembers definitions sub fields trailer members fields' trailer')
    (hf : ∀ f ∈ fields, f.node.Throughout P) (ht : ∀ tail, trailer = some tail → tail.Throughout P) :
    (∀ f ∈ fields', f.node.Throughout P) ∧ ∀ tail, trailer' = some tail → tail.Throughout P := by
  induction h with
  | nil => exact ⟨hf, ht⟩
  | @cons fields more merged _ trailer tail _ member rest node _ _ _ head record merge _ ih =>
    rw [List.flatMap_cons] at hs
    obtain ⟨hmore, htail⟩ := below_record.mp
      (head.below hb hd (fun v hv => hs v (List.mem_append_left _ hv)) record)
    refine ih (fun v hv => hs v (List.mem_append_right _ hv))
      (Definitions.forall_node_of_mergeFields merge hf hmore) fun t hn => ?_
    cases trailer with
    | some t => exact ht _ hn
    | none => exact htail t hn

theorem ReadsComposition.throughout {origin : Nat} {listed : List Value}
    (hr : (∀ schema, soleMember? (shapedMembers entries listed) (demanded entries listed) ≠
      some (.listed schema)) → P node)
    (hd : ∀ name node, definitions.find? name = some node → node.Throughout P)
    (hs : ∀ v ∈ (shapedMembers entries listed).flatMap memberParts, ∀ node, sub v node →
      node.Throughout P)
    (h : ReadsComposition definitions sub origin entries listed node) : node.Throughout P := by
  cases h with
  | beside sole record =>
    rw [(mem_of_soleMember? sole).1] at hs
    exact throughout_iff.mpr ⟨hr (by simp [sole]), record.below hb (by simpa [memberParts] using hs)⟩
  | passes sole head =>
    rw [(mem_of_soleMember? sole).1] at hs
    exact hs _ (by simp [memberParts]) _ head
  | merges several members required described =>
    obtain ⟨hf, ht⟩ := members.throughout hb hd hs (fun f hf => absurd hf List.not_mem_nil)
      fun tail ht => by cases ht
    exact throughout_record (hr (by simp [several]))
      (Definitions.forall_node_of_requireFields required hf) ht

/-! ### Unions and enumerations -/

theorem TiedAlternatives.throughout {origin : Nat} {members : List Value}
    (hu : ∀ variants discriminator, 2 ≤ variants.length →
      tie origin entries variants discriminator → P (.union variants discriminator))
    (hs : ∀ v ∈ members, ∀ node, sub v node → node.Throughout P)
    (h : TiedAlternatives tie sub origin entries (.list members) node) : node.Throughout P := by
  cases members with
  | nil =>
    rw [show node = .unknown from h]
    exact throughout_of_isLeaf trivial (hb _ trivial)
  | cons first others =>
    obtain ⟨nodes, hn, hunion⟩ := h
    have hnodes : ∀ w ∈ distinct nodes, w.Throughout P := fun w hw => by
      obtain ⟨v, hv, hr⟩ := exists_mem_of_forall₂ hn.flip (mem_of_mem_distinct hw)
      exact hs v hv w hr
    unfold TiedUnion at hunion
    split at hunion
    · next only hd =>
      rw [hunion]
      exact hnodes only (hd ▸ List.mem_singleton_self only)
    · next several =>
      obtain ⟨discriminator, rfl, htie⟩ := hunion
      refine throughout_union (hu _ _ ?_ htie) hnodes
      -- there is a first one, and it is not the only one
      cases hn with
      | @cons _ w _ ws _ _ =>
        obtain ⟨kept, hk⟩ := distinct_cons w ws
        cases kept with
        | nil => exact absurd hk (several w)
        | cons => simp [hk]

omit hb in
theorem enumeration_cases (listed : Value) :
    enumeration listed = .unknown ∨ ∃ values, enumeration listed = .enum values := by
  unfold enumeration
  split
  · split
    · exact .inl rfl
    · exact .inr ⟨_, rfl⟩
  · exact .inl rfl

omit hb in
theorem isLeaf_enumeration (listed : Value) : (enumeration listed).IsLeaf := by
  rcases enumeration_cases listed with he | ⟨_, he⟩ <;> rw [he] <;> trivial

/-! ### Types -/

theorem ReadsType.throughout {source : Source} {type : Scalar}
    (hr : ∀ node, ReadsRecord sub entries (some source) node → P node)
    (hs : ∀ v ∈ typeParts entries (.scalar type), ∀ node, sub v node → node.Throughout P)
    (h : ReadsType sub entries source type node) : node.Throughout P := by
  unfold ReadsType at h
  rw [typeParts] at hs
  cases hf : formOf entries type with
  | array =>
    simp only [hf] at h hs
    obtain ⟨element, he, rfl⟩ := h
    exact throughout_array (hb _ trivial) (hs _ (List.mem_singleton_self _) _ he)
  | record =>
    simp only [hf] at h hs
    exact throughout_iff.mpr ⟨hr node h, h.below hb hs⟩
  | primitive kind =>
    simp only [hf] at h
    rw [h]
    exact throughout_of_isLeaf trivial (hb _ trivial)
  | anything =>
    simp only [hf] at h
    rw [h]
    exact throughout_of_isLeaf trivial (hb _ trivial)

theorem throughout_ofSeveral {nodes : List Shape}
    (hu : ∀ variants, 2 ≤ variants.length → P (.union variants none))
    (h : ∀ node ∈ nodes, node.Throughout P) : (ofSeveral nodes).Throughout P := by
  have hd : ∀ node ∈ distinct nodes, node ∈ nodes := fun _ => mem_of_mem_distinct
  unfold ofSeveral
  split
  · exact throughout_of_isLeaf trivial (hb _ trivial)
  · next only ho => exact h only (hd only (ho ▸ List.mem_singleton_self only))
  · next hnone hone =>
    refine throughout_union (hu _ ?_) fun node hm => h node (hd node hm)
    match hkept : distinct nodes with
    | [] => exact absurd hkept hnone
    | [only] => exact absurd hkept (hone only)
    | _ :: _ :: _ => simp

end Basic

theorem origin_readingOf (source : Source) (index : Nat) (type : Value) :
    (readingOf source index type).origin = source.origin := by
  unfold readingOf
  split <;> rfl

mutual

theorem ReadsTypes.throughout {origin : Nat} (hb : ∀ node : Shape, node.IsBasic → P node)
    (hr : ∀ form node, ReadsRecord sub entries (some ⟨origin, form⟩) node → P node)
    (hu : ∀ variants, 2 ≤ variants.length → P (.union variants none)) :
    ∀ {source : Source} {type : Value} {node : Shape}, source.origin = origin →
      (∀ v ∈ typeParts entries type, ∀ node, sub v node → node.Throughout P) →
        ReadsTypes sub entries source type node → node.Throughout P
  | source, .scalar _, _, ho, hs, h => by
    subst ho
    exact ReadsType.throughout hb (hr source.form) hs h
  | _, .list _, _, ho, hs, ⟨_, hn, he⟩ =>
    he ▸ throughout_ofSeveral hb hu (ReadsEachType.throughout hb hr hu ho hs hn)
  | _, .mapping _ _, _, _, _, h => by
    rw [show _ = Shape.unknown from h]
    exact throughout_of_isLeaf trivial (hb _ trivial)

theorem ReadsEachType.throughout {origin : Nat} (hb : ∀ node : Shape, node.IsBasic → P node)
    (hr : ∀ form node, ReadsRecord sub entries (some ⟨origin, form⟩) node → P node)
    (hu : ∀ variants, 2 ≤ variants.length → P (.union variants none)) :
    ∀ {source : Source} {index : Nat} {types : List Value} {nodes : List Shape},
      source.origin = origin →
      (∀ v ∈ typesParts entries types, ∀ node, sub v node → node.Throughout P) →
        ReadsEachType sub entries source index types nodes → ∀ node ∈ nodes, node.Throughout P
  | _, _, [], _, _, _, h, node, hm => by simp [show _ = [] from h] at hm
  | source, index, type :: _, _, ho, hs, ⟨first, others, hn, head, tail⟩, node, hm => by
    subst hn
    rcases List.mem_cons.mp hm with rfl | hm
    · exact ReadsTypes.throughout hb hr hu ((origin_readingOf source index type).trans ho)
        (fun v hv => hs v (List.mem_append_left _ hv)) head
    · exact ReadsEachType.throughout hb hr hu ho (fun v hv => hs v (List.mem_append_right _ hv))
        tail node hm

end

/-! ### Schemas -/

/-- The property holds of what the rules make of the given schemas, by what is said of the schemas
inside: of leaves, of their records, of unions of alternatives that are tied and of those without a
discriminator, with null added or without, of what their enumerations list and of handles that stand
for references. What is inside a given schema is given. -/
structure RuleClosed (tie : Tie) (points : String → String → Prop) (definitions : Definitions)
    (sub : Value → Shape → Prop) (given : Value → Prop) (P : Shape → Prop) : Prop where
  basic : ∀ node : Shape, node.IsBasic → P node
  record : ∀ {origin entries source fields trailer description}, given (.mapping origin entries) →
    ReadsSource definitions sub origin entries source
      (.record fields trailer description (some source)) →
    P (.record fields trailer description (some source))
  union : ∀ {origin entries variants discriminator}, 2 ≤ variants.length →
    tie origin entries variants discriminator → P (.union variants discriminator)
  untold : ∀ {variants}, 2 ≤ variants.length → P (.union variants none)
  orNull : ∀ {variants discriminator}, P (.union variants discriminator) →
    P (.union (variants ++ [nullShape]) discriminator)
  values : ∀ {origin entries listed}, given (.mapping origin entries) →
    ruleOf entries = .values listed → P (enumeration listed)
  handle : ∀ {name ref}, points name ref → P (.handle name)
  parts : ∀ {schema}, given schema → ∀ v ∈ parts schema, given v

variable {given : Value → Prop} {origin : Nat}

/-- The rules make less by means of fewer definitions. -/
theorem RuleClosed.earlier {definitions' : Definitions} {depth : Nat}
    (hc : RuleClosed (Inferred definitions) points definitions (Reads points definitions depth) given P)
    (hd : definitions' <+: definitions) :
    RuleClosed (Inferred definitions') points definitions' (Reads points definitions' depth) given
      P where
  basic := hc.basic
  record hg h := hc.record hg (h.mono hd fun _ _ h => h.mono (fun _ _ h => h) hd)
  union hseveral h := hc.union hseveral (h.mono hd)
  untold := hc.untold
  orNull := hc.orNull
  values := hc.values
  handle := hc.handle
  parts := hc.parts

/-- Handles come from references. -/
theorem ruleClosed_handles {P : String → Prop} (hp : ∀ name ref, points name ref → P name) (tie : Tie)
    (definitions : Definitions) (sub : Value → Shape → Prop) :
    RuleClosed tie points definitions sub (fun _ => True)
      fun node => ∀ name, node = .handle name → P name where
  basic node hbasic := by
    rintro name rfl
    cases hbasic
  record _ _ := nofun
  union _ _ := nofun
  untold _ := nofun
  orNull _ := nofun
  values {_ _ listed} _ _ name he := by
    rcases enumeration_cases listed with h | ⟨_, h⟩ <;> rw [h] at he <;> cases he
  handle {name ref} h := by
    rintro _ ⟨⟩
    exact hp name ref h
  parts _ _ _ := trivial

theorem RuleClosed.own {source : Source} (hc : RuleClosed tie points definitions sub given P)
    (hg : given (.mapping origin entries))
    (h : ReadsSource definitions sub origin entries source node) : P node := by
  obtain ⟨_, _, _, rfl⟩ := h.exists_record
  exact hc.record hg h

theorem RuleClosed.throughout_orNull (hc : RuleClosed tie points definitions sub given P)
    (h : node.Throughout P) : node.orNull.Throughout P := by
  refine Shape.throughout_orNull h (hc.basic _ trivial) (hc.untold le_rfl) ?_
  rintro variants discriminator rfl -
  exact hc.orNull h.self

theorem RuleClosed.throughout_unknown (hc : RuleClosed tie points definitions sub given P) :
    Shape.unknown.Throughout P := throughout_of_isLeaf trivial (hc.basic _ trivial)

/-- A property that holds of what the rules make, and throughout the definitions and the shapes of the
schemas inside, holds throughout what the entries of a given mapping read as. -/
theorem TiedEntries.throughout (hc : RuleClosed tie points definitions sub given P)
    (hd : ∀ name node, definitions.find? name = some node → node.Throughout P)
    (hg : given (.mapping origin entries))
    (hs : ∀ v ∈ Canon.parts (.mapping origin entries), ∀ node, sub v node → node.Throughout P)
    (h : TiedEntries tie points definitions sub origin entries node) : node.Throughout P := by
  unfold TiedEntries ReadsEntries at h
  unfold Canon.parts at hs
  cases hrule : ruleOf entries with
  | reference ref =>
    simp only [hrule] at h
    obtain ⟨_, _, -, hp, rfl⟩ := h
    exact throughout_of_isLeaf trivial (hc.handle hp)
  | composition members =>
    simp only [hrule] at h hs
    obtain ⟨listed, rfl, composed⟩ := h
    exact composed.throughout hc.basic (fun own => hc.own hg (.composed hrule own composed)) hd hs
  | alternatives members =>
    simp only [hrule] at h hs
    cases members with
    | list members => exact h.throughout hc.basic (fun _ _ => hc.union) hs
    | _ =>
      rw [show node = .unknown from h]
      exact hc.throughout_unknown
  | values listed =>
    simp only [hrule] at h
    rw [h]
    exact throughout_of_isLeaf (isLeaf_enumeration listed) (hc.values hg hrule)
  | typed type =>
    simp only [hrule] at h hs
    exact ReadsTypes.throughout hc.basic (fun _ _ h => hc.own hg (.typed hrule h))
      (fun _ => hc.untold) rfl hs h

/-- A property that holds of what the rules make, and throughout the definitions, holds throughout the
shape of a given schema. -/
theorem Reads.throughout
    (hc : ∀ depth,
      RuleClosed (Inferred definitions) points definitions (Reads points definitions depth) given P)
    (hd : ∀ name node, definitions.find? name = some node → node.Throughout P)
    {depth : Nat} {schema : Value} (hs : given schema)
    (h : Reads points definitions depth schema node) : node.Throughout P := by
  induction depth generalizing schema node with
  | zero => cases h
  | succ depth ih =>
    cases schema with
    | mapping origin entries =>
      obtain ⟨plain, he, rfl⟩ := h
      have hplain : plain.Throughout P := (tiedEntries_inferred_iff.mpr he).throughout (hc depth) hd hs
        fun v hv node hr => ih ((hc depth).parts hs v hv) hr
      split
      · exact (hc depth).throughout_orNull hplain
      · exact hplain
    | _ =>
      rw [show node = .unknown from h]
      exact (hc depth).throughout_unknown

end Canon

namespace Naming

variable {ν : Type} {namer : Namer ν} {N : Naming namer} {document : Value} {p : Progress ν}
  {P : Shape → Prop}

/-- A property that holds of what the rules make of the targets of references holds throughout the
definitions of a walk. -/
theorem Walked.throughout (hw : N.Walked document p) {given : Value → Prop}
    (hc : ∀ depth, Canon.RuleClosed (Canon.Inferred p.definitions) (N.Points p) p.definitions
      (Canon.Reads (N.Points p) p.definitions depth) given P)
    (htarget : ∀ {ref found}, Resolver.target document ref = .ok found → given found) :
    ∀ name node, p.definitions.find? name = some node → node.Throughout P := by
  -- each definition was read by means of the ones before it
  have hall : ∀ n earlier name node later, earlier.length = n →
      p.definitions = earlier ++ (name, node) :: later → node.Throughout P := by
    intro n
    induction n using Nat.strong_induction_on with
    | _ n ih =>
      intro earlier name node later hlen hsplit
      obtain ⟨ref, found, depth, -, ht, hread⟩ := hw.read _ _ _ _ hsplit
      have hprefix : earlier <+: p.definitions := hsplit ▸ List.prefix_append _ _
      refine hread.throughout (fun depth => (hc depth).earlier hprefix) (fun name' node' hn => ?_) (htarget ht)
      obtain ⟨before, after, rfl⟩ := Definitions.exists_split hn
      refine ih before.length ?_ before name' node' (after ++ (name, node) :: later) rfl
        (by simpa using hsplit)
      rw [← hlen, List.length_append, List.length_cons]
      omega
  intro name node hn
  obtain ⟨earlier, later, hsplit⟩ := Definitions.exists_split hn
  exact hall _ earlier name node later rfl hsplit

end Naming

end RouteStubs
