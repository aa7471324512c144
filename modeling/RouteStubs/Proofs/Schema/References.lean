import RouteStubs.Proofs.Schema.Reads
import RouteStubs.Proofs.Shape

/-!
# Where references lead

The graph that the walk through a document goes along: from a schema to the schemas inside it, and
from a reference to its target. A schema that is nothing but another name for a reference reads as
the handle of that reference. A composition cannot merge a member that leads back to it by such
names, and a loop of this kind is the only reason why it cannot.

## Main definitions

* `Canon.Visits`: the schemas that are met from a schema.
* `Canon.IsRef`: a schema is another name for a reference.
* `Canon.Renames`: the target of a reference is another name for a reference.
* `Canon.LoopedAt`: a composition that is met from a schema has a member that leads back to it.

## Main statements

* `Canon.Reads.isRef`: what reads as a handle is another name for a reference.
-/

namespace RouteStubs.Canon

/-- The second schema is met right after the first. -/
inductive Meets (document : Value) : Value → Value → Prop
  | part {schema inner : Value} (h : inner ∈ parts schema) : Meets document schema inner
  | target {origin : Nat} {entries : Entries} {ref : String} {found : Value}
      (rule : ruleOf entries = .reference (.text ref))
      (leads : Resolver.target document ref = .ok found) :
      Meets document (.mapping origin entries) found

/-- The second schema is met on a walk from the first. -/
abbrev Visits (document : Value) : Value → Value → Prop := Relation.ReflTransGen (Meets document)

/-- The schema is nothing but another name for a reference. -/
inductive IsRef : Value → String → Prop
  | reference {origin : Nat} {entries : Entries} {ref : String}
      (rule : ruleOf entries = .reference (.text ref)) (plain : isNullable entries = false) :
      IsRef (.mapping origin entries) ref
  | passes {origin : Nat} {entries : Entries} {listed : List Value} {schema : Value} {ref : String}
      (rule : ruleOf entries = .composition (.list listed))
      (sole : soleMember? (shapedMembers entries listed) (demanded entries listed) =
        some (.listed schema))
      (plain : isNullable entries = false) (inner : IsRef schema ref) :
      IsRef (.mapping origin entries) ref
  | each {origin : Nat} {entries : Entries} {first : Value} {others : List Value} {ref : String}
      (rule : ruleOf entries = .alternatives (.list (first :: others)))
      (plain : isNullable entries = false) (inner : ∀ v ∈ first :: others, IsRef v ref) :
      IsRef (.mapping origin entries) ref

/-- The target of the first reference is nothing but another name for the second. -/
def Renames (document : Value) (ref ref' : String) : Prop :=
  ∃ found, Resolver.target document ref = .ok found ∧ IsRef found ref'

/-- A composition is met from the root of which a member, by references that are other names for
references, leads back to one of the given references that the composition is met from, or in a
circle. -/
def LoopedAt (ends : String → Prop) (document root : Value) : Prop :=
  ∃ schema member ref last, Visits document root schema ∧ member ∈ mergedMembers schema ∧
    IsRef member ref ∧ Relation.ReflTransGen (Renames document) ref last ∧
      ((ends last ∧ ∃ found, Resolver.target document last = .ok found ∧
          Visits document found schema) ∨
        Relation.TransGen (Renames document) last last)

/-- A composition that is met from the root leads back to a reference that it is met from. -/
def Looped (document root : Value) : Prop := LoopedAt (fun _ => True) document root

theorem LoopedAt.imp {ends ends' : String → Prop} {document root : Value}
    (h : LoopedAt ends document root) (he : ∀ ref, ends ref → ends' ref) :
    LoopedAt ends' document root := by
  obtain ⟨schema, member, ref, last, hv, hm, hi, hren, hend⟩ := h
  refine ⟨schema, member, ref, last, hv, hm, hi, hren, hend.imp_left ?_⟩
  rintro ⟨hlast, hfound⟩
  exact ⟨he last hlast, hfound⟩

/-! ### What reads as a handle -/

variable {points : String → String → Prop} {definitions : Definitions}
  {sub : Value → Shape → Prop} {node : Shape} {name : String}

theorem not_isDirect_ofSeveral {nodes : List Shape} (h : ∀ node ∈ nodes, ¬ node.IsDirect) :
    ¬ (ofSeveral nodes).IsDirect := by
  unfold ofSeveral
  split
  · exact id
  · next only hd => exact h only (Shape.mem_of_mem_distinct (hd ▸ List.mem_singleton_self only))
  · exact id

theorem ReadsRecord.not_isDirect {entries : Entries} {source : Option Source}
    (h : ReadsRecord sub entries source node) : ¬ node.IsDirect := by
  cases h
  exact id

theorem ReadsType.not_isDirect {entries : Entries} {source : Source} {type : Scalar}
    (h : ReadsType sub entries source type node) : ¬ node.IsDirect := by
  unfold ReadsType at h
  split at h
  · obtain ⟨element, -, rfl⟩ := h
    exact id
  · exact h.not_isDirect
  · exact h ▸ id
  · exact h ▸ id

mutual

theorem ReadsTypes.not_isDirect {entries : Entries} :
    ∀ {source : Source} {type : Value} {node : Shape},
      ReadsTypes sub entries source type node → ¬ node.IsDirect
  | _, .scalar _, _, h => ReadsType.not_isDirect h
  | _, .list _, _, ⟨_, hn, he⟩ => he ▸ not_isDirect_ofSeveral (ReadsEachType.not_isDirect hn)
  | _, .mapping _ _, _, h => h ▸ id

theorem ReadsEachType.not_isDirect {entries : Entries} :
    ∀ {source : Source} {index : Nat} {types : List Value} {nodes : List Shape},
      ReadsEachType sub entries source index types nodes → ∀ node ∈ nodes, ¬ node.IsDirect
  | _, _, [], _, h, node, hm => by simp [show _ = [] from h] at hm
  | _, _, _ :: _, _, ⟨first, others, hn, head, tail⟩, node, hm => by
    subst hn
    rcases List.mem_cons.mp hm with rfl | hm
    · exact ReadsTypes.not_isDirect head
    · exact ReadsEachType.not_isDirect tail node hm

end

theorem enumeration_ne_handle (listed : Value) : enumeration listed ≠ .handle name := by
  unfold enumeration
  split
  · split <;> simp
  · simp

/-- Alternatives that read as a handle all do. -/
theorem ReadsAlternatives.exists_of_handle {entries : Entries} {members : Value}
    (h : ReadsAlternatives definitions sub entries members (.handle name)) :
    ∃ first others, members = .list (first :: others) ∧
      ∀ v ∈ first :: others, sub v (.handle name) := by
  unfold ReadsAlternatives at h
  split at h
  · next first others =>
    obtain ⟨nodes, hn, hu⟩ := h
    refine ⟨first, others, rfl, fun v hv => ?_⟩
    unfold ReadsUnion at hu
    split at hu
    · next only hd =>
      subst hu
      have hall : ∀ node ∈ nodes, node = .handle name := by
        intro node hnode
        rcases Shape.exists_mem_distinct hnode with hk | ⟨other, ho, hs⟩
        · rwa [hd, List.mem_singleton] at hk
        · rw [hd, List.mem_singleton] at ho
          exact Shape.eq_handle_of_same (ho ▸ hs)
      obtain ⟨node, hnode, hr⟩ := exists_mem_of_forall₂ hn hv
      exact hall node hnode ▸ hr
    · obtain ⟨_, -, hu⟩ := hu
      cases hu
  · cases h

/-- What reads as a handle is another name for the reference that the handle stands for. -/
theorem Reads.isRef {depth : Nat} {schema : Value}
    (unique : ∀ r r', points name r → points name r' → r = r')
    (h : Reads points definitions depth schema (.handle name)) :
    ∃ ref, points name ref ∧ IsRef schema ref := by
  induction depth generalizing schema with
  | zero => cases h
  | succ depth ih =>
    cases schema with
    | mapping origin entries =>
      obtain ⟨plain, he, hn⟩ := h
      cases hnull : isNullable entries with
      | true =>
        -- with null beside it a shape is no handle
        rw [hnull, if_pos rfl] at hn
        exact absurd (hn ▸ trivial) (Shape.not_isDirect_orNull plain)
      | false =>
        simp only [hnull, Bool.false_eq_true, if_false] at hn
        subst hn
        unfold ReadsEntries at he
        cases hr : ruleOf entries with
        | reference ref =>
          simp only [hr] at he
          obtain ⟨r, name', rfl, hp, hn⟩ := he
          cases hn
          exact ⟨r, hp, .reference hr hnull⟩
        | composition members =>
          simp only [hr] at he
          obtain ⟨listed, rfl, hc⟩ := he
          cases hc with
          | beside _ record => exact absurd trivial record.not_isDirect
          | passes sole head =>
            obtain ⟨ref, hp, hi⟩ := ih head
            exact ⟨ref, hp, .passes hr sole hnull hi⟩
        | alternatives members =>
          simp only [hr] at he
          -- one handle stands for one reference, so all alternatives are names for the same one
          obtain ⟨first, others, rfl, hall⟩ := he.exists_of_handle
          obtain ⟨ref, hp, hi⟩ := ih (hall first List.mem_cons_self)
          refine ⟨ref, hp, .each hr hnull fun v hv => ?_⟩
          obtain ⟨ref', hp', hi'⟩ := ih (hall v hv)
          rwa [unique _ _ hp hp']
        | values listed =>
          simp only [hr] at he
          exact absurd he.symm (enumeration_ne_handle listed)
        | typed type =>
          simp only [hr] at he
          exact absurd trivial he.not_isDirect
    | _ => cases h

/-! ### What is inside a schema that reads -/

variable {schema inner : Value}

theorem ReadsFields.exists_of_mem {required : List String} {properties : Entries}
    {fields : List (Field Shape)} (h : ReadsFields sub required properties fields)
    (hm : inner ∈ properties.map Prod.snd) : ∃ node, sub inner node := by
  induction h with
  | nil => cases hm
  | cons head _ _ ih =>
    rcases List.mem_cons.mp hm with rfl | hm
    · exact ⟨_, head⟩
    · exact ih hm

theorem ReadsTrailer.exists_of_mem {entries : Entries} {trailer : Option Shape}
    (h : ReadsTrailer sub entries trailer) (hm : furtherOf entries = some inner) :
    ∃ node, sub inner node := by
  unfold furtherOf at hm
  unfold ReadsTrailer at h
  split at hm
  · next origin more hmore =>
    cases hm
    rw [hmore] at h
    obtain ⟨node, hn, -⟩ := h
    exact ⟨node, hn⟩
  · cases hm

theorem ReadsRecord.exists_of_mem {entries : Entries} {source : Option Source}
    (h : ReadsRecord sub entries source node) (hm : inner ∈ recordParts entries) :
    ∃ node, sub inner node := by
  obtain ⟨-, properties, further, -⟩ := h
  rcases List.mem_append.mp hm with hm | hm
  · exact properties.exists_of_mem hm
  · exact further.exists_of_mem (by simpa using hm)

theorem ReadsMember.exists_of_mem {member : Member} (h : ReadsMember sub member node)
    (hm : inner ∈ memberParts member) : ∃ node, sub inner node := by
  cases member with
  | listed schema =>
    cases List.mem_singleton.mp hm
    exact ⟨node, h⟩
  | beside entries => exact ReadsRecord.exists_of_mem h hm

/-- Each member of a composition that is merged reads as a shape that leads to a record. -/
theorem ReadsMembers.exists_of_mem {fields fields' : List (Field Shape)}
    {trailer trailer' : Option Shape} {members : List Member} {member : Member}
    (h : ReadsMembers definitions sub fields trailer members fields' trailer')
    (hm : member ∈ members) : ∃ node fields trailer description source,
      ReadsMember sub member node ∧
        definitions.dereference node = some (.record fields trailer description source) := by
  induction h with
  | nil => cases hm
  | cons head record _ _ ih =>
    rcases List.mem_cons.mp hm with rfl | hm
    · exact ⟨_, _, _, _, _, head, record⟩
    · exact ih hm

theorem ReadsComposition.exists_of_mem {origin : Nat} {entries : Entries} {listed : List Value}
    (h : ReadsComposition definitions sub origin entries listed node)
    (hm : inner ∈ (shapedMembers entries listed).flatMap memberParts) : ∃ node, sub inner node := by
  cases h with
  | beside sole record =>
    rw [(mem_of_soleMember? sole).1] at hm
    exact record.exists_of_mem (by simpa [memberParts] using hm)
  | @passes schema node sole head =>
    rw [(mem_of_soleMember? sole).1] at hm
    obtain rfl : inner = schema := by simpa [memberParts] using hm
    exact ⟨node, head⟩
  | merges _ members _ _ =>
    obtain ⟨member, hmember, hm⟩ := List.mem_flatMap.mp hm
    obtain ⟨node, -, -, -, -, hr, -⟩ := members.exists_of_mem hmember
    exact hr.exists_of_mem hm

mutual

theorem ReadsTypes.exists_of_mem {entries : Entries} :
    ∀ {source : Source} {type : Value} {node : Shape}, ReadsTypes sub entries source type node →
      inner ∈ typeParts entries type → ∃ node, sub inner node
  | source, .scalar type, node, h, hm => by
    simp only [ReadsTypes, ReadsType] at h
    simp only [typeParts] at hm
    cases hf : formOf entries type with
    | array =>
      simp only [hf] at h hm
      obtain ⟨element, he, -⟩ := h
      exact ⟨element, List.mem_singleton.mp hm ▸ he⟩
    | record =>
      simp only [hf] at h hm
      exact h.exists_of_mem hm
    | primitive kind =>
      simp only [hf] at hm
      cases hm
    | anything =>
      simp only [hf] at hm
      cases hm
  | _, .list _, _, ⟨_, hn, _⟩, hm => ReadsEachType.exists_of_mem hn hm
  | _, .mapping _ _, _, _, hm => by cases hm

theorem ReadsEachType.exists_of_mem {entries : Entries} :
    ∀ {source : Source} {index : Nat} {types : List Value} {nodes : List Shape},
      ReadsEachType sub entries source index types nodes → inner ∈ typesParts entries types →
        ∃ node, sub inner node
  | _, _, [], _, _, hm => by cases hm
  | _, _, _ :: _, _, ⟨_, _, _, head, tail⟩, hm =>
    (List.mem_append.mp hm).elim (ReadsTypes.exists_of_mem head) (ReadsEachType.exists_of_mem tail)

end

/-- A schema inside a schema that reads, reads as well. -/
theorem Reads.exists_of_mem {depth : Nat} (h : Reads points definitions depth schema node)
    (hm : inner ∈ parts schema) : ∃ depth node, Reads points definitions depth inner node := by
  cases depth with
  | zero => cases h
  | succ depth =>
    cases schema with
    | mapping origin entries =>
      refine ⟨depth, ?_⟩
      obtain ⟨plain, he, -⟩ := h
      unfold ReadsEntries at he
      unfold parts at hm
      cases hr : ruleOf entries with
      | composition members =>
        simp only [hr] at he hm
        obtain ⟨listed, rfl, hc⟩ := he
        exact hc.exists_of_mem hm
      | alternatives members =>
        simp only [hr] at he hm
        cases members with
        | list members =>
          cases members with
          | nil => cases hm
          | cons first others =>
            obtain ⟨nodes, hn, -⟩ := he
            obtain ⟨node, -, hnode⟩ := exists_mem_of_forall₂ hn hm
            exact ⟨node, hnode⟩
        | _ => cases hm
      | typed type =>
        simp only [hr] at he hm
        exact he.exists_of_mem hm
      | _ =>
        simp only [hr] at hm
        cases hm
    | _ => cases hm

/-- A member that is merged in a schema that reads, reads as a shape that leads somewhere. -/
theorem Reads.exists_of_mem_merged {depth : Nat} (h : Reads points definitions depth schema node)
    (hm : inner ∈ mergedMembers schema) : ∃ depth node found,
      Reads points definitions depth inner node ∧ definitions.dereference node = some found := by
  cases depth with
  | zero => cases h
  | succ depth =>
    cases schema with
    | mapping origin entries =>
      refine ⟨depth, ?_⟩
      obtain ⟨plain, he, -⟩ := h
      unfold ReadsEntries at he
      unfold mergedMembers at hm
      cases hr : ruleOf entries with
      | composition members =>
        simp only [hr] at he hm
        obtain ⟨listed, rfl, hc⟩ := he
        -- members are merged only if no single one stands for the whole
        cases hs : soleMember? (shapedMembers entries listed) (demanded entries listed) with
        | some member => simp [hs] at hm
        | none =>
          simp only [hs, Option.isNone_none, if_true] at hm
          cases hc with
          | beside sole _ => rw [hs] at sole; cases sole
          | passes sole _ => rw [hs] at sole; cases sole
          | merges _ members _ _ =>
            have hlisted : Member.listed inner ∈ shapedMembers entries listed :=
              List.mem_append_left _ (List.mem_map_of_mem hm)
            obtain ⟨node, _, _, _, _, hr, hd⟩ := members.exists_of_mem hlisted
            exact ⟨node, _, hr, hd⟩
      | _ =>
        simp only [hr] at hm
        cases hm
    | _ => cases hm

/-- What is nothing but another name for a reference reads as a handle that stands for it, if the
reference has one name only. -/
theorem IsRef.exists_handle {ref : String} (hi : IsRef schema ref)
    (unique : ∀ name name', points name ref → points name' ref → name = name') {depth : Nat}
    (h : Reads points definitions depth schema node) :
    ∃ name, points name ref ∧ node = .handle name := by
  induction hi generalizing depth node with
  | reference rule plain =>
    cases depth with
    | zero => cases h
    | succ depth =>
      obtain ⟨_, he, hn⟩ := h
      simp only [ReadsEntries, rule, plain] at he hn
      obtain ⟨r, name, hr, hp, rfl⟩ := he
      cases hr
      exact ⟨name, hp, hn⟩
  | passes rule sole plain inner ih =>
    cases depth with
    | zero => cases h
    | succ depth =>
      obtain ⟨_, he, hn⟩ := h
      simp only [ReadsEntries, rule, plain] at he hn
      obtain ⟨listed, hl, hc⟩ := he
      cases hl
      subst hn
      cases hc with
      | beside sole' _ => rw [sole] at sole'; cases sole'
      | passes sole' head =>
        cases sole.symm.trans sole'
        exact ih unique head
      | merges several _ _ _ => rw [sole] at several; cases several
  | @each origin entries first others ref rule plain inner ih =>
    cases depth with
    | zero => cases h
    | succ depth =>
      obtain ⟨_, he, hn⟩ := h
      simp only [ReadsEntries, rule, plain] at he hn
      obtain ⟨nodes, hnodes, hu⟩ := he
      subst hn
      -- every member reads as the one handle that stands for the reference
      cases hnodes with
      | @cons _ firstNode _ rest head tail =>
        obtain ⟨name, hp, rfl⟩ := ih first List.mem_cons_self unique head
        have hrest : ∀ node ∈ rest, node = .handle name := by
          intro node hnode
          obtain ⟨v, hv, hr⟩ := exists_mem_of_forall₂ tail.flip hnode
          obtain ⟨name', hp', rfl⟩ := ih v (List.mem_cons_of_mem _ hv) unique hr
          rw [unique name' name hp' hp]
        rw [Shape.distinct_of_forall_eq (by simp [Shape.same]) hrest] at hu
        exact ⟨name, hp, hu⟩

end RouteStubs.Canon
