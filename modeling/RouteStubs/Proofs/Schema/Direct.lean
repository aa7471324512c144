import RouteStubs.Proofs.Schema.Walked

/-!
# Handles and enumerations are passed on

A handle or an enumeration is what a schema says by itself, and the schemas around it only pass it
on. So a schema that reads as one of these reads as nothing else; and whatever is met from a schema
that leads to an enumeration leads to one as well. Of a union that is met on the way to an enumeration
there cannot be several variants.

## Main definitions

* `Canon.Enumerates`: a schema reads as a shape that leads to an enumeration.

## Main statements

* `Canon.Reads.eq_of_isDirect`: there is no other reading.
* `Naming.Walked.enumerates_of_visits`: what is met from a schema that leads to an enumeration.
-/

namespace RouteStubs

namespace Canon

open Shape

variable {points : String → String → Prop} {definitions definitions' : Definitions}
  {sub : Value → Shape → Prop} {entries : Entries} {node node' : Shape} {schema inner : Value}

/-- Only a mapping that is not nullable reads as a handle or an enumeration. -/
theorem Reads.exists_entries {depth : Nat} (hd : node.IsDirect)
    (h : Reads points definitions depth schema node) :
    ∃ depth' origin entries, schema = .mapping origin entries ∧ isNullable entries = false ∧
      depth = depth' + 1 ∧
      ReadsEntries points definitions (Reads points definitions depth') origin entries node := by
  cases depth with
  | zero => cases h
  | succ depth =>
    cases schema with
    | mapping origin entries =>
      obtain ⟨plain, he, hn⟩ := h
      cases hnull : isNullable entries with
      | true =>
        rw [hnull, if_pos rfl] at hn
        exact absurd (hn ▸ hd) (not_isDirect_orNull plain)
      | false =>
        rw [hnull, if_neg Bool.false_ne_true] at hn
        exact ⟨depth, origin, entries, rfl, hnull, rfl, hn ▸ he⟩
    | _ =>
      rw [show node = .unknown from h] at hd
      cases hd

/-- Alternatives that read as a handle or an enumeration all read as the same one. -/
theorem ReadsAlternatives.exists_of_isDirect {members : List Value}
    (h : ReadsAlternatives definitions sub entries (.list members) node) (hd : node.IsDirect) :
    ∃ nodes, List.Forall₂ sub members nodes ∧ distinct nodes = [node] ∧
      ∀ other ∈ nodes, other = node ∨ other.same node = true := by
  cases members with
  | nil =>
    rw [show node = .unknown from h] at hd
    cases hd
  | cons first others =>
    obtain ⟨nodes, hn, hu⟩ := h
    unfold ReadsUnion at hu
    split at hu
    · next only hone =>
      subst hu
      refine ⟨nodes, hn, hone, fun other ho => ?_⟩
      rcases exists_mem_distinct ho with hk | ⟨kept, hk, hs⟩ <;>
        rw [hone, List.mem_singleton] at hk
      · exact .inl hk
      · exact .inr (hk ▸ hs)
    · obtain ⟨_, -, rfl⟩ := hu
      cases hd

theorem eq_of_forall₂ {α β : Type} {R S : α → β → Prop} {as : List α} {bs cs : List β}
    (h : List.Forall₂ R as bs) (h' : List.Forall₂ S as cs)
    (heq : ∀ a b c, b ∈ bs → R a b → S a c → c = b) : cs = bs := by
  induction h generalizing cs with
  | nil =>
    cases h'
    rfl
  | cons head _ ih =>
    cases h' with
    | cons head' tail' =>
      rw [heq _ _ _ List.mem_cons_self head head',
        ih tail' fun a b c hb => heq a b c (List.mem_cons_of_mem _ hb)]

/-- A schema that reads as a handle or an enumeration reads as nothing else, if each reference has one
name only. -/
theorem Reads.eq_of_isDirect
    (unique : ∀ name name' ref, points name ref → points name' ref → name = name')
    {depth depth' : Nat} (hd : node.IsDirect) (h : Reads points definitions depth schema node)
    (h' : Reads points definitions' depth' schema node') : node' = node := by
  induction depth generalizing schema node node' depth' with
  | zero => cases h
  | succ depth ih =>
    obtain ⟨_, origin, entries, rfl, hnull, ⟨⟩, he⟩ := h.exists_entries hd
    cases depth' with
    | zero => cases h'
    | succ depth' =>
      obtain ⟨plain', he', hn'⟩ := h'
      rw [hnull, if_neg Bool.false_ne_true] at hn'
      subst hn'
      unfold ReadsEntries at he he'
      cases hr : ruleOf entries with
      | reference ref =>
        simp only [hr] at he he'
        obtain ⟨r, name, rfl, hp, rfl⟩ := he
        obtain ⟨r', name', hr', hp', rfl⟩ := he'
        cases hr'
        rw [unique name' name r hp' hp]
      | composition members =>
        simp only [hr] at he he'
        obtain ⟨listed, rfl, hc⟩ := he
        obtain ⟨listed', hl, hc'⟩ := he'
        cases hl
        -- only a composition that passes its member on can give such a shape
        cases hc with
        | beside _ record => exact absurd hd record.not_isDirect
        | merges _ _ _ _ => cases hd
        | passes sole head =>
          cases hc' with
          | beside sole' _ => rw [sole] at sole'; cases sole'
          | merges several _ _ _ => rw [sole] at several; cases several
          | passes sole' head' =>
            cases sole.symm.trans sole'
            exact ih hd head head'
      | alternatives members =>
        simp only [hr] at he he'
        cases members with
        | list members =>
          obtain ⟨nodes, hnodes, hone, hall⟩ := he.exists_of_isDirect hd
          cases members with
          | nil =>
            cases hnodes
            cases hone
          | cons first others =>
            obtain ⟨nodes', hnodes', hu'⟩ := he'
            obtain rfl : nodes' = nodes := eq_of_forall₂ hnodes hnodes' fun v b c hb hr hr' =>
              ih ((hall b hb).elim (fun hb => hb ▸ hd) (IsDirect.of_same hd)) hr hr'
            rw [hone] at hu'
            exact hu'
        | _ =>
          rw [show node = .unknown from he] at hd
          cases hd
      | values listed =>
        simp only [hr] at he he'
        rw [he, he']
      | typed type =>
        simp only [hr] at he
        exact absurd hd he.not_isDirect

/-- A schema inside one that reads as a handle or an enumeration reads as the same. -/
theorem Reads.exists_of_mem_parts {depth : Nat} (hd : node.IsDirect)
    (h : Reads points definitions depth schema node) (hm : inner ∈ parts schema) :
    ∃ depth node', Reads points definitions depth inner node' ∧
      (node' = node ∨ node'.same node = true) := by
  obtain ⟨depth', origin, entries, rfl, -, -, he⟩ := h.exists_entries hd
  refine ⟨depth', ?_⟩
  unfold ReadsEntries at he
  unfold parts at hm
  cases hr : ruleOf entries with
  | composition members =>
    simp only [hr] at he hm
    obtain ⟨listed, rfl, hc⟩ := he
    -- a record is neither a handle nor an enumeration, so there is a sole member and it is passed on
    cases hc with
    | beside _ record => exact absurd hd record.not_isDirect
    | merges _ _ _ _ => cases hd
    | passes sole head =>
      simp only [(mem_of_soleMember? sole).1, List.flatMap_cons, List.flatMap_nil,
        List.append_nil, memberParts, List.mem_singleton] at hm
      exact ⟨node, hm ▸ head, .inl rfl⟩
  | alternatives members =>
    simp only [hr] at he hm
    cases members with
    | list members =>
      obtain ⟨nodes, hnodes, -, hall⟩ := he.exists_of_isDirect hd
      obtain ⟨other, ho, hread⟩ := exists_mem_of_forall₂ hnodes hm
      exact ⟨other, hread, hall other ho⟩
    | _ => cases hm
  | typed type =>
    simp only [hr] at he
    exact absurd hd he.not_isDirect
  | _ =>
    simp only [hr] at hm
    cases hm

/-! ### Schemas that lead to enumerations -/

/-- The schema reads as a shape that leads to an enumeration. -/
def Enumerates (points : String → String → Prop) (definitions : Definitions) (schema : Value) :
    Prop :=
  ∃ depth node values, Reads points definitions depth schema node ∧
    definitions.dereference node = some (.enum values)

theorem isDirect_of_dereference {values : List Scalar}
    (h : definitions.dereference node = some (.enum values)) : node.IsDirect := by
  cases node with
  | handle target => trivial
  | enum values => trivial
  | _ =>
    rw [Definitions.dereference_eq_self fun _ he => by cases he] at h
    cases h

/-- What is the same as a shape that leads to an enumeration leads to one. -/
theorem exists_enum_of_same {values : List Scalar} (hs : node'.same node = true)
    (h : definitions.dereference node = some (.enum values)) :
    ∃ values', definitions.dereference node' = some (.enum values') := by
  have hd := isDirect_of_dereference h
  cases node with
  | handle target => exact ⟨values, eq_handle_of_same hs ▸ h⟩
  | enum values =>
    cases node' with
    | enum values' => exact ⟨values', Definitions.dereference_eq_self fun _ he => by cases he⟩
    | _ => simp [same] at hs
  | _ => cases hd

end Canon

namespace Naming

open Canon

variable {ν : Type} {namer : Namer ν} {N : Naming namer} {document : Value} {p : Progress ν}
  {schema inner : Value}

theorem Walked.enumerates_of_meets (hw : N.Walked document p) (hm : Meets document schema inner)
    (h : Enumerates (N.Points p) p.definitions schema) :
    Enumerates (N.Points p) p.definitions inner := by
  obtain ⟨depth, node, values, hr, hv⟩ := h
  have hd := isDirect_of_dereference hv
  cases hm with
  | part hm =>
    obtain ⟨depth', node', hr', rfl | hs⟩ := hr.exists_of_mem_parts hd hm
    · exact ⟨depth', node', values, hr', hv⟩
    · obtain ⟨values', hv'⟩ := exists_enum_of_same hs hv
      exact ⟨depth', node', values', hr', hv'⟩
  | @target origin entries ref found rule leads =>
    -- the handle of the reference is defined as what the target reads as
    obtain ⟨_, _, _, ⟨⟩, -, -, he⟩ := hr.exists_entries hd
    simp only [ReadsEntries, rule] at he
    obtain ⟨r, name, href, hp, rfl⟩ := he
    cases href
    obtain ⟨next, hnext, hv⟩ := Definitions.exists_find?_of_dereference hv
    obtain ⟨earlier, later, found', depth', hsplit, ht, hread⟩ := hw.reads_definition hp.1 hnext
    cases leads.symm.trans ht
    exact ⟨depth', next, values, hread.mono (fun _ _ h => h) (hsplit ▸ List.prefix_append _ _), hv⟩

/-- What is met from a schema that leads to an enumeration leads to one. -/
theorem Walked.enumerates_of_visits (hw : N.Walked document p) (hv : Visits document schema inner)
    (h : Enumerates (N.Points p) p.definitions schema) :
    Enumerates (N.Points p) p.definitions inner := by
  induction hv with
  | refl => exact h
  | tail _ hm ih => exact hw.enumerates_of_meets hm ih

/-- Alternatives that read as several shapes do not lead to an enumeration. -/
theorem not_enumerates_of_several {members : List Value} {nodes : List Shape} {depth origin : Nat}
    {entries : Entries}
    (unique : ∀ name name' ref, N.Points p name ref → N.Points p name' ref → name = name')
    (rule : ruleOf entries = .alternatives (.list members))
    (hn : List.Forall₂ (Reads (N.Points p) p.definitions depth) members nodes)
    (hseveral : ∀ only, Shape.distinct nodes ≠ [only]) :
    ¬ Enumerates (N.Points p) p.definitions (.mapping origin entries) := by
  rintro ⟨depth', node, values, hr, hv⟩
  have hd := isDirect_of_dereference hv
  obtain ⟨_, _, _, ⟨⟩, -, -, he⟩ := hr.exists_entries hd
  simp only [ReadsEntries, rule] at he
  obtain ⟨nodes', hnodes', hone, hall⟩ := he.exists_of_isDirect hd
  obtain rfl : nodes = nodes' := eq_of_forall₂ hnodes' hn fun v b c hb hr hr' =>
    hr.eq_of_isDirect unique
      ((hall b hb).elim (fun hb => hb ▸ hd) (Shape.IsDirect.of_same hd)) hr'
  exact hseveral _ hone

end Naming

end RouteStubs
