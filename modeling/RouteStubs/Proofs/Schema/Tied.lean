import RouteStubs.Proofs.Schema.Reads

/-!
# Unions tied to their schemas

What a schema reads as has unions in it that come from alternatives. In a tied reading each of these
unions is tied to the schema with the alternatives, at the very place where it was read: something is
said of the schema, of its variants and of its discriminator. The reading with nothing but what is
inferred for the discriminator is the plain one.

## Main definitions

* `Canon.Tie`: what is said of a schema and the union that its alternatives make.
* `Canon.ReadsTied tie`: the schema reads as the shape, and its unions of alternatives are tied.
* `Canon.Inferred`: the discriminator was inferred from earlier definitions.

## Main statements

* `Canon.ReadsTied.mono`: a weaker tie, with more names and more definitions.
* `Canon.ReadsTied.reads`: a tied reading is a reading.
-/

namespace RouteStubs.Canon

open Shape

/-- What is said of the mapping with the alternatives, and of the variants and the discriminator of
the union that they make. -/
abbrev Tie :=
  (origin : Nat) → (entries : Entries) → (variants : List Shape) → (discriminator : Option String) →
    Prop

variable {tie tie' : Tie} {points points' : String → String → Prop}
  {definitions definitions' : Definitions} {sub sub' : Value → Shape → Prop} {origin : Nat}
  {entries : Entries} {node : Shape}

/-- Distinct shapes read as the only one, or else as their union, which is tied. -/
def TiedUnion (tie : Tie) (origin : Nat) (entries : Entries) : List Shape → Shape → Prop
  | [only], node => node = only
  | several, node => ∃ discriminator, node = .union several discriminator ∧
      tie origin entries several discriminator

/-- The members of a union read as the shape. -/
def TiedAlternatives (tie : Tie) (sub : Value → Shape → Prop) (origin : Nat) (entries : Entries) :
    Value → Shape → Prop
  | .list (first :: others), node => ∃ nodes, List.Forall₂ sub (first :: others) nodes ∧
      TiedUnion tie origin entries (distinct nodes) node
  | _, node => node = .unknown

/-- The entries of a mapping read as the shape, `nullable` aside. -/
def TiedEntries (tie : Tie) (points : String → String → Prop) (definitions : Definitions)
    (sub : Value → Shape → Prop) (origin : Nat) (entries : Entries) (node : Shape) : Prop :=
  match ruleOf entries with
  | .alternatives members => TiedAlternatives tie sub origin entries members node
  | _ => ReadsEntries points definitions sub origin entries node

/-- The schema reads as the shape, no more than a number of schemas deep, and each union in it that
comes from alternatives is tied to their schema. -/
def ReadsTied (tie : Tie) (points : String → String → Prop) (definitions : Definitions) :
    (depth : Nat) → Value → Shape → Prop
  | 0, _, _ => False
  | depth + 1, .mapping origin entries, node => ∃ plain,
      TiedEntries tie points definitions (ReadsTied tie points definitions depth) origin entries
        plain ∧ node = if isNullable entries then plain.orNull else plain
  | _ + 1, .list _, node => node = .unknown
  | _ + 1, .scalar _, node => node = .unknown

/-- The discriminator was inferred from the definitions that were finished at some time. -/
def Inferred (definitions : Definitions) : Tie := fun _ entries variants discriminator =>
  ∃ earlier, earlier <+: definitions ∧
    discriminator = discriminator? earlier variants (explicitDiscriminator entries)

theorem Inferred.mono (hd : definitions <+: definitions') {variants : List Shape}
    {discriminator : Option String} (h : Inferred definitions origin entries variants discriminator) :
    Inferred definitions' origin entries variants discriminator := by
  obtain ⟨earlier, he, rfl⟩ := h
  exact ⟨earlier, he.trans hd, rfl⟩

/-! ### Weaker ties -/

theorem TiedUnion.mono {several : List Shape}
    (ht : ∀ discriminator, tie origin entries several discriminator →
      tie' origin entries several discriminator)
    (h : TiedUnion tie origin entries several node) : TiedUnion tie' origin entries several node := by
  unfold TiedUnion at *
  split at h
  · exact h
  · obtain ⟨discriminator, rfl, htie⟩ := h
    exact ⟨discriminator, rfl, ht discriminator htie⟩

theorem TiedAlternatives.mono {members : Value}
    (ht : ∀ variants discriminator, tie origin entries variants discriminator →
      tie' origin entries variants discriminator) (hs : ∀ v node, sub v node → sub' v node)
    (h : TiedAlternatives tie sub origin entries members node) :
    TiedAlternatives tie' sub' origin entries members node := by
  unfold TiedAlternatives at *
  split at h
  · obtain ⟨nodes, hn, hu⟩ := h
    exact ⟨nodes, hn.imp hs, hu.mono (ht _)⟩
  · exact h

theorem TiedEntries.mono
    (ht : ∀ variants discriminator, tie origin entries variants discriminator →
      tie' origin entries variants discriminator)
    (hp : ∀ name ref, points name ref → points' name ref) (hd : definitions <+: definitions')
    (hs : ∀ v node, sub v node → sub' v node)
    (h : TiedEntries tie points definitions sub origin entries node) :
    TiedEntries tie' points' definitions' sub' origin entries node := by
  unfold TiedEntries at *
  split at h
  · exact h.mono ht hs
  · exact h.mono hp hd hs

theorem ReadsTied.mono {depth : Nat} {schema : Value}
    (ht : ∀ origin entries variants discriminator, tie origin entries variants discriminator →
      tie' origin entries variants discriminator)
    (hp : ∀ name ref, points name ref → points' name ref) (hd : definitions <+: definitions')
    (h : ReadsTied tie points definitions depth schema node) :
    ReadsTied tie' points' definitions' depth schema node := by
  induction depth generalizing schema node with
  | zero => exact h
  | succ depth ih =>
    cases schema with
    | mapping origin entries =>
      obtain ⟨plain, he, hn⟩ := h
      exact ⟨plain, he.mono (ht origin entries) hp hd fun _ _ => ih, hn⟩
    | _ => exact h

/-! ### Plain readings -/

/-- Several shapes read as their union. -/
theorem tiedUnion_iff_of_several {several : List Shape} (h : ∀ only, several ≠ [only]) :
    TiedUnion tie origin entries several node ↔ ∃ discriminator,
      node = .union several discriminator ∧ tie origin entries several discriminator := by
  unfold TiedUnion
  split
  · next only => exact absurd rfl (h only)
  · exact Iff.rfl

/-- The tie of plain readings is that the discriminator was inferred. -/
theorem tiedUnion_inferred_iff {several : List Shape} :
    TiedUnion (Inferred definitions) origin entries several node ↔
      ReadsUnion definitions entries several node := by
  by_cases hone : ∃ only, several = [only]
  · obtain ⟨only, rfl⟩ := hone
    exact Iff.rfl
  · rw [tiedUnion_iff_of_several (not_exists.mp hone)]
    unfold ReadsUnion
    split
    · next only => exact absurd ⟨only, rfl⟩ hone
    · constructor
      · rintro ⟨_, rfl, earlier, he, rfl⟩
        exact ⟨earlier, he, rfl⟩
      · rintro ⟨earlier, he, rfl⟩
        exact ⟨_, rfl, earlier, he, rfl⟩

theorem tiedAlternatives_inferred_iff {members : Value} :
    TiedAlternatives (Inferred definitions) sub origin entries members node ↔
      ReadsAlternatives definitions sub entries members node := by
  cases members with
  | list members =>
    cases members with
    | nil => exact Iff.rfl
    | cons first others => simp only [TiedAlternatives, ReadsAlternatives, tiedUnion_inferred_iff]
  | _ => exact Iff.rfl

theorem tiedEntries_inferred_iff :
    TiedEntries (Inferred definitions) points definitions sub origin entries node ↔
      ReadsEntries points definitions sub origin entries node := by
  unfold TiedEntries
  split
  · next members hr =>
    simp only [ReadsEntries, hr]
    exact tiedAlternatives_inferred_iff
  · exact Iff.rfl

/-- A tied reading is a reading. -/
theorem ReadsTied.reads {depth : Nat} {schema : Value}
    (ht : ∀ origin entries variants discriminator, tie origin entries variants discriminator →
      Inferred definitions origin entries variants discriminator)
    (h : ReadsTied tie points definitions depth schema node) :
    Reads points definitions depth schema node := by
  induction depth generalizing schema node with
  | zero => exact h
  | succ depth ih =>
    cases schema with
    | mapping origin entries =>
      obtain ⟨plain, he, hn⟩ := h
      exact ⟨plain, tiedEntries_inferred_iff.mp (he.mono (ht origin entries) (fun _ _ hp => hp)
        (List.prefix_refl _) fun _ _ => ih), hn⟩
    | _ => exact h

end RouteStubs.Canon
