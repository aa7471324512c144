import RouteStubs.Proofs.Schema.Throughout
import RouteStubs.Proofs.Shape.Sole
import RouteStubs.Proofs.ToldApart

/-!
# Unions and handles that the rules make

A union that is read has several variants, a handle in it is that of a reference, and a discriminator
that it has tells its variants apart. Between walks all references are finished, so handles lead to
definitions then.

## Main statements

* `Naming.Walked.regulated_definition`, `Naming.Walked.regulated_reads`,
  `Naming.Walked.regulated_source`: unions have several variants, and handles are defined.
* `Naming.Walked.discriminated_definition`: discriminators tell variants apart.
-/

namespace RouteStubs

open Canon Shape

namespace Naming

variable {ν : Type} {namer : Namer ν} {N : Naming namer} {document schema : Value} {p : Progress ν}
  {node : Shape} {name : String} {depth : Nat}

/-! ### Unions and handles -/

/-- The name is defined. -/
def Defined (p : Progress ν) (name : String) : Prop := (p.definitions.find? name).isSome

theorem regulated_of_isBasic (named : String → Prop) (node : Shape) (h : node.IsBasic) :
    Regulated named node := by
  refine ⟨?_, ?_⟩
  · rintro _ _ rfl
    cases h
  · rintro _ rfl
    cases h

theorem regulated_union (named : String → Prop) {variants : List Shape} {discriminator : Option String}
    (h : 2 ≤ variants.length) : Regulated named (.union variants discriminator) := by
  refine ⟨?_, nofun⟩
  rintro _ _ ⟨⟩
  exact h

theorem regulated_orNull {named : String → Prop} {variants : List Shape}
    {discriminator : Option String} (h : Regulated named (.union variants discriminator)) :
    Regulated named (.union (variants ++ [nullShape]) discriminator) := by
  apply regulated_union
  rw [List.length_append]
  exact Nat.le_add_right_of_le (h.1 _ _ rfl)

theorem regulated_enumeration (named : String → Prop) (listed : Value) :
    Regulated named (enumeration listed) := by
  rcases enumeration_cases listed with he | ⟨_, he⟩ <;> rw [he]
  · exact regulated_of_isBasic named _ trivial
  · exact regulated_enum named _

theorem regulated_of_points (hc : p.resolver.chain = []) {ref : String} (h : N.Points p name ref) :
    Regulated (Defined p) (.handle name) := by
  refine ⟨nofun, ?_⟩
  rintro _ ⟨⟩
  refine h.2.resolve_right ?_
  rintro ⟨hm, -⟩
  rw [hc] at hm
  cases hm

/-- When the chain is empty, what the rules make is regulated. -/
theorem ruleClosed_regulated (hc : p.resolver.chain = []) (tie : Tie) (sub : Value → Shape → Prop) :
    RuleClosed tie (N.Points p) p.definitions sub (fun _ => True) (Regulated (Defined p)) where
  basic := regulated_of_isBasic _
  record _ _ := ⟨nofun, nofun⟩
  union hseveral _ := regulated_union _ hseveral
  untold := regulated_union _
  orNull := regulated_orNull
  values _ _ := regulated_enumeration _ _
  handle := regulated_of_points hc
  parts _ _ _ := trivial

variable (hw : N.Walked document p) (hc : p.resolver.chain = [])
include hw hc

/-- In definitions unions have several variants, and handles are defined. -/
theorem Walked.regulated_definition (hf : p.definitions.find? name = some node) :
    node.Throughout (Regulated (Defined p)) :=
  hw.throughout (fun _ => ruleClosed_regulated hc _ _) (fun _ => trivial) name node hf

/-- In what a schema reads as unions have several variants, and handles are defined. -/
theorem Walked.regulated_reads (hr : Reads (N.Points p) p.definitions depth schema node) :
    node.Throughout (Regulated (Defined p)) :=
  hr.throughout (fun _ => ruleClosed_regulated hc _ _) (fun _ _ => hw.regulated_definition hc) trivial

/-- In a record that is read from a mapping unions have several variants, and handles are defined. -/
theorem Walked.regulated_source {origin : Nat} {entries : Entries} {source : Source}
    (hr : ReadsSource p.definitions (Reads (N.Points p) p.definitions depth) origin entries source
      node) : node.Throughout (Regulated (Defined p)) := by
  have hinner : ∀ v node, Reads (N.Points p) p.definitions depth v node →
      node.Throughout (Regulated (Defined p)) := fun _ _ => hw.regulated_reads hc
  have hnode : Regulated (Defined p) node := by
    obtain ⟨_, _, _, rfl⟩ := hr.exists_record
    exact ⟨nofun, nofun⟩
  cases hr with
  | typed _ record =>
    exact throughout_iff.mpr
      ⟨hnode, record.below (regulated_of_isBasic _) fun v _ => hinner v⟩
  | composed _ _ composition =>
    exact composition.throughout (regulated_of_isBasic _) (fun _ => hnode)
      (fun _ _ => hw.regulated_definition hc) fun v _ => hinner v

/-! ### Discriminators -/

omit hw hc in
/-- The rules find discriminators that tell variants apart. -/
theorem ruleClosed_discriminated (points : String → String → Prop) (definitions : Definitions)
    (sub : Value → Shape → Prop) :
    RuleClosed (Inferred definitions) points definitions sub (fun _ => True)
      (Discriminated definitions) :=
  { lasting_discriminated.ruleClosed definitions points sub with
    union := by
      rintro _ _ _ _ - ⟨earlier, hearlier, rfl⟩
      exact lasting_discriminated.mono hearlier (lasting_discriminated.found _ _ _) }

omit hc in
/-- Discriminators in definitions tell variants apart, by all definitions that there are. -/
theorem Walked.discriminated_definition (hf : p.definitions.find? name = some node) :
    node.Throughout (Discriminated p.definitions) :=
  hw.throughout (fun _ => ruleClosed_discriminated _ _ _) (fun _ => trivial) name node hf

end Naming

end RouteStubs
