import RouteStubs.Proofs.ClosedTable
import RouteStubs.Proofs.Render.Bound

/-!
# No name is bound twice

For every document that has a plan, the module of declarations binds each of its names once: what it
imports, the list of what it exports, the name of each declaration, and two constants for each union
that a field tells apart.

## Main statements

* `Plan.bindings_nodup`: the names that the module of declarations binds.
-/

namespace RouteStubs.Plan

open Registry

variable {document : Value} {plan : Plan}

/-- The names of declarations are in their style, all different, and not reserved. -/
theorem ids_of_ofDocument (h : ofDocument document = .ok plan) :
    (plan.table.types.map (·.id)).Nodup ∧ ∀ δ ∈ plan.table.types,
      Name.Styled δ.id ∧ δ.id ∉ TypesModule.reservedNames := by
  obtain ⟨d, hcollect⟩ := collect_of_ofDocument h
  obtain ⟨hg, hr, hc, -, htable⟩ := (collect_closed _ _).of_ok hcollect
  have hsound := hr.drafted.sound
  have htypes : plan.table.types = d.registry.given.map d.declarationOf :=
    congrArg Declarations.types htable
  rw [htypes, List.map_map]
  refine ⟨hsound.nodup, List.forall_mem_map.mpr fun g hgiven => ⟨hc.styled g hgiven, ?_⟩⟩
  have hfree := hsound.free g hgiven
  rwa [hg.registry.reserved_eq] at hfree

/-- The lines of the module of declarations bind what is imported, the list of what is exported, the
name of each declaration, and two constants for each union that a field tells apart; no name is bound
twice. -/
theorem bindings_nodup (h : ofDocument document = .ok plan) (path : String) :
    ∃ lines items,
      (TypesModule.render plan.table plan.title plan.version path).content = Artifact.lines lines ∧
      items = TypesModule.itemsOf plan.table [] plan.table.types ∧
      List.Forall₂ (fun (δ : Declaration) item => item.name = δ.id ∧ (item.constant?.isSome ↔
        ∃ variants discriminator, δ.node = .union variants (some discriminator)))
        plan.table.types items ∧
      lines.flatMap TypesModule.boundBy =
        TypesModule.imported ++ "__all__" :: items.flatMap TypesModule.Item.bound ∧
      (lines.flatMap TypesModule.boundBy).Nodup := by
  obtain ⟨hnodup, hids⟩ := ids_of_ofDocument h
  have hnames := TypesModule.map_name_itemsOf plan.table [] plan.table.types
  have hitem : ∀ item ∈ TypesModule.itemsOf plan.table [] plan.table.types,
      Name.Styled item.name ∧ item.name ∉ TypesModule.reservedNames := by
    intro item hm
    obtain ⟨δ, hδ, hid⟩ := List.mem_map.mp (hnames ▸ List.mem_map_of_mem hm)
    exact hid ▸ hids δ hδ
  have hbound := TypesModule.boundBy_moduleLines (fun δ hδ => (hids δ hδ).1.legal) plan.table []
    plan.title plan.version
  refine ⟨TypesModule.moduleLines plan.title plan.version _, _, by rw [TypesModule.render], rfl,
    TypesModule.forall₂_itemsOf _ _ _, hbound, ?_⟩
  rw [hbound]
  exact TypesModule.nodup_bound (hnames ▸ hnodup) (fun item hm => (hitem item hm).1.unjoined)
    (fun item hm => (hitem item hm).2) (TypesModule.pairwise_constants _ _ _).1

/-! ### Two unions of one name in small letters -/

/-- A record whose kind is fixed. -/
def kindRecord (origin : Nat) (kind : String) : Value :=
  .mapping origin [(.text "type", .text "object"), (.text "properties", .mapping (origin + 1)
    [(.text "kind", .mapping (origin + 2) [(.text "const", .text kind)])])]

/-- A document with two unions whose names come to one in small letters, with a record that is named
after a constant of theirs. -/
def unionsDocument : Value :=
  let kinds : Value := .list [Draft.refSchema "#/components/schemas/Cat",
    Draft.refSchema "#/components/schemas/AB_TEST_VARIANTS"]
  .mapping 1 [(.text "openapi", .text "3.0.0"),
    (.text "info", .mapping 2 [(.text "title", .text "T"), (.text "version", .text "1")]),
    (.text "paths", .mapping 3 []),
    (.text "components", .mapping 4 [(.text "schemas", .mapping 5
      [(.text "Cat", kindRecord 10 "cat"), (.text "AB_TEST_VARIANTS", kindRecord 20 "dog"),
        (.text "ABTest", .mapping 30 [(.text "oneOf", kinds)]),
        (.text "AbTest", .mapping 31 [(.text "oneOf", kinds)])])])]

/-- The constants of the second union get a number. -/
theorem bindings_nodup_unions : ∃ plan, ofDocument unionsDocument = .ok plan ∧
    ∃ lines, (TypesModule.render plan.table plan.title plan.version "types.py").content =
      Artifact.lines lines ∧
    lines.flatMap TypesModule.boundBy = TypesModule.imported ++ "__all__" ::
      ["Cat", "ABTESTVARIANTS", "ABTest", "AB_TEST_DISCRIMINATOR", "AB_TEST_VARIANTS",
        "AbTest", "AB_TEST2_DISCRIMINATOR", "AB_TEST2_VARIANTS"] ∧
    (lines.flatMap TypesModule.boundBy).Nodup := by
  obtain ⟨plan, hplan, hchecked⟩ := exists_of_any (show (ofDocument unionsDocument).toOption.any
    (fun plan => (TypesModule.itemsOf plan.table [] plan.table.types).flatMap
      TypesModule.Item.bound == ["Cat", "ABTESTVARIANTS", "ABTest", "AB_TEST_DISCRIMINATOR",
        "AB_TEST_VARIANTS", "AbTest", "AB_TEST2_DISCRIMINATOR", "AB_TEST2_VARIANTS"]) = true by
    decide +kernel)
  obtain ⟨lines, items, hrender, hitems, -, hbound, hnodup⟩ := bindings_nodup hplan "types.py"
  refine ⟨plan, hplan, lines, hrender, ?_, hnodup⟩
  rw [hbound, hitems, eq_of_beq hchecked]

end RouteStubs.Plan
