import RouteStubs.Proofs.ClosedTable
import RouteStubs.Proofs.Render.HandlerModule
import RouteStubs.Proofs.Render.RouterModule
import RouteStubs.Proofs.Render.TypesModule
import RouteStubs.Proofs.Route.Names

/-!
# Documentation stays documentation

The generated files are full of texts from a document. Nearly all of them are made ready for where they
stand: a docstring or a comment does not end with them. What is not made ready is the type expressions
and the locations of parameters in docstrings, and the names of the fields that tell variants apart in
comments. So the generated files have the docstrings and the comments that they are written with, and
nothing of them is code, exactly if these do not happen to end where they stand.

## Main definitions

* `Plan.remarks`: the docstrings and the comments that the generated files are written with.
* `Plan.Contained`: what is not made ready does not have to be.
* `Plan.Misread`: the files for a document have other docstrings and comments.

## Main statements

* `Plan.legal_declaration`, `Plan.legal_operation`: the names in a plan mean nothing else where they are
  written.
* `Plan.remarks_of_render_iff`: when the generated files have the docstrings and comments that they are
  written with.
-/

namespace RouteStubs

variable {document : Value} {plan : Plan}

/-! ### Names -/

theorem isTame_of_isSegmentChar {c : Char} (h : Name.isSegmentChar c = true) : isTame c = true := by
  simp only [Name.isSegmentChar, Bool.or_eq_true, beq_iff_eq] at h
  rcases h with h | rfl
  · exact isTame_of_isNameChar (.inl (by simpa [Name.isWordChar, or_assoc] using Or.inr h))
  · decide

/-- The name under which a file is imported means nothing else. -/
theorem tame_moduleName (path : String) : Tame (Artifact.moduleName path) := by
  unfold Artifact.moduleName
  simp only
  split
  · decide
  · exact Tame.of_chars rfl (List.all_eq_true.mpr fun c hc =>
      isTame_of_isSegmentChar (Name.isSegmentChar_of_mem_segmentChars hc))

namespace Plan

/-- The names in a draft that is closed are legal. -/
theorem legal_of_closed {d : Draft} (hc : d.Closed) {node : Shape} (h : node.Throughout d.Names) :
    node.Throughout Shape.RefersLegally := by
  refine h.imp fun inner hn id hid => ?_
  obtain ⟨g, hg, rfl⟩ := hn id hid
  exact hc.legal g hg

theorem legal_declaration (h : ofDocument document = .ok plan) :
    ∀ d ∈ plan.table.types, d.Legal := by
  obtain ⟨d, hcollect⟩ := collect_of_ofDocument h
  obtain ⟨-, -, hc, -, htable⟩ := (collect_closed _ _).of_ok hcollect
  have htypes : plan.table.types = d.registry.given.map d.declarationOf :=
    congrArg Declarations.types htable
  rw [htypes]
  refine List.forall_mem_map.mpr fun g hg => ⟨hc.legal g hg, ?_⟩
  obtain ⟨node, hn⟩ := Option.isSome_iff_exists.mp (hc.filled g hg)
  have hnode : (d.declarationOf g).node = node := by simp [Draft.declarationOf, hn]
  rw [hnode]
  exact legal_of_closed hc (hc.fits g.id node hn).names

theorem legal_operation (h : ofDocument document = .ok plan) : ∀ op ∈ plan.operations, op.Legal := by
  obtain ⟨d, hcollect⟩ := collect_of_ofDocument h
  obtain ⟨-, hr, hc, hops, -⟩ := (collect_closed _ _).of_ok hcollect
  have hnamed := named_of_ofDocument h
  have hverbs : ∀ method ∈ Collect.methods, Tame (Text.upperCase method) := by decide
  intro op hop
  obtain ⟨raw, hmade⟩ := hops.exists_made hop
  have hnodes : ∀ node ∈ op.nodes, node.Throughout Shape.RefersLegally := fun node hn =>
    legal_of_closed hc (hmade.fits node hn).names
  have htype : ∀ type, op.parametersType = some type → Name.Legal type := by
    intro type htype
    obtain ⟨g, hg, rfl, -⟩ := hr.drafted.filled _ _ (hmade.parametersType.filled type htype)
    exact hc.legal g hg
  simp only [Operation.nodes, List.mem_append, List.mem_map, Option.mem_toList,
    List.mem_filterMap] at hnodes
  exact {
    handler := fun c hc => isTame_of_isSegmentChar (hnamed.isSegmentChar_handler hop c hc)
    verb := hverbs op.method (hnamed.methods op hop)
    parametersType := fun type ht => (htype type ht).isTame
    parameters := fun p hp => hnodes _ (.inl (.inl ⟨p, hp, rfl⟩))
    requestBody := fun node hn => hnodes node (.inl (.inr hn))
    responses := fun response hr node hn => hnodes node (.inr ⟨response, hr, hn⟩) }

theorem tame_module (h : ofDocument document = .ok plan) : ∀ g ∈ plan.groups, Tame g.module :=
  fun _ hg c hc => isTame_of_isSegmentChar
    (RouteGroup.isSegmentChar_of_module (ofOperations_of_ofDocument h) hg c hc)

/-! ### Files -/

/-- The docstrings and the comments that the generated files are written with, file by file. -/
def remarks (plan : Plan) : List (List Remark) :=
  TypesModule.remarks plan.title plan.version
      (TypesModule.itemsOf plan.table [] plan.table.types) ::
    RouterModule.remarks plan.title plan.version ::
    plan.groups.map fun g => HandlerModule.remarks g plan.title plan.version

/-- What is not made ready for a docstring or a comment does not end it. -/
structure Contained (plan : Plan) : Prop where
  declarations : ∀ d ∈ plan.table.types, d.Contained
  operations : ∀ op ∈ plan.operations, op.Contained

/-- What holds of the operations in all groups holds of all operations. -/
theorem forall_groups_iff {P : Operation → Prop} (h : ofDocument document = .ok plan) :
    (∀ g ∈ plan.groups, ∀ op ∈ g.operations, P op) ↔ ∀ op ∈ plan.operations, P op := by
  have hgroups := ofOperations_of_ofDocument h
  constructor
  · intro hall op hop
    obtain ⟨g, hg, -, hmem⟩ := RouteGroup.exists_group hgroups hop
    exact hall g hg op hmem
  · intro hall g hg op hop
    exact hall op ((RouteGroup.isGroupOf_of_ofOperations hgroups hg).mem_iff.mp hop).1

/-- Each file has the docstrings and the comments that it is written with. -/
theorem map_remarks_eq_iff (directory : String) :
    (plan.render directory []).map (fun file => remarks? file.content.toList) =
        plan.remarks.map some ↔
      remarks? (TypesModule.render plan.table plan.title plan.version
          (directory ++ "types.py")).content.toList = some (TypesModule.remarks plan.title
            plan.version (TypesModule.itemsOf plan.table [] plan.table.types)) ∧
      remarks? (RouterModule.render plan.groups plan.title plan.version
          directory).content.toList = some (RouterModule.remarks plan.title plan.version) ∧
      ∀ g ∈ plan.groups, remarks? (HandlerModule.render g plan.title plan.version
          (directory ++ "types.py") directory []).content.toList =
            some (HandlerModule.remarks g plan.title plan.version) := by
  unfold render remarks
  simp only [List.map_cons, List.map_map, List.cons.injEq, List.map_inj_left, Function.comp_apply]

/-- The module of a group has the docstrings and the comments that it is written with exactly if its
operations are contained. -/
theorem remarks?_group (h : ofDocument document = .ok plan) {g : RouteGroup} (hg : g ∈ plan.groups)
    (directory : String) :
    remarks? (HandlerModule.render g plan.title plan.version (directory ++ "types.py") directory
        []).content.toList = some (HandlerModule.remarks g plan.title plan.version) ↔
      ∀ op ∈ g.operations, op.Contained := by
  have hgroup := RouteGroup.isGroupOf_of_ofOperations (ofOperations_of_ofDocument h) hg
  exact HandlerModule.remarks?_render (tame_moduleName _)
    (fun op hop => legal_operation h op (hgroup.mem_iff.mp hop).1) plan.title plan.version directory

/-- The generated files, with handlers that are not filled in, have the docstrings and the comments that
they are written with, and no others, exactly if the plan is contained. -/
theorem remarks_of_render_iff (h : ofDocument document = .ok plan) (directory : String) :
    (plan.render directory []).map (fun file => remarks? file.content.toList) =
        plan.remarks.map some ↔ plan.Contained := by
  have htypes := TypesModule.remarks?_render (legal_declaration h) plan.title plan.version
    (directory ++ "types.py")
  have hrouter := RouterModule.remarks?_render (tame_module h) plan.title plan.version directory
  rw [map_remarks_eq_iff, htypes, and_iff_right hrouter,
    forall₂_congr fun g hg => remarks?_group h hg directory, forall_groups_iff h]
  exact ⟨fun hall => ⟨hall.1, hall.2⟩, fun hc => ⟨hc.declarations, hc.operations⟩⟩

/-! ### A document with quotes in it -/

/-- Records of one kind, with other fields that have one value. -/
def petRecord (origin : Nat) (about field kind other : String) : Value :=
  .mapping origin [(.text "type", .text "object"), (.text "description", .text about),
    (.text "properties", .mapping (origin + 1)
      [(.text field, .mapping (origin + 2) [(.text "const", .text kind)])]),
    (.text "additionalProperties", .mapping (origin + 3) [(.text "enum", .list [.text other])])]

/-- A document with cats and dogs, which a field tells apart, and with an operation that takes a
parameter from a location. -/
def petsDocument (about field other location : String) : Value :=
  .mapping 1 [(.text "openapi", .text "3.0.0"),
    (.text "info", .mapping 2 [(.text "title", .text about), (.text "version", .text "1")]),
    (.text "paths", .mapping 3 [(.text "/pets", .mapping 4 [(.text "get", .mapping 5
      [(.text "summary", .text about), (.text "parameters", .list [.mapping 6
        [(.text "name", .text about), (.text "in", .text location)]])])])]),
    (.text "components", .mapping 7 [(.text "schemas", .mapping 8
      [(.text "Cat", petRecord 10 about field "cat" other),
        (.text "Dog", petRecord 20 about field "dog" other),
        (.text "Pet", .mapping 30 [(.text "oneOf", .list [Draft.refSchema "#/components/schemas/Cat",
          Draft.refSchema "#/components/schemas/Dog"])])])])]

/-- Three quotes. -/
def quotes : String := "\"\"\""

/-- What a document says may well be three quotes. -/
theorem remarks_of_render_pets : ∃ plan,
    ofDocument (petsDocument quotes "kind" "other" "query") = .ok plan ∧
    plan.operations.map (·.summary) = [quotes] ∧ plan.Contained ∧
    (plan.render "" []).map (fun file => remarks? file.content.toList) = plan.remarks.map some := by
  have hchecked : (ofDocument (petsDocument quotes "kind" "other" "query")).toOption.any (fun plan =>
      plan.operations.map (·.summary) == [quotes] &&
      plan.table.types.all (fun d => decide d.Contained) &&
      plan.operations.all fun op => decide op.Contained) = true := by
    decide +kernel
  obtain ⟨plan, hplan, htest⟩ := exists_of_any hchecked
  simp only [Bool.and_eq_true, beq_iff_eq, List.all_eq_true, decide_eq_true_eq] at htest
  have hc : plan.Contained := ⟨htest.1.2, htest.2⟩
  exact ⟨plan, hplan, htest.1.1, hc, (remarks_of_render_iff hplan "").mpr hc⟩

/-- There are generated files for the document, and some of them do not have the docstrings and the
comments that they are written with. -/
def Misread (document : Value) : Prop :=
  ∃ plan, ofDocument document = .ok plan ∧
    (plan.render "" []).map (fun file => remarks? file.content.toList) ≠ plan.remarks.map some

theorem misread_of_any (h : (ofDocument document).toOption.any (fun plan =>
    plan.table.types.any (fun d => decide ¬ d.Contained) ||
    plan.groups.any fun g => g.operations.any fun op => decide ¬ op.Contained) = true) :
    Misread document := by
  obtain ⟨plan, hplan, htest⟩ := exists_of_any h
  refine ⟨plan, hplan, fun heq => ?_⟩
  obtain ⟨htypes, -, hgroups⟩ := (map_remarks_eq_iff "").mp heq
  have hdeclarations := (TypesModule.remarks?_render (legal_declaration hplan) _ _ _).mp htypes
  simp only [Bool.or_eq_true, List.any_eq_true, decide_eq_true_eq] at htest
  rcases htest with ⟨d, hmem, hno⟩ | ⟨g, hg, op, hop, hno⟩
  · exact hno (hdeclarations d hmem)
  · exact hno ((remarks?_group hplan hg "").mp (hgroups g hg) op hop)

/-- The name of the field that tells the pets apart may not have a line end in it, the value of a
further field may not be three quotes, and neither may the location of the parameter. -/
theorem remarks_of_render_broken :
    Misread (petsDocument "Pets" "kind\nimport os" "other" "query") ∧
    Misread (petsDocument "Pets" "kind" quotes "query") ∧
    Misread (petsDocument "Pets" "kind" "other" quotes) := by
  refine ⟨?_, ?_, ?_⟩
  · exact misread_of_any (by decide +kernel)
  · exact misread_of_any (by decide +kernel)
  · exact misread_of_any (by decide +kernel)

end Plan

end RouteStubs
