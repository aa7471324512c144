import RouteStubs.Proofs.Schema.Ending

/-!
# What a walk is refused for

A walk through a schema finds a shape, or it is refused for a cause that the rules provide for, or else
a schema that it visits is such that a rule refuses it for no cause of its own. These schemas are few:
everything else that no rule reads is unknown. A union that a walk finds settles, if formats can be
looked up.

## Main definitions

* `Canon.NamesAll`: every reference is given a name.
* `Shape.Settles`: if the shape is a union, its discriminator is found or known not to be there.

## Main statements

* `Canon.Reached.shapeOf_foreseen`: the outcomes of a walk.
* `Canon.not_shapeOf_foreseen`: a null member of a composition has no cause of its own.
-/

namespace RouteStubs

/-- If the shape is a union, it can be settled at any time. -/
def Shape.Settles (node : Shape) : Prop :=
  ∀ variants discriminator, node = .union variants discriminator → ∀ {ν : Type} (p : Progress ν),
    (Canon.settled variants discriminator p).isOk = true

namespace Canon

open Shape Step

variable {ν : Type} {namer : Namer ν} {document : Value} {p : Progress ν}

/-- Every reference is given a name. -/
def NamesAll (namer : Namer ν) : Prop :=
  ∀ ref names, ((namer ref).runFrom names).1.isOk = true

/-- Unions settle if they can be looked up. -/
theorem isOk_settled {variants : List Shape} (h : areKeys variants = true)
    (discriminator : Option String) (p : Progress ν) :
    (settled variants discriminator p).isOk = true := by
  unfold settled
  split
  · rfl
  · rw [h]
    split
    · next hkeys => cases hkeys
    · split <;> rfl

theorem settles_of_formatted {node : Shape} (h : node.Throughout (Formatted False)) :
    node.Throughout Settles := by
  intro inner hinner variants discriminator hunion ν p
  subst hunion
  have hin : (Shape.union variants discriminator).Throughout (Formatted False) := fun part hp =>
    h part (hp.trans hinner)
  exact isOk_settled (areKeys_of_formatted (below_union.mp hin.below)) discriminator p

/-- A walk through a schema finds a shape, or it is refused for a cause that the rules provide for, or
for a schema that it visits and that a rule refuses for no cause of its own. All unions in the shape and
in the definitions settle, unless a format in the document or in the schema is a list or a mapping. -/
theorem Reached.shapeOf_foreseen (h : Reached namer document p) (hnamer : NamesAll namer)
    (context : String) (schema : Value) :
    (shapeOf namer context schema).Ends p
      (fun node p' => ¬ (HasLooseFormat document ∨ HasLooseFormat schema) →
        node.Throughout Settles ∧
          ∀ name found, p'.definitions.find? name = some found → found.Throughout Settles)
      fun fault _ => fault.isForeseen = true ∨ ∃ v d, Visits document schema v ∧
        Unforeseen (HasLooseFormat document ∨ HasLooseFormat schema) v d ∧ fault = .defect d := by
  have hmatches := shapeOf_watched_matches namer (fun _ _ => pure .unknown)
    (fun refs hrefs => overgrown_eq_false hrefs) context (le_refl (bound document schema))
  refine (hmatches p p h.together).imp (fun node p' hend hstrict => ?_) fun fault p' hend => ?_
  · unfold Ends at hend
    split at hend
    · obtain ⟨hnode, hp⟩ := hend
      have hno : HasLooseFormat document → False := fun hl => hstrict (.inl hl)
      refine ⟨settles_of_formatted (throughout_formatted hstrict hnode.2), fun name found hn => ?_⟩
      exact settles_of_formatted (throughout_formatted hno (hp.formatted name found hn))
    · exact hend.elim
  · unfold Ends at hend
    split at hend
    · exact hend.elim
    · obtain ⟨-, hfail, -⟩ := hend
      rcases hfail with hf | ⟨ref, names, hname⟩ | hdefect
      · exact .inl hf
      · -- names do not fail
        have hok := hnamer ref names
        rw [hname] at hok
        cases hok
      · exact .inr hdefect

/-- A document without anything. -/
def blank : Value := .mapping 0 []

/-- A composition of nothing but one member. -/
def soleMember (member : Value) : Value := .mapping 1 [(.text "allOf", .list [member])]

theorem shapeOf_foreseen_member :
    Reached ownName blank (Progress.start () blank) ∧ NamesAll ownName ∧
      (shapeOf ownName "" (soleMember .null)).Ends (Progress.start () blank)
        (fun node p' => ¬ (HasLooseFormat blank ∨ HasLooseFormat (soleMember .null)) →
          node.Throughout Settles ∧
            ∀ name found, p'.definitions.find? name = some found → found.Throughout Settles)
        fun fault _ => fault.isForeseen = true ∨ ∃ v d, Visits blank (soleMember .null) v ∧
          Unforeseen (HasLooseFormat blank ∨ HasLooseFormat (soleMember .null)) v d ∧
          fault = .defect d :=
  ⟨.start (), fun _ _ => rfl, (Reached.start ()).shapeOf_foreseen (fun _ _ => rfl) "" _⟩

/-- A null member of a composition is refused for no cause of its own, where any other member without a
shape is unknown; and so is a record with a description that is no text. -/
theorem not_shapeOf_foreseen :
    NamesAll ownName ∧
      ((shapeOf ownName "" (soleMember .null)).runFrom (Progress.start () blank)).1 =
        .error (.defect .noMembers) ∧
      ((shapeOf ownName "" (soleMember (.bool true))).runFrom (Progress.start () blank)).1 =
        .ok .unknown ∧
      ((shapeOf ownName "" (.mapping 1 [(.text "type", .text "object"),
          (.text "description", .scalar (.int 5))])).runFrom (Progress.start () blank)).1 =
        .error (.defect .wrongKind) ∧
      Fault.isForeseen (.defect .noMembers) = false ∧
      Fault.isForeseen (.defect .wrongKind) = false :=
  ⟨fun _ _ => rfl, rfl, rfl, rfl, rfl, rfl⟩

end Canon

end RouteStubs
