import RouteStubs.Declaration.Draft

/-!
# Which faults a computation has

A composition that leads back to itself is refused where its members are merged and nowhere else.
The computations that the walk through schemas relies on have other faults.

## Main definitions

* `Fault.isSelfReferring`: a member of a composition leads back to the schema that it is part of.
* `Fault.Plain`: a computation has no such fault.
-/

namespace RouteStubs

namespace Fault

variable {α β : Type}

/-- Whether a member of a composition leads back to the schema that it is part of. -/
def isSelfReferring : Fault → Bool
  | .unsupportedComposition _ (.selfReferring _) => true
  | _ => false

/-- The computation gives a value or has a fault that is not about a composition that leads back to
itself. -/
def Plain (outcome : Except Fault α) : Prop :=
  ∀ fault, outcome = .error fault → fault.isSelfReferring = false

theorem plain_ok (a : α) : Plain (.ok a) := by
  intro fault h
  cases h

theorem plain_error {fault : Fault} (h : fault.isSelfReferring = false) :
    Plain (.error fault : Except Fault α) := by
  rintro _ ⟨⟩
  exact h

theorem Plain.bind {outcome : Except Fault α} {next : α → Except Fault β} (h : Plain outcome)
    (hn : ∀ a, Plain (next a)) : Plain (outcome >>= next) := by
  cases outcome with
  | ok a => exact hn a
  | error fault => exact plain_error (h fault rfl)

theorem plain_mapM {f : α → Except Fault β} (h : ∀ a, Plain (f a)) (as : List α) :
    Plain (as.mapM f) := by
  induction as with
  | nil => exact plain_ok _
  | cons a rest ih =>
    rw [List.mapM_cons]
    exact (h a).bind fun b => ih.bind fun bs => plain_ok _

end Fault

open Fault

/-! ### Names and references -/

theorem Prose.plain_ofMember (entries : Entries) (key : String) : Plain (ofMember entries key) := by
  unfold ofMember ofValue
  split
  · split
    · exact plain_ok _
    · split
      · exact plain_error rfl
      · exact plain_ok _
  · exact plain_ok _

theorem Pointer.plain_segments (ref : String) : Plain (segments ref) := by
  unfold segments
  split
  · exact plain_ok _
  · exact plain_ok _
  · exact plain_error rfl
  · exact plain_error rfl

theorem Resolver.plain_descend (ref segment : String) (v : Value) : Plain (descend ref segment v) := by
  unfold descend
  split
  · split
    · exact plain_ok _
    · exact plain_error rfl
  · split
    · exact plain_ok _
    · exact plain_error rfl
  · exact plain_error rfl

theorem Resolver.plain_walk (ref : String) (segments : List String) (v : Value) :
    Plain (walk ref segments v) := by
  induction segments generalizing v with
  | nil => exact plain_ok _
  | cons segment rest ih => exact (plain_descend ref segment v).bind ih

theorem Resolver.plain_target (document : Value) (ref : String) : Plain (target document ref) := by
  refine (Pointer.plain_segments ref).bind fun segments => (plain_walk _ _ _).bind fun v => ?_
  split
  · exact plain_ok _
  · exact plain_error rfl

theorem Name.plain_typeStyle (s fallback : String) : Plain (typeStyle s fallback) := by
  refine Plain.bind ?_ fun name => plain_ok _
  unfold withoutLeadingDigit
  split
  · exact plain_error rfl
  · exact plain_ok _

theorem Registry.plain_pointerBase (ref : String) : Plain (pointerBase ref) := by
  refine (Pointer.plain_segments ref).bind fun segments => ?_
  split
  · exact plain_ok _
  · exact (plain_mapM (fun s => Name.plain_typeStyle s "") _).bind fun _ => plain_ok _

theorem Document.plain_schemas (document : Value) : Plain (Document.schemas document) := by
  have hgiven : ∀ v key, Plain (Document.givenMember v key) := by
    intro v key
    unfold Document.givenMember
    split
    · exact plain_ok _
    · exact plain_error rfl
  refine (hgiven document "components").bind fun components => ?_
  split
  · exact plain_ok _
  · exact (hgiven _ "schemas").bind fun _ => plain_ok _

/-! ### Records -/

theorem Canon.plain_requiredNames (entries : Entries) : Plain (requiredNames entries) := by
  unfold requiredNames
  split
  · split
    · exact plain_ok _
    · exact plain_error rfl
  · exact plain_ok _

theorem Canon.plain_mergeFields (context : String) (merged more : List (Field Shape)) :
    Plain (mergeFields context merged more) := by
  induction more generalizing merged with
  | nil => exact plain_ok _
  | cons f rest ih =>
    unfold mergeFields
    split
    · exact ih _
    · split
      · exact ih _
      · exact plain_error rfl

theorem Canon.plain_requireFields (fields : List (Field Shape)) (names : List Value) :
    Plain (requireFields fields names) := by
  unfold requireFields
  split
  · exact plain_ok _
  · exact plain_error rfl

end RouteStubs
