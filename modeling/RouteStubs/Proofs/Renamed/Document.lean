import RouteStubs.Document.Basic
import RouteStubs.Proofs.Renamed.Value

/-!
# The parts of a document with other identities

Whether a value is a document, and what its main parts are, does not depend on identities. Where a part
is not given an empty mapping stands in for it.

## Main definitions

* `Value.renameGiven f`: a part of a document, or what stands in for it, with other identities.

## Main statements

* `Document.validate_rename`: whether a value is a document.
* `Document.component_rename`, `Document.paths_rename`: its main parts.
-/

namespace RouteStubs

namespace Value

/-- A part of a document that counts as given, with other identities. What stands in for a part that is
not given has no identity of its own. -/
def renameGiven (f : Nat → Nat) : Value → Value
  | .mapping _ [] => .mapping 0 []
  | v => v.rename f

variable {f : Nat → Nat}

theorem renameGiven_of_isTrue {v : Value} (h : v.isTrue = true) : v.renameGiven f = v.rename f := by
  unfold renameGiven
  split
  · cases h
  · rfl

variable (f) in
/-- The entries of a part are those with other identities, whether it is given or not. -/
theorem exists_renameGiven (origin : Nat) (entries : Entries) :
    ∃ origin', (mapping origin entries).renameGiven f = .mapping origin' (entries.rename f) := by
  cases entries with
  | nil => exact ⟨0, rfl⟩
  | cons first rest => exact ⟨f origin, rename_mapping f origin _⟩

end Value

namespace Document

variable {f : Nat → Nat}

theorem isMissing_rename (info : Entries) (key : String) :
    isMissing (info.rename f) key = isMissing info key := by
  unfold isMissing
  rw [Entries.text?_rename]
  cases info.text? key with
  | none => rfl
  | some v =>
    have hnull : (v.rename f).same .null = v.same .null := Value.same_rename v .null
    rw [Option.map_some]
    simp only [hnull, Value.isText_rename]

theorem validate_rename (document : Value) : validate (document.rename f) = validate document := by
  cases document with
  | scalar s => rfl
  | list items => rw [Value.rename_list]; rfl
  | mapping origin entries =>
    have hversion : ((Entries.text? entries "openapi").map (Value.rename f)).map Value.isTrue =
        (Entries.text? entries "openapi").map Value.isTrue := by
      rw [Option.map_map]
      congr 1
      funext v
      exact Value.isTrue_rename v
    rw [Value.rename_mapping]
    simp only [validate, Entries.text?_rename, hversion]
    rcases Entries.text? entries "info" with _ | info
    · rfl
    cases info with
    | scalar s => rfl
    | list items => rw [Option.map_some, Value.rename_list]; rfl
    | mapping origin info =>
      rw [Option.map_some, Value.rename_mapping]
      simp only [isMissing_rename]
      rcases Entries.text? entries "paths" with _ | paths
      · rfl
      · simp only [Option.map_some, Value.isMapping_rename]

theorem givenMember_rename (v : Value) (key : String) :
    givenMember (v.rename f) key = (givenMember v key).map (Option.map (Value.rename f)) := by
  cases v with
  | mapping origin entries =>
    rw [Value.rename_mapping, givenMember, givenMember, Entries.text?_rename]
    cases Entries.text? entries key with
    | none => rfl
    | some w =>
      simp only [Option.map_some, Option.filter_some, Value.isTrue_rename, Except.map]
      split <;> rfl
  | scalar s => rfl
  | list items => rw [Value.rename_list]; rfl

theorem isTrue_of_givenMember {v w : Value} {key : String} (h : givenMember v key = .ok (some w)) :
    w.isTrue = true := by
  unfold givenMember at h
  split at h
  · have hfilter := Except.ok.inj h
    exact (Option.filter_eq_some_iff.mp hfilter).2
  · cases h

/-- A part that is given is renamed, and what stands in for one that is not is the same. -/
theorem getD_givenMember_rename (v : Value) (key : String) :
    (givenMember (v.rename f) key).map (·.getD (.mapping 0 [])) =
      ((givenMember v key).map (·.getD (.mapping 0 []))).map (Value.renameGiven f) := by
  rw [givenMember_rename]
  rcases hgiven : givenMember v key with fault | _ | w
  · rfl
  · rfl
  · have hw := isTrue_of_givenMember hgiven
    simp only [Except.map, Option.map_some, Option.getD_some, Value.renameGiven_of_isTrue hw]

theorem component_rename (document : Value) (part : String) :
    component (document.rename f) part = (component document part).map (Value.renameGiven f) := by
  unfold component
  rw [givenMember_rename]
  rcases givenMember document "components" with fault | _ | components
  · rfl
  · rfl
  · exact getD_givenMember_rename components part

theorem paths_rename (document : Value) :
    paths (document.rename f) = (paths document).map (Value.renameGiven f) :=
  getD_givenMember_rename document "paths"

end Document

end RouteStubs
