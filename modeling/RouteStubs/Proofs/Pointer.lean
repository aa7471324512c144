import RouteStubs.Declaration.Draft
import RouteStubs.Proofs.Part
import RouteStubs.Proofs.Text

/-!
# Pointers to components

A pointer writes the slashes and tildes of a segment in another way, from which the segment is read
back. So the reference to a component has the name of the component as its last segment, whatever that
name is, and leads to the entry of this name.

## Main statements

* `Pointer.unescapeChars_escapeChars`: a segment is read back from a pointer.
* `Registry.componentRef_injective`: different components have different references.
* `Registry.componentName?_componentRef`: the name of a component is read back from its reference.
* `Document.target_componentRef_eq`: what the reference to a component leads to.
-/

namespace RouteStubs

open Text

/-! ### Segments -/

namespace Pointer

variable {name : String} {s : List Char}

/-- A character of a segment as it is written in a pointer. -/
def escapeChar (c : Char) : List Char :=
  if c = '~' then ['~', '0'] else if c = '/' then ['~', '1'] else [c]

theorem escapeChars_cons (c : Char) (s : List Char) :
    escapeChars (c :: s) = escapeChar c ++ escapeChars s := by
  unfold escapeChars escapeChar
  rw [replace_singleton_cons]
  by_cases htilde : c = '~'
  · simp [htilde, replace_singleton_cons]
  · by_cases hslash : c = '/' <;> simp [htilde, hslash, replace_singleton_cons]

/-- A segment is read back from what a pointer writes. -/
theorem unescapeChars_escapeChars (s : List Char) : unescapeChars (escapeChars s) = s := by
  -- slashes are read back first, and tildes after them
  have hslash : ∀ s : List Char, replace ['~', '1'] ['/'] (escapeChars s) =
      replace ['~'] ['~', '0'] s := by
    intro s
    induction s with
    | nil => rfl
    | cons c s ih =>
      rw [escapeChars_cons, escapeChar, replace_singleton_cons, ← ih]
      by_cases htilde : c = '~'
      · simp [htilde, replace, replaceFrom]
      · by_cases hslash : c = '/'
        · simp [hslash, replace, replaceFrom]
        · rw [if_neg htilde, if_neg hslash, if_neg htilde, List.singleton_append, List.singleton_append,
            replace_cons_of_ne htilde]
  rw [unescapeChars, hslash]
  induction s with
  | nil => rfl
  | cons c s ih =>
    rw [replace_singleton_cons]
    by_cases htilde : c = '~'
    · rw [if_pos htilde]
      unfold replace at ih ⊢
      simpa [replaceFrom, htilde] using ih
    · rw [if_neg htilde, List.singleton_append, replace_cons_of_ne htilde, ih]

theorem slash_notMem_escapeChars (s : List Char) : '/' ∉ escapeChars s := by
  induction s with
  | nil => exact List.not_mem_nil
  | cons c s ih =>
    rw [escapeChars_cons, List.mem_append, not_or]
    refine ⟨?_, ih⟩
    unfold escapeChar
    split
    · decide
    · split
      · decide
      · next hslash => simp [Ne.symm hslash]

theorem escapeChars_injective : Function.Injective escapeChars :=
  Function.LeftInverse.injective unescapeChars_escapeChars

end Pointer

/-! ### References to components -/

namespace Registry

open Pointer

variable {name : String}

/-- The reference to the mapping of all components. -/
def componentsRef : String := "#/components/schemas"

theorem toList_componentRef (name : String) :
    (componentRef name).toList = componentsRef.toList ++ '/' :: escapeChars name.toList := by
  simp [componentRef, componentRoot, componentsRef, escape, onChars, String.toList_append]

/-- Different components have different references. -/
theorem componentRef_injective : Function.Injective componentRef := by
  intro name other h
  have hl := congrArg String.toList h
  rw [toList_componentRef, toList_componentRef, List.append_cancel_left_eq, List.cons.injEq] at hl
  exact String.toList_inj.mp (escapeChars_injective hl.2)

/-- The mapping of all components is not a component. -/
theorem componentRef_ne_componentsRef (name : String) : componentRef name ≠ componentsRef := by
  intro h
  have hl := congrArg String.toList h
  simp [toList_componentRef] at hl

theorem pieces_componentsRef : pieces '/' componentsRef.toList =
    ["#".toList, "components".toList, "schemas".toList] := by decide

/-- The pieces of the reference to a component. -/
theorem pieces_componentRef (name : String) : pieces '/' (componentRef name).toList =
    ["#".toList, "components".toList, "schemas".toList, escapeChars name.toList] := by
  rw [toList_componentRef, pieces_append_sep, pieces_componentsRef,
    pieces_of_notMem (slash_notMem_escapeChars _)]
  rfl

/-- The reference to a component is the root and the name as a segment. -/
theorem toList_componentRef_root (name : String) :
    (componentRef name).toList = componentRoot.toList ++ escapeChars name.toList := by
  simp [componentRef, escape, onChars, String.toList_append]

theorem drop_componentRef (name : String) :
    (componentRef name).toList.drop componentRoot.length = escapeChars name.toList := by
  rw [toList_componentRef_root, ← String.length_toList, List.drop_left]

/-- The name of a component is read back from its reference. -/
theorem componentName?_componentRef (hne : name ≠ "") :
    componentName? (componentRef name) = some name := by
  have hroot : componentRoot.toList <+: (componentRef name).toList :=
    toList_componentRef_root name ▸ List.prefix_append _ _
  have hnil : escapeChars name.toList ≠ [] := by
    intro h
    have hempty := congrArg unescapeChars h
    rw [unescapeChars_escapeChars] at hempty
    exact hne (String.toList_inj.mp hempty)
  have hslash := slash_notMem_escapeChars name.toList
  rw [componentName?, if_pos (List.isPrefixOf_iff_prefix.mpr hroot)]
  simp [drop_componentRef, hnil, hslash, unescapeChars_escapeChars]

theorem segments_of_toList {ref : String} {rest : List Char} (h : ref.toList = '#' :: '/' :: rest) :
    Pointer.segments ref =
      .ok ((pieces '/' rest).map fun s => String.ofList (unescapeChars s)) := by
  rw [Pointer.segments, h]
  rfl

theorem segments_componentsRef :
    Pointer.segments componentsRef = .ok ["components", "schemas"] := by
  rw [segments_of_toList (show _ = '#' :: '/' :: "components/schemas".toList by decide)]
  exact congrArg Except.ok (by decide)

/-- The name of a component is the last segment of its reference. -/
theorem segments_componentRef (name : String) :
    Pointer.segments (componentRef name) = .ok ["components", "schemas", name] := by
  have hsegments : ((pieces '/' "components/schemas".toList).map fun s =>
      String.ofList (unescapeChars s)) = ["components", "schemas"] := by decide
  have hl : (componentRef name).toList =
      '#' :: '/' :: ("components/schemas".toList ++ '/' :: escapeChars name.toList) := by
    rw [toList_componentRef]
    rfl
  rw [segments_of_toList hl, pieces_append_sep, List.map_append, hsegments,
    pieces_of_notMem (slash_notMem_escapeChars _), List.map_singleton, unescapeChars_escapeChars,
    String.ofList_toList]
  rfl

end Registry

/-! ### Entries of components -/

namespace Document

open Registry Resolver

variable {document found : Value} {origin : Nat} {entries : Entries} {name : String}

theorem descend_of_givenMember {v : Value} {key ref : String}
    (h : givenMember v key = .ok (some found)) : descend ref key v = .ok found := by
  cases v with
  | mapping o es =>
    have hf : (Entries.text? es key).filter Value.isTrue = some found := Except.ok.inj h
    rw [descend, (Option.filter_eq_some_iff.mp hf).1]
  | _ => cases h

/-- A component is reached by way of the mapping of all components. -/
theorem walk_schemas (hs : schemas document = .ok (.mapping origin entries)) (hne : entries ≠ [])
    (ref : String) (segments : List String) :
    walk ref ("components" :: "schemas" :: segments) document =
      walk ref segments (.mapping origin entries) := by
  unfold schemas component at hs
  cases hcomponents : givenMember document "components" with
  | error fault =>
    rw [hcomponents] at hs
    cases hs
  | ok given =>
    rw [hcomponents] at hs
    cases given with
    | none =>
      cases hs
      exact absurd rfl hne
    | some components =>
      simp only [bind, Except.bind] at hs
      cases hschemas : givenMember components "schemas" with
      | error fault =>
        rw [hschemas] at hs
        cases hs
      | ok given =>
        rw [hschemas] at hs
        cases given with
        | none =>
          cases hs
          exact absurd rfl hne
        | some schemas =>
          cases hs
          rw [walk, descend_of_givenMember hcomponents]
          simp only [bind, Except.bind]
          rw [walk, descend_of_givenMember hschemas]
          rfl

/-- The reference to the mapping of all components leads there. -/
theorem target_componentsRef (hs : schemas document = .ok (.mapping origin entries))
    (hne : entries ≠ []) : target document componentsRef = .ok (.mapping origin entries) := by
  rw [target, segments_componentsRef]
  simp only [bind, Except.bind]
  rw [walk_schemas hs hne]
  rfl

/-- The reference to a component leads to the entry at its name as a text, if that is a mapping. -/
theorem target_componentRef_eq (hs : schemas document = .ok (.mapping origin entries))
    (hne : entries ≠ []) (name : String) :
    target document (componentRef name) =
      match entries.text? name with
      | some v => if v.isMapping then .ok v
          else .error (.brokenReference (componentRef name) .notObject)
      | none => .error (.brokenReference (componentRef name) (.noEntry name)) := by
  rw [target, segments_componentRef]
  simp only [bind, Except.bind]
  rw [walk_schemas hs hne, walk, descend]
  cases entries.text? name <;> rfl

/-- What the reference to a component leads to is its entry. -/
theorem target_componentRef (hs : schemas document = .ok (.mapping origin entries))
    (hne : entries ≠ []) (ht : target document (componentRef name) = .ok found) :
    entries.text? name = some found ∧ found.isMapping = true := by
  refine ⟨?_, (part_of_target ht).2⟩
  rw [target_componentRef_eq hs hne] at ht
  split at ht
  · next v hv =>
    split at ht
    · rw [hv, Except.ok.inj ht]
    · cases ht
  · cases ht

end Document

end RouteStubs
