import RouteStubs.Proofs.Nameable
import RouteStubs.Proofs.Resolver.Designated

/-!
# References to components are read back

The reference to a component spells the name of the component, whatever slashes and tildes are in
it, and whoever takes the reference apart gets this name. So a component whose key is a text is what
its reference is resolved to. The reference to one with another key spells that key as a text, and
is resolved to whatever stands at this text, if anything does. And one name is read back and still
not used: the empty one, whose reference is named like one into another part of the document.

## Main statements

* `Value.text?_of_mem`: an entry with a text as its key is found by this text.
* `Registry.nameFor_componentRef`: what a component is named after.
* `Registry.componentRef_readBack`: the name of a component goes into its reference and comes out
  again.
-/

namespace RouteStubs

/-! ### Entries with texts as keys -/

theorem Scalar.same_text_self (s : String) : (Scalar.text s).same (.text s) = true :=
  beq_self_eq_true s

/-- Where no key occurs twice, an entry with a text as its key is found by this text. -/
theorem Value.text?_of_mem {entries : Entries} {name : String} {v : Value}
    (hkeys : (entries.map Prod.fst).Nodup) (hm : (.text name, v) ∈ entries) :
    entries.text? name = some v := by
  induction entries with
  | nil => cases hm
  | cons entry rest ih =>
    obtain ⟨key, w⟩ := entry
    rw [List.map_cons, List.nodup_cons] at hkeys
    rw [Entries.text?, Entries.find?, List.find?_cons]
    rcases List.mem_cons.mp hm with heq | hrest
    · cases heq
      rw [Scalar.same_text_self]
      rfl
    · have hne : key.same (.text name) = false := by
        by_contra hsame
        obtain rfl := Scalar.eq_text_of_same (Bool.not_eq_false _ ▸ hsame)
        exact hkeys.1 (List.mem_map.mpr ⟨_, hrest, rfl⟩)
      rw [hne]
      exact ih hkeys.2 hrest

/-! ### What components are named after -/

namespace Registry

open Pointer

variable {r : Registry} {name : String}

/-- The name of a component is written by what follows the root in its reference. -/
theorem unescape_tail (name : String) :
    String.ofList (unescapeChars ((componentRef name).toList.drop componentRoot.length)) =
      name := by
  rw [drop_componentRef, unescapeChars_escapeChars, String.ofList_toList]

/-- A component that has no name yet is named after its own name, which has to be some text: the
reference to the one that has the empty text as its name ends in a segment without a name. -/
theorem nameFor_componentRef (hnew : r.index.lookup (componentRef name) = none) :
    (nameFor (componentRef name)).runFrom r =
      if name = "" then (.error (.defect .nothingNameable), r)
      else (reserve (componentRef name) name .schema).runFrom r := by
  split
  · next hempty =>
    subst hempty
    exact nameFor_of_nameless (segments_componentRef "") hnew
      ⟨by decide, "", by decide, by decide⟩
  · next hne =>
    rw [nameFor_run_of_none hnew, base, componentName?_componentRef hne]

/-- The name of a component goes into its reference and comes out again. No other name has this
reference; the reference has the name as its last segment, and its tail writes the name, after which
the component is then called, unless the name is the empty text. In any resolver that comes of
asking for references, the reference to a component whose key is spelled so is resolved to what
stands at this text: that is the very component if its key is the text, and nothing if no entry has
the text as its key. -/
theorem componentRef_readBack (name : String) :
    (∀ other, componentRef other = componentRef name → other = name) ∧
    Pointer.segments (componentRef name) = .ok ["components", "schemas", name] ∧
    String.ofList (unescapeChars ((componentRef name).toList.drop componentRoot.length)) = name ∧
    (∀ r : Registry, r.index.lookup (componentRef name) = none →
      (nameFor (componentRef name)).runFrom r =
        if name = "" then (.error (.defect .nothingNameable), r)
        else (reserve (componentRef name) name .schema).runFrom r) ∧
    ∀ document origin (entries : Entries) r,
      Document.schemas document = .ok (.mapping origin entries) →
      Resolver.Reached document r → ∀ key v, (key, v) ∈ entries → key.display = name →
        v.isMapping = true →
        let resolved := ((Resolver.resolve (.text (componentRef name))).runFrom r).1
        (∀ w, resolved.map Resolved.node = .ok w ↔
          entries.text? name = some w ∧ w.isMapping = true) ∧
        (key = .text name → (entries.map Prod.fst).Nodup →
          resolved.map Resolved.node = .ok v) ∧
        (entries.text? name = none →
          resolved.map Resolved.node =
            .error (.brokenReference (componentRef name) (.noEntry name))) := by
  refine ⟨fun other heq => componentRef_injective heq, segments_componentRef name,
    unescape_tail name, fun r => nameFor_componentRef, ?_⟩
  intro document origin entries r hs hr key v hm hname hv resolved
  have hnode : resolved.map Resolved.node = Resolver.target document (componentRef name) := by
    rw [Resolver.resolve_answers hr.recalls, Resolver.answer_text]
  rw [hnode, Document.target_componentRef_eq hs (List.ne_nil_of_mem hm)]
  refine ⟨fun w => ?_, ?_, fun hnone => by rw [hnone]⟩
  · cases hfound : entries.text? name with
    | none => simp
    | some u =>
      by_cases hu : u.isMapping = true
      · simp only [hu, if_true, Except.ok.injEq, Option.some.injEq]
        exact ⟨fun h => ⟨h, h ▸ hu⟩, fun h => h.1⟩
      · simp only [hu, Bool.false_eq_true, if_false, Option.some.injEq]
        exact ⟨nofun, fun h => absurd (h.1 ▸ h.2) hu⟩
  · rintro rfl hkeys
    rw [Value.text?_of_mem hkeys hm]
    simp only [hv, if_true]

/-- Two components, one with slashes and tildes in its name and one with a number as its key. -/
def spelled : Entries :=
  [(.text "a/b~1", .mapping 3 [(.text "type", .text "object")]),
    (.int 200, .mapping 4 [(.text "type", .text "string")])]

/-- The document with these components. -/
def spelledDocument : Value :=
  .mapping 0 [(.text "components", .mapping 1 [(.text "schemas", .mapping 2 spelled)])]

theorem componentRef_readBack_spelled :
    componentRef "a/b~1" = "#/components/schemas/a~1b~01" ∧
    ∃ r, Resolver.Reached spelledDocument r ∧ r.chain = [.text "#/components"] ∧
      ((Resolver.resolve (.text (componentRef "a/b~1"))).runFrom r).1.map Resolved.node =
        .ok (.mapping 3 [(.text "type", .text "object")]) ∧
      ((Resolver.resolve (.text (componentRef "200"))).runFrom r).1.map Resolved.node =
        .error (.brokenReference (componentRef "200") (.noEntry "200")) := by
  have hr : Resolver.Reached spelledDocument
      (Resolver.enter (.text "#/components") (Resolver.ofDocument spelledDocument)) :=
    .entered .start _
  obtain ⟨-, -, -, -, htext⟩ := componentRef_readBack "a/b~1"
  obtain ⟨-, -, -, -, hnumber⟩ := componentRef_readBack "200"
  have hfirst := htext spelledDocument 2 spelled _ rfl hr (.text "a/b~1") _
    List.mem_cons_self rfl rfl
  have hsecond := hnumber spelledDocument 2 spelled _ rfl hr (.int 200) _
    (List.mem_cons_of_mem _ List.mem_cons_self) rfl rfl
  exact ⟨by decide, _, hr, rfl, hfirst.2.1 rfl (by decide), hsecond.2.2 rfl⟩

/-- The empty name is not read back when a name is given, and a component whose key is a number is
not found by its own reference. -/
theorem not_componentRef_readBack :
    ¬ (∀ name, componentName? (componentRef name) = some name) ∧
    ¬ (∀ document origin (entries : Entries) r,
        Document.schemas document = .ok (.mapping origin entries) →
        Resolver.Reached document r → ∀ key v, (key, v) ∈ entries → v.isMapping = true →
          ((Resolver.resolve (.text (componentRef key.display))).runFrom r).1.map Resolved.node =
            .ok v) := by
  constructor
  · intro h
    exact absurd (h "") (by decide)
  · intro h
    have hfound := h spelledDocument 2 spelled _ rfl .start (.int 200) _
      (List.mem_cons_of_mem _ List.mem_cons_self) rfl
    cases hfound

end Registry

end RouteStubs
