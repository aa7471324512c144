import Mathlib.Data.List.Dedup
import RouteStubs.Proofs.Renamed.Walk

/-!
# The walk ends

The walk goes down into a schema, where everything is less deep than the schema, or it follows a
reference to some place of the document, which may be as deep as any. But no reference is followed while
it is being expanded, so there are no more references to follow than different ones in the document and
in the schema; the number of those that are left and the depth of the schema go down together in the
order of the dictionary. The bound on the steps of the walk is never reached, and whatever is done when
it is reached, or when a reference is expanded inside itself, is never done.

## Main definitions

* `Canon.Reached`: the states between walks.
* `Canon.watched`: the walk, which does something else when the chain of references is overgrown or when
  its steps are used up.
* `Canon.overgrown`: a reference occurs twice on a chain, or the chain is longer than a limit.
* `Canon.CanFail`: the faults of a walk.

## Main statements

* `Canon.depth_lt_of_mem_parts`: the schemas inside a schema are less deep.
* `Canon.shape_watched_matches`: the walk, if there are steps enough for what is left.
* `Canon.Reached.together`: what holds between walks.
* `Canon.Reached.shapeOf_watched`: the walk is never overgrown.
-/

namespace RouteStubs

/-! ### Depth -/

namespace Value

variable {v w : Value}

theorem depth_pos (v : Value) : 0 < v.depth := by
  cases v <;> simp [depth]

theorem depth_le_of_item {items : List Value} (h : v ∈ items) : v.depth ≤ depthItems items := by
  induction items with
  | nil => cases h
  | cons first rest ih =>
    rw [depthItems]
    rcases List.mem_cons.mp h with rfl | h
    · exact Nat.le_max_left _ _
    · exact (ih h).trans (Nat.le_max_right _ _)

theorem depth_le_of_entry {key : Scalar} {entries : Entries} (h : (key, v) ∈ entries) :
    v.depth ≤ depthEntries entries := by
  induction entries with
  | nil => cases h
  | cons first rest ih =>
    obtain ⟨k, w⟩ := first
    rw [depthEntries]
    rcases List.mem_cons.mp h with heq | h
    · cases heq
      exact Nat.le_max_left _ _
    · exact (ih h).trans (Nat.le_max_right _ _)

/-- A part is the whole, or it is less deep. -/
theorem Part.eq_or_depth_lt (h : Part v w) : v = w ∨ v.depth < w.depth := by
  induction h with
  | refl => exact .inl rfl
  | @item w items _ hm ih =>
    have hw := depth_le_of_item hm
    have hv : v.depth ≤ w.depth := ih.elim (fun heq => heq ▸ le_rfl) le_of_lt
    rw [depth]
    omega
  | @entry w key origin entries _ hm ih =>
    have hw := depth_le_of_entry hm
    have hv : v.depth ≤ w.depth := ih.elim (fun heq => heq ▸ le_rfl) le_of_lt
    rw [depth]
    omega

theorem Part.depth_le (h : Part v w) : v.depth ≤ w.depth :=
  h.eq_or_depth_lt.elim (fun heq => heq ▸ le_rfl) le_of_lt

end Value

namespace Canon

open Shape Step Value

variable {ν : Type} {namer : Namer ν} {document root v w : Value}

/-- The schemas inside a schema are less deep than the schema. -/
theorem depth_lt_of_mem_parts {schema : Value} (h : v ∈ parts schema) : v.depth < schema.depth := by
  cases schema with
  | mapping origin entries =>
    -- the parts do not depend on the identity of the mapping, so one that is not that of `v` will do
    obtain ⟨other, hother⟩ : ∃ other, v ≠ .mapping other entries := by
      by_cases heq : v = .mapping 0 entries
      · exact ⟨1, by rw [heq]; simp⟩
      · exact ⟨0, heq⟩
    have hmem : v ∈ parts (.mapping other entries) := h
    rcases part_of_mem_parts hmem with rfl | hpart
    · cases entries with
      | nil => cases h
      | cons first rest =>
        obtain ⟨key, w⟩ := first
        have hpos := depth_pos w
        simp only [depth, depthEntries]
        omega
    · exact hpart.eq_or_depth_lt.resolve_left hother
  | _ => cases h

/-! ### Formats and defects -/

theorem HasLooseFormat.of_part (h : HasLooseFormat v) (hpart : Part v w) : HasLooseFormat w := by
  obtain ⟨origin, entries, type, format, hin, hformat⟩ := h
  exact ⟨origin, entries, type, format, hin.trans hpart, hformat⟩

theorem HasLooseFormat.of_mem_parts (h : HasLooseFormat w) (hw : w ∈ parts v) : HasLooseFormat v := by
  rcases part_of_mem_parts hw with rfl | hpart
  · obtain ⟨origin, entries, type, format, hin, -⟩ := h
    cases hin
  · exact h.of_part hpart

theorem Unforeseen.mono {loose loose' : Prop} {d : Defect} (h : Unforeseen loose v d)
    (hloose : loose → loose') : Unforeseen loose' v d := by
  cases h with
  | reference rule h => exact .reference rule h
  | record rule among form h => exact .record rule among form h
  | beside rule beside h => exact .beside rule beside h
  | member rule lone h => exact .member rule lone h
  | demanded rule h key => exact .demanded rule h key
  | described rule h => exact .described rule h
  | alternatives rule h => exact .alternatives rule (hloose h)

/-- The first of two states that go alongside without other identities is the second. -/
theorem Together.self {defined : Prop} {chain : List Value} {p p' : Progress ν}
    (h : Together id defined document chain p p') : Together id defined document chain p p :=
  ⟨(Progress.rename_id p).symm, h.recalls, h.chain_eq, h.formatted⟩

/-! ### What is left to do -/

/-- The different references of the document and of the schema. -/
def distinctReferences (document root : Value) : List String :=
  (document.references ++ root.references).dedup

/-- The value is met on a walk from the root: it stands in the document or in the root, or there is
nothing. -/
def Inside (document root v : Value) : Prop :=
  v = .null ∨ Part v document ∨ Part v root

/-- The references that are being expanded are different references of the document or the root. -/
structure Expanding (document root : Value) (refs : List String) : Prop where
  nodup : refs.Nodup
  known : refs ⊆ distinctReferences document root

/-- The steps that are left to do: each reference that is not being expanded may lead down once more
from the top, and the schema is gone through. -/
def stepsLeft (document root : Value) (refs : List String) (v : Value) : Nat :=
  ((distinctReferences document root).length - refs.length) * (max document.depth root.depth + 1) +
    v.depth

theorem stepsLeft_pos (document root : Value) (refs : List String) (v : Value) :
    0 < stepsLeft document root refs v := Nat.add_pos_right _ (depth_pos v)

theorem Expanding.length_le {refs : List String} (h : Expanding document root refs) :
    refs.length ≤ (distinctReferences document root).length :=
  (h.nodup.subperm h.known).length_le

theorem Inside.depth_le (h : Inside document root v) : v.depth ≤ max document.depth root.depth := by
  rcases h with rfl | h | h
  · have := depth_pos document
    simp only [depth]
    omega
  · exact h.depth_le.trans (Nat.le_max_left _ _)
  · exact h.depth_le.trans (Nat.le_max_right _ _)

theorem Inside.of_mem_parts (h : Inside document root v) (hw : w ∈ parts v) :
    Inside document root w := by
  rcases part_of_mem_parts hw with rfl | hpart
  · exact .inl rfl
  · rcases h with rfl | h | h
    · cases hw
    · exact .inr (.inl (hpart.trans h))
    · exact .inr (.inr (hpart.trans h))

theorem mem_references_of_isReference {ref : String} (h : IsReference v ref) : ref ∈ v.references := by
  obtain ⟨origin, entries, rfl, hrule⟩ := h
  have hkey := key_of_ruleOf entries
  rw [hrule] at hkey
  exact mem_references_of_member? hkey

theorem Inside.mem_distinctReferences {ref : String} (h : Inside document root v)
    (hr : IsReference v ref) : ref ∈ distinctReferences document root := by
  have hmem := mem_references_of_isReference hr
  unfold distinctReferences
  rw [List.mem_dedup, List.mem_append]
  rcases h with rfl | h | h
  · cases hmem
  · exact .inl (h.references hmem)
  · exact .inr (h.references hmem)

/-- One more reference is expanded. -/
theorem Expanding.enter {refs : List String} {ref : String} (h : Expanding document root refs)
    (hnew : ref ∉ refs) (hr : ref ∈ distinctReferences document root) :
    Expanding document root (refs ++ [ref]) where
  nodup := by
    rw [List.nodup_append]
    exact ⟨h.nodup, List.nodup_singleton ref, by simpa using fun a ha (heq : a = ref) => hnew (heq ▸ ha)⟩
  known := by
    intro s hs
    rcases List.mem_append.mp hs with hs | hs
    · exact h.known hs
    · exact List.mem_singleton.mp hs ▸ hr

/-- On the way down into a schema there is less left to do. -/
theorem stepsLeft_part (document root : Value) (refs : List String) (h : w ∈ parts v) :
    stepsLeft document root refs w < stepsLeft document root refs v :=
  Nat.add_lt_add_left (depth_lt_of_mem_parts h) _

/-- When a reference is followed there is less left to do, however deep its target is. -/
theorem stepsLeft_target {refs : List String} {ref : String} {found : Value}
    (h : Expanding document root (refs ++ [ref])) (hf : Inside document root found) :
    stepsLeft document root (refs ++ [ref]) found < stepsLeft document root refs v := by
  have hlength := h.length_le
  have hdepth := hf.depth_le
  unfold stepsLeft
  rw [List.length_append, List.length_singleton] at *
  obtain ⟨k, hk⟩ := Nat.exists_eq_add_of_le hlength
  have hbefore : (distinctReferences document root).length - refs.length = k + 1 := by omega
  have hafter : (distinctReferences document root).length - (refs.length + 1) = k := by omega
  rw [hbefore, hafter, Nat.add_mul]
  omega

/-! ### The walk, watched -/

/-- A reference occurs twice. -/
def repeats : List Value → Bool
  | [] => false
  | ref :: rest => rest.any ref.same || repeats rest

/-- A reference occurs twice on the chain, or the chain is longer than the limit. -/
def overgrown (limit : Nat) (chain : List Value) : Bool :=
  repeats chain || decide (limit < chain.length)

/-- The walk, which does something else instead of going into a schema when its steps are used up, or
when a chain of references is being expanded that raises the alarm. -/
def watched (alarm : List Value → Bool) (instead : Deeper ν) (namer : Namer ν) :
    (steps : Nat) → Deeper ν
  | 0, context, schema => instead context schema
  | steps + 1, context, schema => do
    if alarm (← get).resolver.chain then instead context schema
    else level namer (watched alarm instead namer steps) context schema

theorem repeats_eq_false {refs : List String} (h : refs.Nodup) :
    repeats (refs.map .text) = false := by
  induction refs with
  | nil => rfl
  | cons ref rest ih =>
    obtain ⟨hnew, hrest⟩ := List.nodup_cons.mp h
    rw [List.map_cons, repeats, ih hrest, Bool.or_false, List.any_eq_false]
    intro w hw
    obtain ⟨s, hs, rfl⟩ := List.mem_map.mp hw
    have hne : ref ≠ s := fun heq => hnew (heq ▸ hs)
    simpa [Value.same, Scalar.same] using hne

theorem overgrown_eq_false {refs : List String} (h : Expanding document root refs) :
    overgrown (distinctReferences document root).length (refs.map .text) = false := by
  rw [overgrown, repeats_eq_false h.nodup, Bool.false_or, decide_eq_false_iff_not, List.length_map,
    not_lt]
  exact h.length_le

/-- The faults that a walk from the root can have: those that the rules provide for, those of the names,
and a defect of a schema that is visited. -/
def CanFail (namer : Namer ν) (document root : Value) (fault : Fault) : Prop :=
  fault.isForeseen = true ∨ (∃ ref names, ((namer ref).runFrom names).1 = .error fault) ∨
    ∃ v d, Visits document root v ∧ Unforeseen (HasLooseFormat document ∨ HasLooseFormat root) v d ∧
      fault = .defect d

/-- With steps enough for what is left to do, the walk does not depend on their number and raises no
alarm. -/
theorem shape_watched_matches {loose : Prop} {alarm : List Value → Bool} {instead : Deeper ν}
    (halarm : ∀ refs, Expanding document root refs → alarm (refs.map .text) = false)
    {steps steps' : Nat} {refs : List String} (hrefs : Expanding document root refs)
    (hv : Inside document root v) (hvisits : Visits document root v)
    (hdocument : HasLooseFormat document → loose) (hformat : HasLooseFormat v → loose)
    (hroot : loose → HasLooseFormat document ∨ HasLooseFormat root)
    (h : stepsLeft document root refs v ≤ steps) (h' : stepsLeft document root refs v ≤ steps') :
    DeeperMatches id (HasLooseFormat document) loose document (CanFail namer document root)
      (shape namer steps) (watched alarm instead namer steps') (refs.map .text) v := by
  induction steps generalizing steps' refs v loose with
  | zero => exact absurd h (Nat.not_le.mpr (stepsLeft_pos document root refs v))
  | succ steps ih =>
    obtain ⟨steps', rfl⟩ :=
      Nat.exists_eq_add_one.mpr ((stepsLeft_pos document root refs v).trans_le h')
    have hlevel : DeeperMatches id (HasLooseFormat document) loose document
        (CanFail namer document root) (level namer (shape namer steps))
        (level namer (watched alarm instead namer steps')) (refs.map .text) v := by
      refine level_matches (fun _ => .inl) (fun ref names fault hf => .inr (.inl ⟨ref, names, hf⟩))
        (fun d hd => .inr (.inr ⟨v, d, hvisits, hd.mono hroot, rfl⟩)) hdocument hformat ?_ ?_
      · intro w hw
        have hless := stepsLeft_part document root refs hw
        exact ih hrefs (hv.of_mem_parts hw) (hvisits.tail (.part hw)) hdocument
          (fun hl => hformat (hl.of_mem_parts hw)) hroot (by omega) (by omega)
      · intro s found hs hout htarget
        have hnew : s ∉ refs := fun hm => hout (List.mem_map_of_mem hm)
        have hrefs' := hrefs.enter hnew (hv.mem_distinctReferences hs)
        have hpart := (Resolver.part_of_target htarget).1
        have hless := stepsLeft_target (v := v) hrefs' (.inr (.inl hpart))
        have hmeets : Meets document v found := by
          obtain ⟨origin, entries, rfl, hrule⟩ := hs
          exact .target hrule htarget
        have hin := @ih found _ steps' _ hrefs' (.inr (.inl hpart)) (hvisits.tail hmeets) id
          (fun hl => hl.of_part hpart) .inl (by omega) (by omega)
        rwa [List.map_append] at hin
    intro context
    rw [shape_succ]
    intro p p' hp
    -- the chain raises no alarm, so the watched walk goes into the schema
    have hquiet : alarm p'.resolver.chain = false := by
      rw [hp.renamed, Progress.rename_id, hp.chain_eq]
      exact halarm refs hrefs
    have hrun : (watched alarm instead namer (steps' + 1) context (v.rename id)).runFrom p' =
        (level namer (watched alarm instead namer steps') context (v.rename id)).runFrom p' := by
      rw [watched, runFrom_bind, runFrom_get]
      simp only [hquiet, Bool.false_eq_true, if_false]
    have hends := hlevel context p p' hp
    unfold Ends at hends ⊢
    rwa [hrun]

/-! ### Between walks -/

/-- The states of a walk through a document between schemas: the first, and those that lead from one of
them by finding the shape of a schema, by following the references of a value, and by giving names.
What is found or followed may have failed. -/
inductive Reached (namer : Namer ν) (document : Value) : Progress ν → Prop
  | start (names : ν) : Reached namer document (Progress.start names document)
  | walked {p : Progress ν} (context : String) (schema : Value) (h : Reached namer document p) :
      Reached namer document ((shapeOf namer context schema).runFrom p).2
  | followed {p : Progress ν} (node : Value) (h : Reached namer document p) :
      Reached namer document
        ((Progress.onResolver (Resolver.resolveNode node) : Step (Progress ν) Value).runFrom p).2
  | named {p : Progress ν} (names : ν) (h : Reached namer document p) :
      Reached namer document { p with names := names }

theorem inside_root (document root : Value) : Inside document root root := .inr (.inr .refl)

theorem expanding_nil (document root : Value) : Expanding document root [] :=
  ⟨List.nodup_nil, List.nil_subset _⟩

/-- What is left to do at the start. -/
theorem stepsLeft_le_bound (document schema : Value) :
    stepsLeft document schema [] schema ≤ bound document schema := by
  have hcount : (distinctReferences document schema).length ≤
      document.references.length + schema.references.length := by
    rw [← List.length_append]
    exact (List.dedup_sublist _).length_le
  have hdepth := (inside_root document schema).depth_le
  have hmul := Nat.mul_le_mul_right (max document.depth schema.depth + 1) hcount
  rw [stepsLeft, bound, List.length_nil, Nat.sub_zero, Nat.add_mul _ 1]
  omega

/-- A walk of which the steps are bounded as the library does it, in the states between walks. -/
theorem shapeOf_watched_matches (namer : Namer ν) (instead : Deeper ν) {alarm : List Value → Bool}
    {schema : Value}
    (halarm : ∀ refs, Expanding document schema refs → alarm (refs.map .text) = false)
    (context : String) {steps : Nat} (h : bound document schema ≤ steps) :
    Matches (Together id (HasLooseFormat document) document [])
      (Renamed id (HasLooseFormat document ∨ HasLooseFormat schema)) (CanFail namer document schema)
      (shapeOf namer context schema) (watched alarm instead namer steps context schema) := by
  intro p p' hp
  have hbound : stepsLeft document schema [] schema ≤ bound p.resolver.document schema := by
    rw [hp.recalls.document_eq]
    exact stepsLeft_le_bound document schema
  have hwalk : DeeperMatches id (HasLooseFormat document)
      (HasLooseFormat document ∨ HasLooseFormat schema) document (CanFail namer document schema)
      (shape namer (bound p.resolver.document schema)) (watched alarm instead namer steps) [] schema :=
    shape_watched_matches halarm (expanding_nil document schema) (inside_root document schema) .refl
      .inl .inr id hbound ((stepsLeft_le_bound document schema).trans h)
  have hends := hwalk context p p' hp
  have hrun : (shapeOf namer context schema).runFrom p =
      (shape namer (bound p.resolver.document schema) context schema).runFrom p := by
    rw [shapeOf, runFrom_bind, runFrom_get]
  rw [Value.rename_id] at hends
  unfold Ends at hends ⊢
  rwa [hrun]

/-- What holds between walks: what the resolver remembers is right, nothing is being expanded, and the
formats of the definitions come from the document. -/
theorem Reached.together {p : Progress ν} (h : Reached namer document p) :
    Together id (HasLooseFormat document) document [] p p := by
  induction h with
  | start names =>
    refine ⟨(Progress.rename_id _).symm, ⟨rfl, fun ref v hv => ?_⟩, rfl, fun name node hn => ?_⟩
    · cases hv
    · cases hn
  | @walked p context schema _ ih =>
    have hmatches := shapeOf_watched_matches namer (fun _ _ => pure .unknown)
      (fun refs hrefs => overgrown_eq_false hrefs) context (le_refl (bound document schema))
    obtain ⟨x, y, t, t', hrun, -, -, ht⟩ | ⟨fault, t, t', hrun, -, -, ht⟩ := hmatches.run ih
    · rw [hrun]
      exact ht.self
    · rw [hrun]
      exact ht.self
  | @followed p node _ ih =>
    have hresolver : Resolver.Together id document [] p.resolver p.resolver :=
      ⟨(Resolver.rename_id _).symm, ih.recalls, ih.chain_eq⟩
    rw [Progress.onResolver, runFrom_within]
    obtain ⟨x, y, t, t', hrun, -, -, ht⟩ | ⟨fault, t, t', hrun, -, -, ht⟩ :=
      (Resolver.resolveNode_matches node).run hresolver
    · rw [hrun]
      exact ⟨(Progress.rename_id _).symm, ht.recalls, ht.chain_eq, ih.formatted⟩
    · rw [hrun]
      exact ⟨(Progress.rename_id _).symm, ht.recalls, ht.chain_eq, ih.formatted⟩
  | named names _ ih =>
    exact ⟨(Progress.rename_id _).symm, ih.recalls, ih.chain_eq, ih.formatted⟩

/-- The walk through a schema ends, whatever the document, the schema, the names and what was walked
before: with the bound on its steps or any higher one it does the same, and what is done instead when the
steps are used up, when a reference is expanded inside itself, or when more references are being expanded
than there are different ones in the document and the schema, is never done. -/
theorem Reached.shapeOf_watched {p : Progress ν} (h : Reached namer document p) (context : String)
    (schema : Value) (instead : Deeper ν) {steps : Nat} (hsteps : bound document schema ≤ steps) :
    (watched (overgrown (distinctReferences document schema).length) instead namer steps context
      schema).runFrom p = (shapeOf namer context schema).runFrom p := by
  have hmatches := shapeOf_watched_matches namer instead
    (fun refs hrefs => overgrown_eq_false hrefs) context hsteps
  obtain ⟨x, y, t, t', hrun, hrun', hnode, ht⟩ | ⟨fault, t, t', hrun, hrun', -, ht⟩ :=
    hmatches.run h.together
  · rw [hrun, hrun', ht.renamed, hnode.1, Progress.rename_id, Shape.rename_id]
  · rw [hrun, hrun', ht.renamed, Progress.rename_id]

/-- A document in which two references lead to each other. -/
def twins : Value :=
  .mapping 0 [(.text "a", .mapping 1 [(.text "$ref", .text "#/b")]),
    (.text "b", .mapping 2 [(.text "$ref", .text "#/a")])]

/-- A schema that leads into the loop. -/
def intoTwins : Value := .mapping 3 [(.text "items", .mapping 4 [(.text "$ref", .text "#/a")])]

/-- Each reference is its own name. -/
def ownName : Namer Unit := fun ref => pure ref

theorem shapeOf_watched_twins :
    Reached ownName twins (Progress.start () twins) ∧ bound twins intoTwins ≤ 20 ∧
      (watched (overgrown (distinctReferences twins intoTwins).length)
          (fun _ _ => throw (.defect .outOfSteps)) ownName 20 "" intoTwins).runFrom
          (Progress.start () twins) =
        (shapeOf ownName "" intoTwins).runFrom (Progress.start () twins) :=
  ⟨.start (), by decide, (Reached.start ()).shapeOf_watched "" intoTwins _ (by decide)⟩

/-- With a lower limit the alarm is raised: the two references are expanded one inside the other. -/
example : ((watched (overgrown 1) (fun _ _ => throw (.defect .outOfSteps)) ownName 20 ""
    intoTwins).runFrom (Progress.start () twins)).1 = .error (.defect .outOfSteps) := by
  rfl

end Canon

end RouteStubs
