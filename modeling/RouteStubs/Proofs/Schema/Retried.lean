import RouteStubs.Proofs.Schema.Companion
import RouteStubs.Proofs.Schema.Ending

/-!
# Walks that fail, and what comes after them

A walk through a schema leaves the chain as it was, whether it fails or not, and it keeps the
definitions. The ones that it adds are for references of which the walk has ended with a shape; a
reference that was in progress when it failed is not defined. A walk that does not fail returns no
handle to a name without a definition, and it leaves none behind.

A walk that fails takes the references that it was expanding off the chain, so afterwards the state
does not show them. A walk that leaves them there goes along with it, and when both have failed
these references are on the chain of the second one.

A walk that fails can leave handles to references that were in progress in the definitions that it
has finished. So when it is made again it meets what is defined already, where the first walk
expanded it, and goes on alike, as long as shapes lead where they did. That is so unless the first
walk has defined a name that an even earlier one has left behind: then what led nowhere may lead
somewhere now, and the walk that is made again may not fail.

## Main definitions

* `Canon.openly`, `Canon.openlyOf`: the walk that leaves the chain as it is when it fails.

## Main statements

* `Canon.openly_along`, `Canon.shape_keeps`: it goes along with the walk, and walks lead on.
* `Canon.retried_along`: the same walk again, from the definitions that the first one leaves.
* `Canon.Reached.shapeOf_disciplined`: walks between states.
* `Canon.not_shapeOf_fails_again`: a walk that does not fail again.
-/

namespace RouteStubs.Canon

open Naming Company

variable {f : String → String} {document : Value} {lost : String → Prop} {last : Definitions}
  {p q t : Progress Unit} {node : Shape} {name s : String} {found : Value}

/-! ### What is in progress when a walk fails -/

section Open

variable {deeper : Deeper Unit}

/-- What is done where a reference is expanded. If the target has no shape then the reference stays
on the chain. -/
def expandOpenly (deeper : Deeper Unit) (ref : Value) (target : String) (found : Value) :
    Step (Progress Unit) Shape := do
  modify fun p => { p with resolver := p.resolver.enter ref }
  let node ← deeper target found
  modify givenUp
  modify (Progress.define target node)
  return .handle target

/-- The walk that leaves the chain as it is when it fails. -/
def openly (f : String → String) : (steps : Nat) → Deeper Unit :=
  walkBy fun deeper => referenceBy f (expandOpenly deeper)

/-- The shape of a schema, found by the walk that leaves the chain as it is when it fails. -/
def openlyOf (f : String → String) (context : String) (schema : Value) :
    Step (Progress Unit) Shape := do
  openly f (bound (← get).resolver.document schema) context schema

theorem expandOpenly_runFrom (deeper : Deeper Unit) (s target : String) (found : Value)
    (p : Progress Unit) :
    (expandOpenly deeper (.text s) target found).runFrom p =
      match (deeper target found).runFrom (entered p p.names s) with
      | (.ok node, q) => (.ok (.handle target), finished q target node)
      | (.error fault, q) => (.error fault, q) := by
  simp only [expandOpenly, Step.runFrom_bind, Step.runFrom_modify]
  obtain ⟨outcome, q⟩ := (deeper target found).runFrom (entered p p.names s)
  cases outcome <;> rfl

/-- While neither walk has failed their states are the same. Afterwards the definitions are, and
what was in progress is on the second chain. -/
def haltedBeside (f : String → String) (document : Value) (lost : String → Prop)
    (last : Definitions) : Company f document lost last where
  Side p t := t = p
  Fallen p t := t.definitions = p.definitions ∧ Pending f t ∧
    p.resolver.chain <+: t.resolver.chain
  fails := by
    rintro _ p hk - rfl
    exact ⟨rfl, hk.pending, List.prefix_refl _⟩
  sees := by
    rintro _ p node - - rfl -
    rfl
  defers := by
    rintro _ p variants explicit rfl
    rfl

theorem attends_openly {steps : Nat}
    (hd : (haltedBeside f document lost last).AlongAll (shape (namedBy f) steps) deeper) :
    (haltedBeside f document lost last).Attends (shape (namedBy f) steps)
      (referenceBy f (expandOpenly deeper)) where
  refused := by
    rintro _ p ref fault hk - rfl hrefused
    exact ⟨p, referenceBy_refused hk.recalls hrefused, rfl, hk.pending, List.prefix_refl _⟩
  met := by
    rintro _ p s found hk - rfl htarget hm
    exact ⟨_, (referenceBy_run hk.recalls htarget).1 hm, rfl⟩
  done := by
    rintro _ p s found node q hk rfl htarget hm hrun hq hl hlast
    have hunder := hk.underway htarget hm
    obtain ⟨_, hrun', rfl⟩ := ((hd (f s) found _ hunder).of_ok hrun).2 _ rfl
      ((hq.prefix_finished hl).trans hlast)
    refine ⟨_, ?_, rfl⟩
    rw [(referenceBy_run hk.recalls htarget).2 hm, expandOpenly_runFrom, hrun']
  failed := by
    rintro _ p s found fault q hk rfl htarget hm hrun hpending hl hlast
    have hunder := hk.underway htarget hm
    obtain ⟨t, hrun', hdef, hpending', hc⟩ := ((hd (f s) found _ hunder).of_error hrun).2 _ rfl hlast
    refine ⟨t, ?_, hdef, hpending', (List.dropLast_prefix _).trans hc⟩
    rw [(referenceBy_run hk.recalls htarget).2 hm, expandOpenly_runFrom, hrun']

/-- The walk that leaves the chain as it is goes along with the walk. -/
theorem openly_along (hf : Function.Injective f) (steps : Nat) :
    (haltedBeside f document lost last).AlongAll (shape (namedBy f) steps) (openly f steps) :=
  walkBy_along hf (fun _ => attends_openly) steps

/-- Walks lead on, whether they fail or not. -/
theorem shape_keeps (hf : Function.Injective f) (steps : Nat) :
    KeepsAll f document lost (shape (namedBy f) steps) := by
  have halong : (haltedBeside f document lost []).AlongAll (shape (namedBy f) steps)
      (openly f steps) := openly_along hf steps
  exact fun context v p => (halong context v p).keeps

end Open

/-! ### The same walk again -/

/-- The state when the same walk is made again: all is defined that the first walk defines, the same
references are in progress, and neither they nor what was left behind is defined. -/
structure Resumes (f : String → String) (document : Value) (lost : String → Prop) (last : Definitions)
    (p t : Progress Unit) : Prop where
  definitions_eq : t.definitions = last
  chain_eq : t.resolver.chain = p.resolver.chain
  recalls : t.resolver.Recalls document
  pending : ∀ r, Value.text r ∈ p.resolver.chain → last.find? (f r) = none
  lost : ∀ name, lost name → last.find? name = none

/-- What is known and not defined is not defined at the end. -/
theorem Resumes.find?_eq_none (h : Resumes f document lost last p t) (hk : Knows f lost p name)
    (hnone : p.definitions.find? name = none) : last.find? name = none := by
  rcases hk with (hs | ⟨r, hr, rfl⟩) | hlost
  · rw [hnone] at hs
    cases hs
  · exact h.pending r hr
  · exact h.lost name hlost

/-- Handles that are known lead to handles that are known. -/
theorem Sustained.knows_of_leads (hk : Sustained f document lost p) {target : String}
    (h : Relation.ReflTransGen p.definitions.Leads name target) (hn : Knows f lost p name) :
    Knows f lost p target := by
  induction h with
  | refl => exact hn
  | tail _ hl _ => exact (hk.handles _ _ hl).self _ rfl

/-- In the definitions at the end shapes lead where they do now. -/
theorem Resumes.dereference_eq (h : Resumes f document lost last p t)
    (hk : Sustained f document lost p) (hlast : p.definitions <+: last)
    (hn : node.Handles (Knows f lost p)) :
    last.dereference node = p.definitions.dereference node := by
  cases hd : p.definitions.dereference node with
  | some found => exact Definitions.dereference_mono hlast hd
  | none =>
    obtain ⟨name, target, rfl, hl, hnone | hcircle⟩ := Definitions.dereference_eq_none hd
    · -- the last handle on the way is known, so it is not defined at the end either
      have hnone' := h.find?_eq_none (hk.knows_of_leads hl (hn.self _ rfl)) hnone
      by_contra hsome
      obtain ⟨found, hfound⟩ := Option.ne_none_iff_exists'.mp hsome
      have htarget := Definitions.dereference_of_reflTransGen
        (Definitions.Leads.reflTransGen_mono hlast hl) hfound
      obtain ⟨next, hnext, -⟩ := Definitions.exists_find?_of_dereference htarget
      rw [hnone'] at hnext
      cases hnext
    · exact Definitions.dereference_eq_none_of_circle
        (Definitions.Leads.reflTransGen_mono hlast hl)
        (Definitions.Leads.transGen_mono hlast hcircle)

/-- The two walks: the second one begins with the definitions at the end of the first. -/
def retriedBeside (f : String → String) (document : Value) (lost : String → Prop)
    (last : Definitions) : Company f document lost last where
  Side := Resumes f document lost last
  Fallen _ t := t.definitions = last
  fails := fun _ _ hs => hs.definitions_eq
  sees := fun hk hlast hs hn => hs.definitions_eq ▸ hs.dereference_eq hk hlast hn
  defers := by
    intro p t variants explicit hs
    obtain ⟨deferred, hp⟩ := Course.exists_deferred variants explicit p
    obtain ⟨deferred', ht⟩ := Course.exists_deferred variants explicit t
    rw [hp, ht]
    exact ⟨hs.definitions_eq, hs.chain_eq, hs.recalls, hs.pending, hs.lost⟩

/-- A reference is looked up in both walks. -/
theorem Resumes.looked (h : Resumes f document lost last p t) (hr : p.resolver.Recalls document)
    (htarget : Resolver.target document s = .ok found) :
    Resumes f document lost last (looked p (.text s)) (looked t (.text s)) where
  definitions_eq := h.definitions_eq
  chain_eq := by rw [(looked_eq hr htarget).1, (looked_eq h.recalls htarget).1, h.chain_eq]
  recalls := (looked_eq h.recalls htarget).2
  pending := by
    rw [(looked_eq hr htarget).1]
    exact h.pending
  lost := h.lost

/-- A reference is expanded in both walks. -/
theorem Resumes.enter (h : Resumes f document lost last p t) (hnone : last.find? (f s) = none) :
    Resumes f document lost last (entered p p.names s) (entered t t.names s) where
  definitions_eq := h.definitions_eq
  chain_eq := congrArg (· ++ [Value.text s]) h.chain_eq
  recalls := ⟨h.recalls.document_eq, h.recalls.found⟩
  pending := by
    intro r hr
    rcases List.mem_append.mp hr with hr | hr
    · exact h.pending r hr
    · obtain rfl : r = s := by simpa using hr
      exact hnone
  lost := h.lost

theorem attends_retried {steps : Nat}
    (hd : (retriedBeside f document lost last).AlongAll (shape (namedBy f) steps)
      (shape (namedBy f) steps)) :
    (retriedBeside f document lost last).Attends (shape (namedBy f) steps)
      (referenceBy f (expand (shape (namedBy f) steps))) where
  refused := by
    intro p t ref fault _ _ hs hrefused
    exact ⟨t, referenceBy_refused hs.recalls hrefused, hs.definitions_eq⟩
  met := by
    intro p t s found hk hlast hs htarget hm
    have hm' : Met f t s := by
      rw [Met, hs.definitions_eq, hs.chain_eq]
      exact hm.imp_left (isSome_find?_mono hlast)
    exact ⟨_, (referenceBy_run hs.recalls htarget).1 hm', hs.looked hk.recalls htarget⟩
  done := by
    intro p t s found node q hk hs htarget hm hrun hq hl hlast
    -- what the first walk expands is defined in the end
    have hdefined := find?_finished (hq.pending.find?_innermost hl) node
    have hm' : Met f t s := by
      refine .inl ?_
      rw [hs.definitions_eq]
      exact isSome_find?_mono hlast (Option.isSome_of_eq_some hdefined)
    have hside := hs.looked hk.recalls htarget
    have hleft : (finished q (f s) node).resolver.chain = (looked p (.text s)).resolver.chain :=
      chain_leave hl.chain_eq
    exact ⟨_, (referenceBy_run hs.recalls htarget).1 hm',
      ⟨hside.definitions_eq, hside.chain_eq.trans hleft.symm, hside.recalls,
        hleft ▸ hside.pending, hside.lost⟩⟩
  failed := by
    intro p t s found fault q hk hs htarget hm hrun hpending hl hlast
    -- what was in progress when the first walk failed is expanded again
    have hnone : last.find? (f s) = none := hlast ▸ hpending.find?_innermost hl
    have hm' : ¬ Met f t s := by
      rw [Met, hs.definitions_eq, hs.chain_eq, hnone]
      rintro (h | h)
      · cases h
      · exact hm (.inr h)
    have hunder := hk.underway htarget hm
    have hside := (hs.looked hk.recalls htarget).enter hnone
    obtain ⟨t', hrun', hdef⟩ := ((hd (f s) found _ hunder).of_error hrun).2 _ hside hlast
    refine ⟨givenUp t', ?_, hdef⟩
    rw [(referenceBy_run hs.recalls htarget).2 hm', expand_runFrom, hrun']

/-- The same walk goes along with the walk. -/
theorem retried_along (hf : Function.Injective f) (steps : Nat) :
    (retriedBeside f document lost last).AlongAll (shape (namedBy f) steps)
      (shape (namedBy f) steps) := by
  have halong : (retriedBeside f document lost last).AlongAll (shape (namedBy f) steps)
      (walkBy (reference (namedBy f)) steps) := by
    refine walkBy_along hf (fun steps hd => ?_) steps
    rw [walkBy_reference] at hd ⊢
    exact attends_retried hd
  rwa [walkBy_reference] at halong

/-! ### Walks between states -/

theorem shapeOf_runFrom (namer : Namer Unit) (context : String) (schema : Value) (p : Progress Unit) :
    (shapeOf namer context schema).runFrom p =
      (shape namer (bound p.resolver.document schema) context schema).runFrom p := by
  rw [shapeOf, Step.runFrom_bind, Step.runFrom_get]

theorem openlyOf_runFrom (f : String → String) (context : String) (schema : Value)
    (p : Progress Unit) :
    (openlyOf f context schema).runFrom p =
      (openly f (bound p.resolver.document schema) context schema).runFrom p := by
  rw [openlyOf, Step.runFrom_bind, Step.runFrom_get]

/-- Between walks no reference is in progress. The handles that lead nowhere are what has been left
behind. -/
theorem Reached.sustained (h : Reached (namedBy f) document p) :
    Sustained f document (Dangling p.definitions) p where
  recalls := h.together.recalls
  pending := by
    intro v hv
    rw [h.together.chain_eq] at hv
    cases hv
  handles := by
    intro key node hkey inner hin name heq
    cases hfind : p.definitions.find? name with
    | some _ => exact .inl (.inl (hfind ▸ rfl))
    | none => exact .inr ⟨hfind, key, node, hkey, heq ▸ hin⟩

/-- Where nothing is in progress, what is held is defined. -/
theorem Held.isSome (h : Held f p name) (hc : p.resolver.chain = []) :
    (p.definitions.find? name).isSome := by
  rcases h with h | ⟨r, hr, -⟩
  · exact h
  · rw [hc] at hr
    cases hr

/-- The discipline of a walk through a schema, from a state to the one after it. -/
structure Disciplined (f : String → String) (document : Value) (context : String) (schema : Value)
    (p : Progress Unit) (outcome : Except Fault Shape) (p' : Progress Unit) : Prop where
  /-- The chain is as it was before. -/
  chain_eq : p'.resolver.chain = p.resolver.chain
  /-- No definition is changed or taken away. -/
  stays : p.definitions <+: p'.definitions
  /-- Each new definition is for a reference of which the walk has ended with this shape. -/
  grown : Grown f document p.definitions p'.definitions
  /-- A handle that is returned has a definition. So have the handles in what is returned and in the
  definitions, but for what was left behind before. -/
  returned : ∀ node, outcome = .ok node →
    (∀ name, node = .handle name → (p'.definitions.find? name).isSome) ∧
      node.Handles (fun name =>
        (p'.definitions.find? name).isSome ∨ Dangling p.definitions name) ∧
      ∀ name, Dangling p'.definitions name → Dangling p.definitions name
  /-- What was in progress at the time of the failure is not defined: the walk that leaves it on the
  chain fails alike, and there it is. -/
  failed : ∀ fault, outcome = .error fault →
    ∃ q, (openlyOf f context schema).runFrom p = (.error fault, q) ∧
      q.definitions = p'.definitions ∧
      ∀ v ∈ q.resolver.chain, ∃ r, v = .text r ∧ p'.definitions.find? (f r) = none
  /-- The same walk fails again and adds nothing, unless the first one has defined a name that was
  left behind before. -/
  retried : ∀ fault, outcome = .error fault →
    (∀ name, Dangling p.definitions name → p'.definitions.find? name = none) →
    ∃ q, (shapeOf (namedBy f) context schema).runFrom p' = (.error fault, q) ∧
      q.definitions = p'.definitions

section Between

variable {context : String} {schema : Value} {p' : Progress Unit}

/-- Between walks nothing is in progress. -/
theorem Reached.chain_eq_nil (h : Reached (namedBy f) document p) : p.resolver.chain = [] :=
  h.together.chain_eq

theorem Reached.shapeOf_ends (hf : Function.Injective f) (h : Reached (namedBy f) document p)
    (context : String) (schema : Value) :
    (shapeOf (namedBy f) context schema).Ends p
      (fun node p' => Leads f document p p' ∧ Sustained f document (Dangling p.definitions) p' ∧
        Found f (Dangling p.definitions) node p')
      fun _ p' => Leads f document p p' ∧ Pending f p' := by
  unfold Step.Ends
  rw [shapeOf_runFrom]
  exact shape_keeps hf _ context schema p h.sustained

theorem Reached.shapeOf_leads (hf : Function.Injective f) (h : Reached (namedBy f) document p)
    (context : String) (schema : Value) :
    Leads f document p ((shapeOf (namedBy f) context schema).runFrom p).2 :=
  ((h.shapeOf_ends hf context schema).imp (fun _ _ h => h.1) fun _ _ h => h.1).state

/-- No new handle is left behind by a walk that has a result. -/
theorem Sustained.lost_of_dangling (hk : Sustained f document lost p) (hc : p.resolver.chain = [])
    (h : Dangling p.definitions name) : lost name := by
  obtain ⟨hnone, key, node, hkey, hin⟩ := h
  refine (hk.handles key node hkey _ hin name rfl).resolve_left fun hheld => ?_
  have hsome := hheld.isSome hc
  rw [hnone] at hsome
  cases hsome

theorem Reached.openlyOf_run (hf : Function.Injective f) (h : Reached (namedBy f) document p)
    {fault : Fault} (hrun : (shapeOf (namedBy f) context schema).runFrom p = (.error fault, p')) :
    ∃ q, (openlyOf f context schema).runFrom p = (.error fault, q) ∧
      q.definitions = p'.definitions ∧ Pending f q := by
  rw [shapeOf_runFrom] at hrun
  obtain ⟨q, hrun', hdef, hpending, -⟩ :=
    ((openly_along hf _ context schema p h.sustained).of_error hrun).2 p rfl rfl
  exact ⟨q, (openlyOf_runFrom f context schema p).trans hrun', hdef, hpending⟩

theorem Reached.shapeOf_again (hf : Function.Injective f) (h : Reached (namedBy f) document p)
    (h' : Reached (namedBy f) document p') {fault : Fault}
    (hrun : (shapeOf (namedBy f) context schema).runFrom p = (.error fault, p'))
    (hlost : ∀ name, Dangling p.definitions name → p'.definitions.find? name = none) :
    ∃ q, (shapeOf (namedBy f) context schema).runFrom p' = (.error fault, q) ∧
      q.definitions = p'.definitions := by
  have hresumes : Resumes f document (Dangling p.definitions) p'.definitions p p' :=
    { definitions_eq := rfl
      chain_eq := h'.chain_eq_nil.trans h.chain_eq_nil.symm
      recalls := h'.together.recalls
      pending := fun r hr => by
        rw [h.chain_eq_nil] at hr
        cases hr
      lost := hlost }
  -- the two walks have the same bound, as it depends on the document and on the schema
  have hdocument : p'.resolver.document = p.resolver.document :=
    h'.together.recalls.document_eq.trans h.together.recalls.document_eq.symm
  rw [shapeOf_runFrom] at hrun
  rw [shapeOf_runFrom, hdocument]
  exact ((retried_along hf _ context schema p h.sustained).of_error hrun).2 p' hresumes rfl

/-- Walks through schemas are disciplined, whatever has been walked before and has failed. -/
theorem Reached.shapeOf_disciplined (hf : Function.Injective f) (h : Reached (namedBy f) document p)
    (context : String) (schema : Value) :
    Disciplined f document context schema p ((shapeOf (namedBy f) context schema).runFrom p).1
      ((shapeOf (namedBy f) context schema).runFrom p).2 where
  chain_eq := (h.shapeOf_leads hf context schema).chain_eq
  stays := (h.shapeOf_leads hf context schema).isPrefix
  grown := (h.shapeOf_leads hf context schema).grown
  returned := by
    intro node hnode
    obtain ⟨-, hk, hfound⟩ := (h.shapeOf_ends hf context schema).of_ok (Prod.ext hnode rfl)
    have hc := (h.walked context schema).chain_eq_nil
    exact ⟨fun name heq => (hfound.2 name heq).isSome hc,
      hfound.1.imp fun name hknown => hknown.imp_left fun hheld => hheld.isSome hc,
      fun name hd => hk.lost_of_dangling hc hd⟩
  failed := by
    intro fault hfault
    obtain ⟨q, hrun, hdef, hpending⟩ := h.openlyOf_run hf (Prod.ext hfault rfl)
    exact ⟨q, hrun, hdef, fun v hv => hdef ▸ hpending v hv⟩
  retried := fun fault hfault hlost =>
    h.shapeOf_again hf (h.walked context schema) (Prod.ext hfault rfl) hlost

end Between

/-! ### A walk that does not fail again -/

/-- A record `X` with a composition `A` inside of which `X` is a member, and `B` which leads to `X`.
The composition is refused while `X` is in progress; then `B` is already a handle to it. -/
def torn : Value :=
  .mapping 0
    [(.text "X", .mapping 1 [(.text "type", .text "object"), (.text "properties", .mapping 2
        [(.text "kind", .mapping 3 [(.text "enum", .list [.text "x"])]),
          (.text "b", .mapping 4 [(.text "$ref", .text "#/B")]),
          (.text "a", .mapping 5 [(.text "$ref", .text "#/A")])])]),
      (.text "B", .mapping 6 [(.text "$ref", .text "#/X")]),
      (.text "A", .mapping 7 [(.text "allOf", .list
        [.mapping 8 [(.text "$ref", .text "#/X")],
          .mapping 9 [(.text "properties", .mapping 10
            [(.text "z", .mapping 11 [(.text "type", .text "string")])])]])]),
      (.text "C", .mapping 12 [(.text "type", .text "object"), (.text "properties", .mapping 13
        [(.text "kind", .mapping 14 [(.text "enum", .list [.text "c"])])])])]

/-- A schema that leads to `X`. -/
def intoTorn : Value := .mapping 15 [(.text "$ref", .text "#/X")]

/-- Either `B` or `C`, which have a tag once `X` is defined. -/
def tagged (origin : Nat) : Value :=
  .mapping origin [(.text "oneOf", .list [.mapping (origin + 1) [(.text "$ref", .text "#/B")],
    .mapping (origin + 2) [(.text "$ref", .text "#/C")]])]

/-- A composition in which a field is such a union twice, and `A` is in between. -/
def aroundTorn : Value :=
  .mapping 16 [(.text "allOf", .list
    [.mapping 17 [(.text "properties", .mapping 18
        [(.text "f", tagged 19), (.text "q", .mapping 22 [(.text "$ref", .text "#/A")])])],
      .mapping 23 [(.text "properties", .mapping 24 [(.text "f", tagged 25)])]])]

theorem shapeOf_disciplined_torn :
    Function.Injective (id : String → String) ∧
      Reached (namedBy id) torn (Progress.start () torn) ∧
      ((shapeOf (namedBy id) "" intoTorn).runFrom (Progress.start () torn)).1.isOk = false ∧
      Disciplined id torn "" intoTorn (Progress.start () torn)
        ((shapeOf (namedBy id) "" intoTorn).runFrom (Progress.start () torn)).1
        ((shapeOf (namedBy id) "" intoTorn).runFrom (Progress.start () torn)).2 :=
  ⟨Function.injective_id, .start (), by decide +kernel,
    (Reached.start ()).shapeOf_disciplined Function.injective_id "" intoTorn⟩

/-- The walk into `X` leaves `B` behind without it. In the walk around it the union has no tag at
first, and it has one when `A` has been found, so the two fields are not the same. When the walk is
made again they are. -/
theorem not_shapeOf_fails_again :
    ¬ ∀ (f : String → String) (document : Value) (p p' : Progress Unit) (context : String)
      (schema : Value) (fault : Fault), Function.Injective f → Reached (namedBy f) document p →
      (shapeOf (namedBy f) context schema).runFrom p = (.error fault, p') →
      ∃ fault' q, (shapeOf (namedBy f) context schema).runFrom p' = (.error fault', q) := by
  intro h
  have hreached : Reached (namedBy id) torn
      ((shapeOf (namedBy id) "" intoTorn).runFrom (Progress.start () torn)).2 :=
    .walked "" intoTorn (.start ())
  generalize hp : ((shapeOf (namedBy id) "" intoTorn).runFrom (Progress.start () torn)).2 = p
    at hreached
  cases hrun : (shapeOf (namedBy id) "" aroundTorn).runFrom p with
  | mk outcome p' =>
    cases outcome with
    | ok node =>
      have hfails : ((shapeOf (namedBy id) "" aroundTorn).runFrom
          ((shapeOf (namedBy id) "" intoTorn).runFrom (Progress.start () torn)).2).1.isOk =
            false := by
        decide +kernel
      rw [hp, hrun] at hfails
      cases hfails
    | error fault =>
      have hends : ((shapeOf (namedBy id) "" aroundTorn).runFrom
          ((shapeOf (namedBy id) "" aroundTorn).runFrom
            ((shapeOf (namedBy id) "" intoTorn).runFrom (Progress.start () torn)).2).2).1.isOk =
              true := by
        decide +kernel
      obtain ⟨fault', q, hagain⟩ :=
        h id torn p p' "" aroundTorn fault Function.injective_id hreached hrun
      rw [hp, hrun, hagain] at hends
      cases hends

end RouteStubs.Canon
