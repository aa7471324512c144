import RouteStubs.Proofs.Registry
import RouteStubs.Proofs.Resolver
import RouteStubs.Proofs.Schema.References

/-!
# The state of the walk

What holds of the state of the walk through schemas between any two of its steps: each finished
definition is what the target of its reference reads as, by means of the definitions before it and
of handles to references that are finished or on the chain; and what is on the chain has a name and
is not finished.

## Main definitions

* `Naming.Points`: the reference that a handle stands for.
* `Naming.Pending`, `Naming.AllPending`: a reference that has been met and is not finished, and that all
  on the chain are such.
* `Naming.Walked`: the invariant of the walk.
* `Naming.Extends`: what a walk only adds to.
* `Naming.Stuck`: how a walk ends that is refused because of a loop.
* `Canon.Surrounds`: all references on the chain lead to the schema at hand.

## Main statements

* `Naming.Walked.enter`, `Naming.Walked.define`: a reference goes on the chain and is finished.
* `Canon.looped_of_dereference_eq_none`: a member leads nowhere only in a loop.
-/

namespace RouteStubs

variable {ν : Type} {namer : Namer ν}

namespace Naming

variable (N : Naming namer) (document : Value) {p p' p'' : Progress ν} {name ref : String}

/-- The name stands for the reference, which is finished or on the chain under this name. -/
def Points (p : Progress ν) (name ref : String) : Prop :=
  N.stands p.names name = some ref ∧
    ((p.definitions.find? name).isSome ∨
      (Value.text ref ∈ p.resolver.chain ∧ N.current p.names ref = some name))

/-- The reference has a name that is not finished. -/
def Pending (p : Progress ν) (ref : String) : Prop :=
  ∃ name, N.current p.names ref = some name ∧ p.definitions.find? name = none

/-- The invariant of the walk through the document. -/
structure Walked (p : Progress ν) : Prop where
  valid : N.Valid p.names
  recalls : p.resolver.Recalls document
  pending : ∀ ref ∈ p.resolver.chain, ∃ r name, ref = .text r ∧
    N.current p.names r = some name ∧ p.definitions.find? name = none
  read : ∀ earlier name node later, p.definitions = earlier ++ (name, node) :: later →
    ∃ ref found depth, N.stands p.names name = some ref ∧
      Resolver.target document ref = .ok found ∧ Canon.Reads (N.Points p) earlier depth found node
  nodup : (p.definitions.map Prod.fst).Nodup

/-- The second state of the walk is reached from the first: names and definitions are added, and the
chain is as it was. -/
structure Extends (p p' : Progress ν) : Prop where
  names : N.Later p.names p'.names
  document_eq : p'.resolver.document = p.resolver.document
  chain_eq : p'.resolver.chain = p.resolver.chain
  definitions : p.definitions <+: p'.definitions

variable {N document}

theorem Extends.refl (p : Progress ν) : N.Extends p p :=
  ⟨N.refl _, rfl, rfl, List.prefix_refl _⟩

theorem Extends.trans (h : N.Extends p p') (h' : N.Extends p' p'') : N.Extends p p'' :=
  ⟨N.trans h.names h'.names, h'.document_eq.trans h.document_eq, h'.chain_eq.trans h.chain_eq,
    h.definitions.trans h'.definitions⟩

/-- The walk from the first state was given up in the second, in a loop from the root that ends at
what is not finished. -/
structure Stuck (N : Naming namer) (document root : Value) (p p' : Progress ν) : Prop where
  names : N.Later p.names p'.names
  looped : Canon.LoopedAt (N.Pending p') document root

theorem Stuck.of_later {root : Value} (h : N.Stuck document root p' p'')
    (hn : N.Later p.names p'.names) : N.Stuck document root p p'' :=
  ⟨N.trans hn h.names, h.looped⟩

theorem Points.unique {ref' : String} (h : N.Points p name ref) (h' : N.Points p name ref') :
    ref = ref' :=
  Option.some.inj (h.1.symm.trans h'.1)

theorem isSome_find?_mono {definitions definitions' : Definitions}
    (hd : definitions <+: definitions') (h : (definitions.find? name).isSome) :
    (definitions'.find? name).isSome := by
  obtain ⟨node, hn⟩ := Option.isSome_iff_exists.mp h
  exact Option.isSome_iff_exists.mpr ⟨node, Definitions.find?_mono hd hn⟩

theorem Points.of_extends (he : N.Extends p p') (h : N.Points p name ref) :
    N.Points p' name ref := by
  refine ⟨N.stands_later he.names h.1, h.2.imp (isSome_find?_mono he.definitions) ?_⟩
  rintro ⟨hc, hn⟩
  exact ⟨he.chain_eq ▸ hc, N.current_later he.names hn⟩

/-- A reference whose name is finished, or that is on the chain, is what its name stands for. -/
theorem Walked.points (h : N.Walked document p) (hn : N.current p.names ref = some name)
    (hd : (p.definitions.find? name).isSome ∨ Value.text ref ∈ p.resolver.chain) :
    N.Points p name ref :=
  ⟨N.stands_of_current h.valid hn, hd.imp id fun hc => ⟨hc, hn⟩⟩

/-- A definition is what the target of its reference reads as, by means of those before it. -/
theorem Walked.reads_definition (h : N.Walked document p) {node : Shape}
    (hs : N.stands p.names name = some ref) (hn : p.definitions.find? name = some node) :
    ∃ earlier later found depth, p.definitions = earlier ++ (name, node) :: later ∧
      Resolver.target document ref = .ok found ∧
        Canon.Reads (N.Points p) earlier depth found node := by
  obtain ⟨earlier, later, hsplit⟩ := Definitions.exists_split hn
  obtain ⟨ref', found, depth, hs', ht, hr⟩ := h.read _ _ _ _ hsplit
  cases hs.symm.trans hs'
  exact ⟨earlier, later, found, depth, hsplit, ht, hr⟩

/-- Between walks each name is defined as what the target of its reference reads as. -/
theorem Walked.exists_read (h : N.Walked document p) (hc : p.resolver.chain = [])
    (hp : N.Points p name ref) : ∃ node found depth, p.definitions.find? name = some node ∧
      Resolver.target document ref = .ok found ∧
        Canon.Reads (N.Points p) p.definitions depth found node := by
  obtain ⟨node, hn⟩ : ∃ node, p.definitions.find? name = some node := by
    rcases hp.2 with hdone | ⟨hchain, -⟩
    · exact Option.isSome_iff_exists.mp hdone
    · rw [hc] at hchain
      cases hchain
  obtain ⟨earlier, later, found, depth, hsplit, ht, hr⟩ := h.reads_definition hp.1 hn
  exact ⟨node, found, depth, hn, ht,
    hr.mono (fun _ _ h => h) (hsplit ▸ List.prefix_append _ _)⟩

theorem walked_start {names : ν} (valid : N.Valid names) :
    N.Walked document (Progress.start names document) where
  valid := valid
  recalls := ⟨rfl, fun _ _ h => by cases h⟩
  pending := fun _ h => by cases h
  read := fun earlier _ _ _ h => by cases earlier <;> cases h
  nodup := .nil

/-! ### Changes that the invariant stands -/

/-- All that is on the chain has a name and is not finished. -/
def AllPending (N : Naming namer) (p : Progress ν) : Prop :=
  ∀ ref ∈ p.resolver.chain, ∃ r name, ref = .text r ∧
    N.current p.names r = some name ∧ p.definitions.find? name = none

theorem AllPending.of_extends (h : N.AllPending p) (he : N.Extends p p')
    (hd : p'.definitions = p.definitions) : N.AllPending p' := by
  intro ref hr
  rw [he.chain_eq] at hr
  obtain ⟨r, name, hrr, hn, hnone⟩ := h ref hr
  exact ⟨r, name, hrr, N.current_later he.names hn, hd ▸ hnone⟩

theorem AllPending.enter (h : N.AllPending p) (hn : N.current p.names ref = some name)
    (hnone : p.definitions.find? name = none) :
    N.AllPending { p with resolver := p.resolver.enter (.text ref) } := by
  intro ref' hr
  rcases List.mem_append.mp hr with hr | hr
  · exact h ref' hr
  · exact ⟨ref, name, List.mem_singleton.mp hr, hn, hnone⟩

/-- Names may be added, and what the resolver has found. -/
theorem Walked.of_extends (h : N.Walked document p) (he : N.Extends p p')
    (hd : p'.definitions = p.definitions)
    (hr : p'.resolver.Recalls document) : N.Walked document p' where
  valid := N.valid h.valid he.names
  recalls := hr
  pending := AllPending.of_extends h.pending he hd
  read earlier name node later hsplit := by
    obtain ⟨ref, found, depth, hs, ht, hr⟩ := h.read earlier name node later (hd ▸ hsplit)
    exact ⟨ref, found, depth, N.stands_later he.names hs, ht,
      hr.mono (fun _ _ => Points.of_extends he) (List.prefix_refl _)⟩
  nodup := hd ▸ h.nodup

/-- A reference that has a name and is not finished goes on the chain. -/
theorem Walked.enter (h : N.Walked document p) (hn : N.current p.names ref = some name)
    (hnone : p.definitions.find? name = none) :
    N.Walked document { p with resolver := p.resolver.enter (.text ref) } where
  valid := h.valid
  recalls := ⟨h.recalls.document_eq, h.recalls.found⟩
  pending := AllPending.enter h.pending hn hnone
  read earlier name' node later hsplit := by
    obtain ⟨ref', found, depth, hs, ht, hr⟩ := h.read earlier name' node later hsplit
    refine ⟨ref', found, depth, hs, ht, hr.mono (fun n r hp => ⟨hp.1, hp.2.imp id ?_⟩)
      (List.prefix_refl _)⟩
    exact fun hc => ⟨List.mem_append_left _ hc.1, hc.2⟩
  nodup := h.nodup

/-- The state after a reference, the innermost on the chain, is finished. -/
abbrev finished (p : Progress ν) (name : String) (node : Shape) : Progress ν :=
  Progress.define name node { p with resolver := p.resolver.leave }

section Define

variable {chain : List Value} {found : Value} {node : Shape} {depth : Nat}

theorem definitions_finished (hnone : p.definitions.find? name = none) (node : Shape) :
    (finished p name node).definitions = p.definitions ++ [(name, node)] :=
  Keyed.put_eq_append hnone node

theorem Points.of_finished (hc : p.resolver.chain = chain ++ [.text ref])
    (hn : N.current p.names ref = some name) (hnone : p.definitions.find? name = none)
    {name' ref' : String} (hp : N.Points p name' ref') :
    N.Points (finished p name node) name' ref' := by
  refine ⟨hp.1, ?_⟩
  have hd := definitions_finished hnone node
  rcases hp.2 with hs | ⟨hr, hn'⟩
  · exact .inl (isSome_find?_mono (hd ▸ List.prefix_append _ _) hs)
  · rw [hc, List.mem_append, List.mem_singleton] at hr
    rcases hr with hr | hr
    · refine .inr ⟨?_, hn'⟩
      simpa [Progress.define, Resolver.leave, hc] using hr
    · cases hr
      obtain rfl : name = name' := Option.some.inj (hn.symm.trans hn')
      exact .inl (by rw [hd, Definitions.find?_concat_self hnone]; rfl)

theorem chain_finished (hc : p.resolver.chain = chain ++ [.text ref]) (name : String) (node : Shape) :
    (finished p name node).resolver.chain = chain := by
  simp [Progress.define, Resolver.leave, hc]

/-- The innermost reference on the chain is not finished. -/
theorem AllPending.find?_eq_none (h : N.AllPending p) (hc : p.resolver.chain = chain ++ [.text ref])
    (hn : N.current p.names ref = some name) : p.definitions.find? name = none := by
  obtain ⟨r, name', hr, hn', hnone⟩ := h (.text ref) (by simp [hc])
  cases hr
  rwa [Option.some.inj (hn.symm.trans hn')]

/-- What stays on the chain has another name than what is finished. -/
theorem AllPending.finish (h : N.AllPending p) (valid : N.Valid p.names)
    (hc : p.resolver.chain = chain ++ [.text ref]) (hnew : Value.text ref ∉ chain)
    (hn : N.current p.names ref = some name) : N.AllPending (finished p name node) := by
  have hd := definitions_finished (h.find?_eq_none hc hn) node
  intro ref' hr'
  rw [chain_finished hc] at hr'
  obtain ⟨r', name', rfl, hn', hnone'⟩ := h ref' (by simp [hc, hr'])
  have hne : name' ≠ name := by
    rintro rfl
    have hs := (N.stands_of_current valid hn).symm.trans (N.stands_of_current valid hn')
    cases hs
    exact hnew hr'
  exact ⟨r', name', rfl, hn', by rw [hd, Definitions.find?_concat_of_ne hne, hnone']⟩

theorem Walked.find?_eq_none (h : N.Walked document p)
    (hc : p.resolver.chain = chain ++ [.text ref]) (hn : N.current p.names ref = some name) :
    p.definitions.find? name = none :=
  AllPending.find?_eq_none h.pending hc hn

/-- The innermost reference on the chain is finished with what its target reads as. -/
theorem Walked.define (h : N.Walked document p) (hc : p.resolver.chain = chain ++ [.text ref])
    (hnew : Value.text ref ∉ chain) (hn : N.current p.names ref = some name)
    (ht : Resolver.target document ref = .ok found)
    (hr : Canon.Reads (N.Points p) p.definitions depth found node) :
    N.Walked document (finished p name node) := by
  have hnone := h.find?_eq_none hc hn
  have hd := definitions_finished hnone node
  have hp : ∀ n r, N.Points p n r → N.Points (finished p name node) n r := fun _ _ =>
    Points.of_finished hc hn hnone
  refine ⟨h.valid, ⟨h.recalls.document_eq, h.recalls.found⟩,
    AllPending.finish h.pending h.valid hc hnew hn, ?_, ?_⟩
  · intro earlier name' node' later hsplit
    rw [hd] at hsplit
    -- the definition is the new one, or one of those before it
    rcases Keyed.split_concat hsplit with ⟨rfl, he⟩ | ⟨later', hsplit⟩
    · cases he
      exact ⟨ref, found, depth, N.stands_of_current h.valid hn, ht,
        hr.mono hp (List.prefix_refl _)⟩
    · obtain ⟨ref', found', depth', hs, ht', hr'⟩ := h.read _ _ _ _ hsplit
      exact ⟨ref', found', depth', hs, ht', hr'.mono hp (List.prefix_refl _)⟩
  · rw [hd, List.map_append, List.nodup_append]
    refine ⟨h.nodup, List.nodup_singleton _, fun a ha b hb hab => ?_⟩
    rw [List.map_singleton, List.mem_singleton] at hb
    rw [hab, hb] at ha
    exact Definitions.notMem_keys hnone ha

end Define

/-! ### Shapes that lead nowhere -/

/-- A name that is defined as a handle stands for a reference whose target is another name for what
the handle stands for. -/
theorem Walked.renames (h : N.Walked document p) {target : String} (hp : N.Points p name ref)
    (hl : p.definitions.Leads name target) :
    ∃ ref', N.Points p target ref' ∧ Canon.Renames document ref ref' := by
  obtain ⟨_, _, found, depth, -, ht, hr⟩ := h.reads_definition hp.1 hl
  obtain ⟨ref', hp', hi⟩ := hr.isRef fun _ _ => Points.unique
  exact ⟨ref', hp', found, ht, hi⟩

theorem Walked.renames_of_transGen (h : N.Walked document p) {target : String}
    (hp : N.Points p name ref) (hl : Relation.TransGen p.definitions.Leads name target) :
    ∃ ref', N.Points p target ref' ∧ Relation.TransGen (Canon.Renames document) ref ref' := by
  induction hl with
  | single hl =>
    obtain ⟨ref', hp', hr⟩ := h.renames hp hl
    exact ⟨ref', hp', .single hr⟩
  | tail _ hl ih =>
    obtain ⟨ref₁, hp₁, hr₁⟩ := ih
    obtain ⟨ref', hp', hr⟩ := h.renames hp₁ hl
    exact ⟨ref', hp', hr₁.tail hr⟩

theorem Walked.renames_of_reflTransGen (h : N.Walked document p) {target : String}
    (hp : N.Points p name ref) (hl : Relation.ReflTransGen p.definitions.Leads name target) :
    ∃ ref', N.Points p target ref' ∧ Relation.ReflTransGen (Canon.Renames document) ref ref' := by
  rcases Relation.reflTransGen_iff_eq_or_transGen.mp hl with rfl | hl
  · exact ⟨ref, hp, .refl⟩
  · obtain ⟨ref', hp', hr⟩ := h.renames_of_transGen hp hl
    exact ⟨ref', hp', hr.to_reflTransGen⟩

end Naming

namespace Canon

variable (document root : Value)

/-- The schema is met from the root and from each reference on the chain. -/
structure Surrounds (chain : List Value) (schema : Value) : Prop where
  visits : Visits document root schema
  target : ∀ ref, Value.text ref ∈ chain → ∃ found, Resolver.target document ref = .ok found ∧
    Visits document found schema

variable {document root}

theorem Surrounds.meets {chain : List Value} {schema inner : Value}
    (h : Surrounds document root chain schema) (hm : Meets document schema inner) :
    Surrounds document root chain inner where
  visits := h.visits.tail hm
  target ref hr := by
    obtain ⟨found, ht, hv⟩ := h.target ref hr
    exact ⟨found, ht, hv.tail hm⟩

theorem Surrounds.enter {chain : List Value} {ref : String} {found : Value}
    (h : Surrounds document root chain found) (ht : Resolver.target document ref = .ok found) :
    Surrounds document root (chain ++ [.text ref]) found where
  visits := h.visits
  target ref' hr := by
    rcases List.mem_append.mp hr with hr | hr
    · exact h.target ref' hr
    · cases List.mem_singleton.mp hr
      exact ⟨found, ht, .refl⟩

/-- A member of a composition leads nowhere only in a loop, which ends at what is not finished. -/
theorem looped_of_dereference_eq_none {N : Naming namer} {p : Progress ν}
    (h : N.Walked document p) {schema member : Value} {node : Shape} {depth : Nat}
    (hs : Surrounds document root p.resolver.chain schema) (hm : member ∈ mergedMembers schema)
    (hr : Reads (N.Points p) p.definitions depth member node)
    (hn : p.definitions.dereference node = none) : LoopedAt (N.Pending p) document root := by
  obtain ⟨name, last, rfl, hl, hend⟩ := Definitions.dereference_eq_none hn
  obtain ⟨ref, hp, hi⟩ := hr.isRef fun _ _ => Naming.Points.unique
  obtain ⟨ref', hp', hren⟩ := h.renames_of_reflTransGen hp hl
  refine ⟨schema, member, ref, ref', hs.visits, hm, hi, hren, hend.imp (fun hnone => ?_) ?_⟩
  · -- a handle stands for what is finished or on the chain, and this one is not finished
    rcases hp'.2 with hsome | ⟨hc, hcurrent⟩
    · simp [hnone] at hsome
    · exact ⟨⟨last, hcurrent, hnone⟩, hs.target ref' hc⟩
  · intro hcircle
    obtain ⟨ref'', hp'', hr''⟩ := h.renames_of_transGen hp' hcircle
    rwa [hp''.unique hp'] at hr''

end Canon

end RouteStubs
