import RouteStubs.Proofs.Schema.Course
import RouteStubs.Proofs.Schema.Throughout

/-!
# What walks keep, also when they fail

A walk that fails leaves the definitions that it has finished, and later walks go on from them. Whether
it fails or not, it only adds definitions at the end, the chain is as it was before, and what is on the
chain is not finished. And what the rules make sure of in every shape holds throughout the shapes that
walks find, and throughout all definitions.

## Main definitions

* `Shape.Lasting P`: the rules make shapes of which the property holds, by the definitions at the time,
  and more definitions leave it so.
* `Naming.Steady`: what holds of the state at any time.
* `Naming.Onward`: a state is reached from another one, by a walk that may have failed.
* `Naming.Advances`, `Naming.advancing`: a step leads onward and has this outcome, as a logic of walks.

## Main statements

* `Naming.shape_advances`, `Naming.shapeOf_advances`: walks through schemas.
-/

namespace RouteStubs

/-! ### Properties of shapes -/

namespace Shape

/-- The property holds of the shapes that the rules make, as long as it holds of the shapes that they
make them from, and more definitions leave it so. Only unions are asked about. -/
structure Lasting (P : Definitions → Shape → Prop) : Prop where
  mono : ∀ {definitions definitions' : Definitions} {node : Shape},
    definitions <+: definitions' → P definitions node → P definitions' node
  plain : ∀ {definitions : Definitions} {node : Shape},
    (∀ variants discriminator, node ≠ .union variants discriminator) → P definitions node
  /-- The union of alternatives. -/
  found : ∀ (definitions : Definitions) (variants : List Shape) (explicit : Value),
    P definitions (.union variants (discriminator? definitions variants explicit))
  /-- The union of types, and that of a shape with null. -/
  untold : ∀ (definitions : Definitions) (variants : List Shape),
    P definitions (.union variants none)
  /-- A union with null added. -/
  orNull : ∀ {definitions : Definitions} {variants : List Shape} {discriminator : Option String},
    P definitions (.union variants discriminator) →
      P definitions (.union (variants ++ [nullShape]) discriminator)

variable {P : Definitions → Shape → Prop} {definitions definitions' : Definitions}
  {node : Shape} {nodes : List Shape}

theorem Lasting.throughout_mono (hP : Lasting P) (hd : definitions <+: definitions')
    (h : node.Throughout (P definitions)) : node.Throughout (P definitions') :=
  h.imp fun _ => hP.mono hd

/-- The rules make nothing else, if what is said of a union of alternatives is that it has the
property. -/
theorem Lasting.ruleClosed (hP : Lasting P) (definitions : Definitions)
    (points : String → String → Prop) (sub : Value → Shape → Prop) :
    Canon.RuleClosed (fun _ _ variants discriminator => P definitions (.union variants discriminator))
      points definitions sub (fun _ => True) (P definitions) where
  basic node hbasic := by
    apply hP.plain
    rintro _ _ rfl
    cases hbasic
  record _ _ := hP.plain nofun
  union _ h := h
  untold _ := hP.untold _ _
  orNull := hP.orNull
  values {_ _ listed} _ _ := by
    rcases Canon.enumeration_cases listed with he | ⟨_, he⟩ <;> rw [he] <;> exact hP.plain nofun
  handle _ := hP.plain nofun
  parts _ _ _ := trivial

theorem Lasting.throughout_handle (hP : Lasting P) (name : String) :
    (Shape.handle name).Throughout (P definitions) :=
  throughout_of_isLeaf trivial (hP.plain nofun)

end Shape

namespace Naming

open Canon Shape

variable {ν α β : Type} {namer : Namer ν}

/-! ### States and steps -/

/-- What holds of the state of the walk at any time: what is on the chain has a name and is not
finished, and the property holds throughout the definitions. -/
structure Steady (N : Naming namer) (P : Definitions → Shape → Prop) (p : Progress ν) : Prop where
  valid : N.Valid p.names
  pending : ∀ ref ∈ p.resolver.chain, ∃ r name, ref = .text r ∧
    N.current p.names r = some name ∧ p.definitions.find? name = none
  defined : ∀ name node, p.definitions.find? name = some node →
    node.Throughout (P p.definitions)

/-- The second state is reached from the first, by steps of which the last may have failed. -/
structure Onward (N : Naming namer) (P : Definitions → Shape → Prop) (p p' : Progress ν) : Prop where
  extends_ : N.Extends p p'
  steady : N.Steady P p'

variable {N : Naming namer} {P : Definitions → Shape → Prop} {p p' p'' : Progress ν}
  {step : Step (Progress ν) α} {Q : α → Progress ν → Prop} {R : β → Progress ν → Prop}

theorem Onward.refl (h : N.Steady P p) : N.Onward P p p := ⟨.refl p, h⟩

theorem Onward.trans (h : N.Onward P p p') (h' : N.Onward P p' p'') : N.Onward P p p'' :=
  ⟨h.extends_.trans h'.extends_, h'.steady⟩

theorem Onward.definitions (h : N.Onward P p p') : p.definitions <+: p'.definitions :=
  h.extends_.definitions

/-- Names may be added, and what else is no definition. -/
theorem Steady.onward (h : N.Steady P p) (he : N.Extends p p')
    (hd : p'.definitions = p.definitions) : N.Onward P p p' where
  extends_ := he
  steady :=
    { valid := N.valid h.valid he.names
      pending := AllPending.of_extends h.pending he hd
      defined := hd ▸ h.defined }

section Chain

variable {chain : List Value} {name ref : String} {node : Shape}

/-- The innermost reference on the chain is given up. -/
theorem Steady.leave (h : N.Steady P p) : N.Steady P { p with resolver := p.resolver.leave } where
  valid := h.valid
  pending := fun ref hr => h.pending ref (List.dropLast_subset _ hr)
  defined := h.defined

theorem Steady.find?_eq_none (h : N.Steady P p) (hc : p.resolver.chain = chain ++ [.text ref])
    (hn : N.current p.names ref = some name) : p.definitions.find? name = none :=
  AllPending.find?_eq_none h.pending hc hn

/-- The innermost reference on the chain is finished. -/
theorem Steady.finish (hP : Lasting P) (h : N.Steady P p)
    (hc : p.resolver.chain = chain ++ [.text ref]) (hnew : Value.text ref ∉ chain)
    (hn : N.current p.names ref = some name) (hnode : node.Throughout (P p.definitions)) :
    N.Steady P (finished p name node) := by
  have hnone := h.find?_eq_none hc hn
  have hd := definitions_finished hnone node
  have hgrows : p.definitions <+: (finished p name node).definitions :=
    hd ▸ List.prefix_append _ _
  refine ⟨h.valid, AllPending.finish h.pending h.valid hc hnew hn, fun name' node' hn' => ?_⟩
  apply hP.throughout_mono hgrows
  by_cases hname : name' = name
  · rw [hd, hname, Definitions.find?_concat_self hnone] at hn'
    exact Option.some.inj hn' ▸ hnode
  · rw [hd, Definitions.find?_concat_of_ne hname] at hn'
    exact h.defined name' node' hn'

end Chain

variable (N P) in
/-- The step leads onward from the state, whether it fails or not, and if it does not it has this
outcome. -/
def Advances (p : Progress ν) (step : Step (Progress ν) α) (Q : α → Progress ν → Prop) : Prop :=
  N.Steady P p →
    step.Ends p (fun a p' => N.Onward P p p' ∧ Q a p') fun _ p' => N.Onward P p p'

theorem advances_pure {a : α} (h : Q a p) : N.Advances P p (pure a) Q := fun hs =>
  ⟨.refl hs, h⟩

theorem advances_throw (fault : Fault) : N.Advances P p (throw fault) Q := fun hs => .refl hs

theorem Advances.bind {next : α → Step (Progress ν) β} (h : N.Advances P p step Q)
    (hn : ∀ a p', p.definitions <+: p'.definitions → Q a p' → N.Advances P p' (next a) R) :
    N.Advances P p (step >>= next) R := by
  intro hs
  rw [Step.ends_bind]
  apply (h hs).imp_ok
  rintro a p' ⟨honward, hq⟩
  refine (hn a p' honward.definitions hq honward.steady).imp ?_ fun _ _ h' => honward.trans h'
  rintro b p'' ⟨honward', hr⟩
  exact ⟨honward.trans honward', hr⟩

/-- A weaker outcome, which may go by what holds of the state at any time. -/
theorem Advances.imp {Q' : α → Progress ν → Prop} (h : N.Advances P p step Q)
    (hn : ∀ a p', N.Steady P p' → Q a p' → Q' a p') : N.Advances P p step Q' := by
  intro hs
  apply (h hs).imp_ok
  rintro a p' ⟨honward, hq⟩
  exact ⟨honward, hn a p' honward.steady hq⟩

/-- A step that looks at the state first. -/
theorem advances_get {next : Progress ν → Step (Progress ν) α}
    (h : N.Steady P p → N.Advances P p (next p) Q) : N.Advances P p (get >>= next) Q :=
  fun hs => h hs hs

variable (N P) in
/-- Leading onward is a logic of walks. It says nothing of a second walk. -/
def advancing : WalkLogic ν where
  Leads p p' := p.definitions <+: p'.definitions
  Beside p t := t = p
  Goes p step _ Q := N.Advances P p step Q
  trans := List.IsPrefix.trans
  isPrefix h := h
  rests := advances_pure
  refuses _ := advances_throw _
  continues := Advances.bind
  looks h _ := advances_get fun _ => h

/-! ### What is found -/

/-- The shape that a step finds has the property throughout. -/
def HasThroughout (P : Definitions → Shape → Prop) (node : Shape) (p : Progress ν) : Prop :=
  node.Throughout (P p.definitions)

variable (N P) in
/-- Walks through the schemas inside lead onward, and the property holds throughout what they find. -/
def AdvancesAll (deeper : Deeper ν) : Prop :=
  ∀ context v p, N.Advances P p (deeper context v) (HasThroughout P)

variable {deeper : Deeper ν} {context : String} {entries : Entries}

theorem tracks_hasThroughout (hP : Lasting P) :
    (advancing N P).Tracks fun p _ node => HasThroughout P node p where
  lasts hl _ _ h := hP.throughout_mono hl h
  seen := by
    rintro p _ v node rfl _
    rfl

/-- A union is put aside or not; either way its discriminator is looked for among the definitions
that are finished. -/
theorem unionOf_advances (hP : Lasting P) (variants : List Shape) (explicit : Value)
    (p : Progress ν) :
    N.Advances P p (unionOf variants explicit) fun node p' => ∃ discriminator,
      node = .union variants discriminator ∧ P p'.definitions (.union variants discriminator) := by
  refine advances_get fun hs => ?_
  dsimp only
  split
  · split
    · exact advances_throw _
    · intro _
      -- only what is put aside changes
      obtain ⟨deferred, hdefer⟩ := Course.exists_deferred variants explicit p
      simp only [Step.ends_bind, Step.ends_modify, Step.ends_pure, hdefer]
      exact ⟨hs.onward ⟨N.refl _, rfl, rfl, List.prefix_refl _⟩ rfl, _, rfl, hP.found _ _ _⟩
  · exact advances_pure ⟨_, rfl, hP.found _ _ _⟩

/-! ### References -/

theorem resolve_advances (ref : Value) (p : Progress ν) :
    N.Advances P p (Progress.onResolver (Resolver.resolve ref))
      fun resolved p' => ∃ s, ref = .text s ∧
        (resolved.cyclic = false → Value.text s ∉ p'.resolver.chain) := by
  intro hs
  simp only [Progress.onResolver, Resolver.resolve, Step.ends_within, Step.ends_bind]
  have honward : ∀ r : Resolver, r.document = p.resolver.document → r.chain = p.resolver.chain →
      N.Onward P p { p with resolver := r } := fun r hdocument hchain =>
    hs.onward ⟨N.refl _, hdocument, hchain, List.prefix_refl _⟩ rfl
  refine (Resolver.lookup_keeps p.resolver ref).imp ?_ fun fault r h => honward r h.1 h.2
  rintro v r ⟨⟨s, rfl⟩, hdocument, hchain⟩
  refine ⟨honward r hdocument hchain, s, rfl, fun hcyclic hm => ?_⟩
  rw [List.any_eq_false] at hcyclic
  exact hcyclic _ hm (by simp [Value.same, Scalar.same])

/-- The target of a reference is walked while the reference is on the chain. If that fails, then the
reference is taken off the chain and is not defined. -/
theorem reference_advances (hP : Lasting P) (hd : N.AdvancesAll P deeper) (ref : Value)
    (p : Progress ν) : N.Advances P p (reference namer deeper ref) (HasThroughout P) := by
  refine (resolve_advances ref p).bind fun resolved p₁ _ hresolved => ?_
  obtain ⟨s, rfl, hcyclic⟩ := hresolved
  intro hs₁
  simp only [Step.ends_bind, Progress.onNames, Step.ends_within, Step.ends_get]
  refine (N.ends p₁.names s).imp ?_ fun fault names h =>
    hs₁.onward ⟨h.1, rfl, rfl, List.prefix_refl _⟩ rfl
  rintro name names ⟨hlater, hname⟩
  have honward₂ : N.Onward P p₁ { p₁ with names := names } :=
    hs₁.onward ⟨hlater, rfl, rfl, List.prefix_refl _⟩ rfl
  have hs₂ := honward₂.steady
  split
  · exact ⟨honward₂, hP.throughout_handle _⟩
  · next hnew =>
    rw [Bool.or_eq_true, not_or, Option.not_isSome_iff_eq_none, Bool.not_eq_true] at hnew
    obtain ⟨hnone, hout⟩ := hnew
    have hentered : N.Steady P (entered p₁ names s) :=
      ⟨hs₂.valid, AllPending.enter hs₂.pending hname hnone, hs₂.defined⟩
    simp only [Progress.visiting, Step.ends_bind, Step.ends_between, Step.ends_modify, Step.ends_pure]
    refine (hd name resolved.node (entered p₁ names s) hentered).imp ?_ ?_
    · rintro node p₃ ⟨h₃, hnode⟩
      have hc₃ : p₃.resolver.chain = p₁.resolver.chain ++ [.text s] := h₃.extends_.chain_eq
      have hname₃ := N.current_later h₃.extends_.names hname
      have hd₄ := definitions_finished (h₃.steady.find?_eq_none hc₃ hname₃) node
      refine ⟨⟨⟨N.trans hlater h₃.extends_.names, h₃.extends_.document_eq, ?_, ?_⟩,
        h₃.steady.finish hP hc₃ (hcyclic hout) hname₃ hnode⟩, hP.throughout_handle _⟩
      · simp [Progress.define, Resolver.leave, hc₃]
      · exact hd₄ ▸ h₃.definitions.trans (List.prefix_append _ _)
    · intro fault p₃ h₃
      have hc₃ : p₃.resolver.chain = p₁.resolver.chain ++ [.text s] := h₃.extends_.chain_eq
      refine ⟨⟨N.trans hlater h₃.extends_.names, h₃.extends_.document_eq, ?_, h₃.definitions⟩,
        h₃.steady.leave⟩
      simp [Resolver.leave, hc₃]

/-! ### Schemas -/

theorem ofEntries_advances (hP : Lasting P) (hd : N.AdvancesAll P deeper) {origin : Nat}
    (p : Progress ν) :
    N.Advances P p (ofEntries namer deeper context origin entries) (HasThroughout P) := by
  by_cases hr : ∃ ref, ruleOf entries = .reference ref
  · obtain ⟨ref, hr⟩ := hr
    rw [ofEntries_eq, hr]
    exact reference_advances hP hd ref p
  · have hentries : (advancing N P).Goes p (ofEntries namer deeper context origin entries)
        (ofEntries namer deeper context origin entries) fun node p' =>
        TiedEntries (fun _ _ variants discriminator =>
          P p'.definitions (.union variants discriminator)) (N.Points p') p'.definitions
          (fun _ node => HasThroughout P node p') origin entries node :=
      WalkLogic.ofEntries_goes
        (tracks_hasThroughout hP) (not_exists.mp hr) (fun v _ context p => hd context v p)
        (fun _ _ _ _ _ _ _ fault _ => advances_throw fault)
        (fun _ _ _ _ _ hseveral => (unionOf_advances hP _ _ _).imp fun _ _ _ h =>
          (tiedUnion_iff_of_several hseveral).mpr h) p
    exact hentries.imp fun node p' hs h =>
      h.throughout (hP.ruleClosed _ _ _) hs.defined trivial fun _ _ _ => id

theorem shape_advances (hP : Lasting P) (steps : Nat) : N.AdvancesAll P (shape namer steps) := by
  induction steps with
  | zero => exact fun _ _ _ => advances_throw _
  | succ steps ih =>
    intro context v p
    cases v with
    | mapping origin entries =>
      refine (ofEntries_advances hP ih p).bind fun plain p₁ _ hplain => ?_
      split
      · exact advances_pure
          ((hP.ruleClosed _ (N.Points p₁) fun _ _ => True).throughout_orNull hplain)
      · exact advances_pure hplain
    | _ =>
      exact advances_pure ((hP.ruleClosed _ (N.Points p) fun _ _ => True).throughout_unknown)

/-- A walk through a schema leads onward, and the property holds throughout what it finds. -/
theorem shapeOf_advances (hP : Lasting P) (context : String) (schema : Value) (p : Progress ν) :
    N.Advances P p (shapeOf namer context schema) (HasThroughout P) :=
  advances_get fun _ => shape_advances hP _ context schema p

end Naming

end RouteStubs
