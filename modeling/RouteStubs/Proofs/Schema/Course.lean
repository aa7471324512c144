import RouteStubs.Proofs.Schema.Discriminator
import RouteStubs.Proofs.Schema.WalkLogic
import RouteStubs.Proofs.Schema.Walked

/-!
# Walks through schemas

The walk keeps the invariant, and the shape that it finds is what the schema reads as. A composition
that leads back to itself is refused only if the walk is stuck in a loop. This is a logic of walks, so
what is proved here is how references are followed and how unions are made, and the walk as a whole is
an induction on the bound.

What else is to be followed along walks is a course: something that holds of the states, something
that leads from each state to the later ones, and something that ties the unions to the alternatives
that they come from. A course says how it fares where references are followed and where unions are
made, and nowhere else.

## Main definitions

* `Naming.Course`: what is followed along walks.
* `Naming.Course.Steps`: a state is reached from another one on a course.
* `Naming.Course.Goes`: a step of the walk stays on a course and ends as it should.
* `Naming.Course.logic`: this as a logic of walks.
* `Naming.Course.bare`: the course on which nothing else is followed.

## Main statements

* `Naming.Course.reference_goes`, `Naming.Course.unionOf_goes`: the steps that look at the definitions.
* `Naming.Course.shape_goes`, `Naming.Course.shapeOf_ends`: the walk reads the schema.
* `Naming.shapeOf_ends`: so it does where nothing else is followed.
-/

namespace RouteStubs.Naming

open Canon Shape

variable {ν α β : Type} {namer : Namer ν}

/-- The state in which a reference has its name and goes on the chain. -/
abbrev entered (p : Progress ν) (names : ν) (ref : String) : Progress ν :=
  { p with names := names, resolver := p.resolver.enter (.text ref) }

/-- What is followed along walks through a document, beside the invariant. -/
structure Course (N : Naming namer) (document : Value) where
  /-- What holds of the states. -/
  Holds : Progress ν → Prop
  /-- What leads from a state to a later one. -/
  Leads : Progress ν → Progress ν → Prop
  /-- What ties the unions to the alternatives that they come from. -/
  Ties : Progress ν → Tie
  refl : ∀ p, Leads p p
  trans : ∀ {p p' p''}, N.Extends p p' → N.Extends p' p'' → Leads p p' → Leads p' p'' → Leads p p''
  /-- The resolver looks something up. -/
  looks : ∀ {p resolver}, resolver.chain = p.resolver.chain → Holds p →
    Leads p { p with resolver := resolver } ∧ Holds { p with resolver := resolver }
  /-- A reference has its name. -/
  named : ∀ {p names name ref}, (namer ref).runFrom p.names = (.ok name, names) → Holds p →
    Holds { p with names := names }
  /-- The reference is finished or on the chain. -/
  meets : ∀ {p names name ref}, (namer ref).runFrom p.names = (.ok name, names) →
    N.Points { p with names := names } name ref → Leads p { p with names := names }
  /-- The reference goes on the chain. -/
  enters : ∀ {p ref}, Holds p → Holds { p with resolver := p.resolver.enter (.text ref) }
  /-- A reference is finished. -/
  finishes : ∀ {p p' names name ref found node depth},
    (namer ref).runFrom p.names = (.ok name, names) →
    N.Extends (entered p names ref) p' → Leads (entered p names ref) p' →
    p'.definitions.find? name = none →
    (∀ {name' ref'}, N.Points p' name' ref' → N.Points (finished p' name node) name' ref') →
    N.Points (finished p' name node) name ref → Resolver.target document ref = .ok found →
    ReadsTied (Ties p') (N.Points p') p'.definitions depth found node → Holds p → Holds p' →
    Leads p (finished p' name node) ∧ Holds (finished p' name node)
  later : ∀ {p p' origin entries variants discriminator}, N.Extends p p' → Leads p p' →
    Ties p origin entries variants discriminator → Ties p' origin entries variants discriminator
  /-- The union of alternatives. -/
  finds : ∀ {p root origin entries members nodes depth},
    ruleOf entries = .alternatives (.list members) → N.Walked document p →
    Surrounds document root p.resolver.chain (.mapping origin entries) → Holds p →
    List.Forall₂ (Reads (N.Points p) p.definitions depth) members nodes →
    (∀ only, distinct nodes ≠ [only]) →
    (∀ v ∈ distinct nodes, (p.definitions.dereference v).isSome) →
    Ties p origin entries (distinct nodes)
      (discriminator? p.definitions (distinct nodes) (explicitDiscriminator entries))
  /-- The union of alternatives is put aside. -/
  defers : ∀ {p root origin entries members nodes depth},
    ruleOf entries = .alternatives (.list members) → N.Walked document p →
    Surrounds document root p.resolver.chain (.mapping origin entries) → Holds p →
    List.Forall₂ (Reads (N.Points p) p.definitions depth) members nodes →
    (∀ only, distinct nodes ≠ [only]) → areKeys (distinct nodes) = true →
    (∃ v ∈ distinct nodes, p.definitions.dereference v = none) →
    let p' := Progress.defer (distinct nodes) (explicitDiscriminator entries) p
    Leads p p' ∧ Holds p' ∧ Ties p' origin entries (distinct nodes) none

namespace Course

variable {N : Naming namer} {document : Value} (C : N.Course document) (root schema : Value)

/-- The second state is reached from the first. -/
structure Steps (p p' : Progress ν) : Prop where
  extends_ : N.Extends p p'
  leads : C.Leads p p'
  walked : N.Walked document p'
  holds : C.Holds p'

/-- A step of the walk at a schema stays on the course and has this outcome, or it is stuck in a loop
from the root if it is refused because of one. -/
def Goes (p : Progress ν) (step : Step (Progress ν) α) (Q : α → Progress ν → Prop) : Prop :=
  N.Walked document p → C.Holds p → Surrounds document root p.resolver.chain schema →
    step.Ends p (fun a p' => C.Steps p p' ∧ Q a p')
      fun fault p' => fault.isSelfReferring = true → N.Stuck document root p p'

variable {C root schema} {p p' p'' : Progress ν} {step : Step (Progress ν) α}
  {Q : α → Progress ν → Prop} {R : β → Progress ν → Prop}

theorem steps_refl (hw : N.Walked document p) (hh : C.Holds p) : C.Steps p p :=
  ⟨.refl p, C.refl p, hw, hh⟩

theorem Steps.trans (h : C.Steps p p') (h' : C.Steps p' p'') : C.Steps p p'' :=
  ⟨h.extends_.trans h'.extends_, C.trans h.extends_ h'.extends_ h.leads h'.leads, h'.walked,
    h'.holds⟩

theorem Steps.definitions (h : C.Steps p p') : p.definitions <+: p'.definitions :=
  h.extends_.definitions

/-! ### Ways of putting steps together -/

theorem goes_pure {a : α} (h : Q a p) : C.Goes root schema p (pure a) Q := fun hw hh _ =>
  ⟨steps_refl hw hh, h⟩

theorem goes_throw {fault : Fault}
    (h : fault.isSelfReferring = true → LoopedAt (N.Pending p) document root) :
    C.Goes root schema p (throw fault) Q := fun _ _ _ hs => ⟨N.refl _, h hs⟩

/-- A fault that is about something else than a loop. -/
theorem goes_refuse {fault : Fault} (h : fault.isSelfReferring = false) :
    C.Goes root schema p (throw fault) Q := by
  apply goes_throw
  intro hself
  rw [h] at hself
  cases hself

theorem Goes.bind {next : α → Step (Progress ν) β} (h : C.Goes root schema p step Q)
    (hn : ∀ a p', C.Steps p p' → Q a p' → C.Goes root schema p' (next a) R) :
    C.Goes root schema p (step >>= next) R := by
  intro hw hh hs
  rw [Step.ends_bind]
  apply (h hw hh hs).imp_ok
  rintro a p' ⟨hsteps, hq⟩
  refine (hn a p' hsteps hq hsteps.walked hsteps.holds (hsteps.extends_.chain_eq ▸ hs)).imp ?_
    fun _ _ hstuck hself => (hstuck hself).of_later hsteps.extends_.names
  rintro _ _ ⟨hsteps', hr⟩
  exact ⟨hsteps.trans hsteps', hr⟩

/-- A weaker outcome, which may go by what was found before. -/
theorem Goes.imp {Q' : α → Progress ν → Prop} (h : C.Goes root schema p step Q)
    (hn : ∀ a p', C.Steps p p' → Q a p' → Q' a p') : C.Goes root schema p step Q' := by
  intro hw hh hs
  apply (h hw hh hs).imp_ok
  rintro a p' ⟨hsteps, hq⟩
  exact ⟨hsteps, hn a p' hsteps hq⟩

/-- A step that looks at the state first. -/
theorem goes_get {next : Progress ν → Step (Progress ν) α}
    (h : N.Walked document p → C.Holds p → Surrounds document root p.resolver.chain schema →
      C.Goes root schema p (next p) Q) :
    C.Goes root schema p (get >>= next) Q := fun hw hh hs => h hw hh hs hw hh hs

/-- A step at a schema that is met from this one. -/
theorem Goes.of_meets {inner : Value} (hm : Meets document schema inner)
    (h : C.Goes root inner p step Q) : C.Goes root schema p step Q :=
  fun hw hh hs => h hw hh (hs.meets hm)

variable (C root schema) in
/-- A course is a logic of walks. It says nothing of a second walk. -/
def logic : WalkLogic ν where
  Leads := C.Steps
  Beside p t := t = p
  Goes p step _ Q := C.Goes root schema p step Q
  trans := Steps.trans
  isPrefix := Steps.definitions
  rests := goes_pure
  refuses := goes_refuse
  continues := Goes.bind
  looks h _ := goes_get fun _ _ _ => h

variable {deeper : Deeper ν} {context : String} {entries : Entries}

/-! ### Unions -/

variable (C) in
/-- The discriminator was inferred, and the union is tied as on the course. -/
def tied (p : Progress ν) : Tie := fun origin entries variants discriminator =>
  Inferred p.definitions origin entries variants discriminator ∧
    C.Ties p origin entries variants discriminator

variable (C) in
/-- The schema reads as the shape, and the unions in it are tied as on the course. -/
def Finds (depth : Nat) (p : Progress ν) (v : Value) (node : Shape) : Prop :=
  ReadsTied (C.tied p) (N.Points p) p.definitions depth v node

theorem Finds.reads {depth : Nat} {v : Value} {node : Shape} (h : C.Finds depth p v node) :
    Reads (N.Points p) p.definitions depth v node :=
  ReadsTied.reads (fun _ _ _ _ => And.left) h

theorem Finds.ties {depth : Nat} {v : Value} {node : Shape} (h : C.Finds depth p v node) :
    ReadsTied (C.Ties p) (N.Points p) p.definitions depth v node :=
  ReadsTied.mono (fun _ _ _ _ => And.right) (fun _ _ hp => hp) (List.prefix_refl _) h

theorem Steps.tied (h : C.Steps p p') {origin : Nat} {variants : List Shape}
    {discriminator : Option String} (ht : C.tied p origin entries variants discriminator) :
    C.tied p' origin entries variants discriminator :=
  ⟨ht.1.mono h.definitions, C.later h.extends_ h.leads ht.2⟩

theorem tracks_finds (depth : Nat) : (C.logic root schema).Tracks (C.Finds depth) where
  lasts hs _ _ hf := hf.mono (fun _ _ _ _ => hs.tied) (fun _ _ => Points.of_extends hs.extends_)
    hs.definitions
  seen := by
    rintro p _ v node rfl _
    rfl

/-- Putting a union aside changes nothing else. -/
theorem exists_deferred (variants : List Shape) (explicit : Value) (p : Progress ν) :
    ∃ deferred, Progress.defer variants explicit p = { p with deferred := deferred } := by
  unfold Progress.defer
  split <;> exact ⟨_, rfl⟩

/-- A union is put aside or not; either way its discriminator is looked for among the definitions
that are finished. -/
theorem unionOf_goes {origin depth : Nat} {members : List Value} {nodes : List Shape}
    (hrule : ruleOf entries = .alternatives (.list members))
    (hn : List.Forall₂ (Reads (N.Points p) p.definitions depth) members nodes)
    (hseveral : ∀ only, distinct nodes ≠ [only]) :
    C.Goes root (.mapping origin entries) p (unionOf (distinct nodes) (explicitDiscriminator entries))
      fun node p' => TiedUnion (C.tied p') origin entries (distinct nodes) node := by
  have htied : ∀ {p' : Progress ν} {discriminator : Option String},
      C.tied p' origin entries (distinct nodes) discriminator →
        TiedUnion (C.tied p') origin entries (distinct nodes)
          (.union (distinct nodes) discriminator) := fun ht =>
    (tiedUnion_iff_of_several hseveral).mpr ⟨_, rfl, ht⟩
  refine goes_get fun hw hh hs => ?_
  dsimp only
  split
  · -- a variant leads nowhere yet, so the union is put aside, and it starts without a discriminator
    next hlost =>
    rw [Bool.and_eq_true, Option.isNone_iff_eq_none, List.any_eq_true] at hlost
    obtain ⟨hnone, v, hv, hv'⟩ := hlost
    split
    · exact goes_refuse rfl
    · next hkeys =>
      intro _ _ _
      obtain ⟨hleads, hholds, hties⟩ := C.defers hrule hw hs hh hn hseveral (by simpa using hkeys)
        ⟨v, hv, Option.isNone_iff_eq_none.mp hv'⟩
      obtain ⟨deferred, hp'⟩ :=
        exists_deferred (distinct nodes) (explicitDiscriminator entries) p
      have he : N.Extends p (Progress.defer (distinct nodes) (explicitDiscriminator entries) p) := by
        rw [hp']
        exact ⟨N.refl _, rfl, rfl, List.prefix_refl _⟩
      have hdefinitions : (Progress.defer (distinct nodes) (explicitDiscriminator entries)
          p).definitions = p.definitions := by rw [hp']
      simp only [Step.ends_bind, Step.ends_modify, Step.ends_pure]
      refine ⟨⟨he, hleads, hw.of_extends he hdefinitions (by rw [hp']; exact hw.recalls), hholds⟩, ?_⟩
      rw [hnone]
      exact htied ⟨⟨p.definitions, hdefinitions ▸ List.prefix_refl _, hnone.symm⟩, hties⟩
  · -- a discriminator is found, or all variants lead somewhere; they do so in the first case as well
    next hfound =>
    refine goes_pure (htied ⟨⟨p.definitions, List.prefix_refl _, rfl⟩,
      C.finds hrule hw hs hh hn hseveral fun v hv => ?_⟩)
    by_contra hno
    refine hfound (Bool.and_eq_true_iff.mpr ⟨?_, List.any_eq_true.mpr ⟨v, hv, by simpa using hno⟩⟩)
    exact Option.isNone_iff_eq_none.mpr (Option.not_isSome_iff_eq_none.mp fun hsome =>
      hno (isSome_dereference hsome hv))

/-! ### References -/

theorem resolve_goes (ref : Value) (p : Progress ν) :
    C.Goes root schema p (Progress.onResolver (Resolver.resolve ref))
      fun resolved p' => ∃ s, ref = .text s ∧
        Resolver.target document s = .ok resolved.node ∧
        (resolved.cyclic = true ↔ ref ∈ p'.resolver.chain) ∧ p'.definitions = p.definitions := by
  intro hw hh _
  simp only [Progress.onResolver, Resolver.resolve, Step.ends_within, Step.ends_bind]
  refine (Resolver.lookup_ends hw.recalls ref).imp ?_ fun fault _ hf hs => by
    rw [hf] at hs
    cases hs
  rintro v r' ⟨⟨s, rfl, ht⟩, hr, hc⟩
  have he : N.Extends p { p with resolver := r' } :=
    ⟨N.refl _, hr.document_eq.trans hw.recalls.document_eq.symm, hc, List.prefix_refl _⟩
  obtain ⟨hleads, hholds⟩ := C.looks hc hh
  refine ⟨⟨he, hleads, hw.of_extends he rfl hr, hholds⟩, s, rfl, ht, ?_⟩
  -- what is on the chain is a text, and texts are the same only if they are equal
  simp only [List.any_eq_true, hc, and_true]
  constructor
  · rintro ⟨w, hwm, hsame⟩
    obtain ⟨t, _, rfl, -⟩ := hw.pending w hwm
    have : t = s := by simpa [Value.same, Scalar.same] using hsame
    exact this ▸ hwm
  · exact fun hm => ⟨_, hm, by simp [Value.same, Scalar.same]⟩

/-- A reference reads as a handle that stands for it. What it leads to is read while it is on the
chain, and a reference that is met first is the last to be finished. -/
theorem reference_goes {depth : Nat} {ref : Value} {origin : Nat}
    (hrule : ruleOf entries = .reference ref)
    (hd : ∀ v context p, C.Goes root v p (deeper context v)
      fun node p' => C.Finds depth p' v node) (p : Progress ν) :
    C.Goes root (.mapping origin entries) p (reference namer deeper ref)
      fun node p' => ∃ s name, ref = .text s ∧ N.Points p' name s ∧ node = .handle name ∧
        (p.definitions = [] → p.resolver.chain = [] →
          ∃ earlier shape, p'.definitions = earlier ++ [(name, shape)]) := by
  refine (resolve_goes ref p).bind fun resolved p₁ hs₁ hresolved => ?_
  obtain ⟨s, rfl, ht, hcyclic, hdefs₁⟩ := hresolved
  intro hw₁ hh₁ hsurrounds
  simp only [Step.ends_bind, Progress.onNames, Step.ends_within, Step.ends_get]
  refine (Step.ends_self (namer s) p₁.names).imp ?_ ?_
  · intro name names hrun
    obtain ⟨hlater, hname⟩ := (N.ends p₁.names s).of_ok hrun
    have he₂ : N.Extends p₁ { p₁ with names := names } := ⟨hlater, rfl, rfl, List.prefix_refl _⟩
    have hw₂ : N.Walked document { p₁ with names := names } :=
      hw₁.of_extends he₂ rfl hw₁.recalls
    split
    · -- the reference is finished or on the chain, so nothing is walked
      next hdone =>
      rw [Bool.or_eq_true, hcyclic] at hdone
      have hpoints : N.Points { p₁ with names := names } name s := hw₂.points hname hdone
      refine ⟨⟨he₂, C.meets hrun hpoints, hw₂, C.named hrun hh₁⟩, s, name, rfl, hpoints, rfl,
        fun hdefs hc => ?_⟩
      rw [hdefs₁, hdefs, hs₁.extends_.chain_eq, hc] at hdone
      simp [Definitions.find?] at hdone
    · -- the target is walked while the reference is on the chain
      next hnew =>
      rw [Bool.or_eq_true, hcyclic, not_or, Option.not_isSome_iff_eq_none] at hnew
      have hin := (hsurrounds.meets (.target hrule ht)).enter ht
      simp only [Progress.visiting, Step.ends_bind, Step.ends_between, Step.ends_modify,
        Step.ends_pure]
      refine (hd resolved.node name (entered p₁ names s) (hw₂.enter hname hnew.1)
        (C.enters (C.named hrun hh₁)) hin).imp ?_ fun _ _ hstuck hself =>
        ⟨N.trans hlater (hstuck hself).names, (hstuck hself).looped⟩
      rintro node p₃ ⟨hs₃, hfinds⟩
      have hc₃ : p₃.resolver.chain = p₁.resolver.chain ++ [.text s] := hs₃.extends_.chain_eq
      -- nothing has finished the reference in the meantime, as it was on the chain
      have hname₃ := N.current_later hs₃.extends_.names hname
      have hnone₃ := hs₃.walked.find?_eq_none hc₃ hname₃
      have hw₄ := hs₃.walked.define hc₃ hnew.2 hname₃ ht hfinds.reads
      have hd₄ := definitions_finished hnone₃ node
      have hpoints : N.Points (finished p₃ name node) name s :=
        hw₄.points hname₃ (.inl (by rw [hd₄, Definitions.find?_concat_self hnone₃]; rfl))
      obtain ⟨hleads, hholds⟩ := C.finishes hrun hs₃.extends_ hs₃.leads hnone₃
        (Points.of_finished hc₃ hname₃ hnone₃) hpoints ht hfinds.ties hh₁ hs₃.holds
      have he₄ : N.Extends p₁ (finished p₃ name node) :=
        ⟨N.trans hlater hs₃.extends_.names, hs₃.extends_.document_eq,
          by simp [Progress.define, Resolver.leave, hc₃],
          hd₄ ▸ hs₃.definitions.trans (List.prefix_append _ _)⟩
      exact ⟨⟨he₄, hleads, hw₄, hholds⟩, s, name, rfl, hpoints, rfl, fun _ _ => ⟨_, _, hd₄⟩⟩
  · intro fault names hrun hself
    obtain ⟨-, hplain⟩ := (N.ends p₁.names s).of_error hrun
    rw [hplain] at hself
    cases hself

/-! ### Schemas -/

theorem ofEntries_goes {depth : Nat} {origin : Nat} (hdeeper : ∀ v context p,
      C.Goes root v p (deeper context v) fun node p' => C.Finds depth p' v node)
    (p : Progress ν) :
    C.Goes root (.mapping origin entries) p (ofEntries namer deeper context origin entries)
      fun node p' => TiedEntries (C.tied p') (N.Points p') p'.definitions (C.Finds depth p') origin
        entries node := by
  by_cases hr : ∃ ref, ruleOf entries = .reference ref
  · obtain ⟨ref, hr⟩ := hr
    simp only [ofEntries_eq, TiedEntries, ReadsEntries, hr]
    apply (reference_goes hr hdeeper p).imp
    rintro _ p' _ ⟨s, name, hs, hp, rfl, -⟩
    exact ⟨s, name, hs, hp, rfl⟩
  · have hrule := not_exists.mp hr
    -- the logic of a course says nothing of a second walk, so the walk is its own second
    change (C.logic root (.mapping origin entries)).Goes p
      (ofEntries namer deeper context origin entries)
      (ofEntries namer deeper context origin entries) _
    apply WalkLogic.ofEntries_goes (tracks_finds depth) hrule
    · exact fun v hv context p => (hdeeper v context p).of_meets (.part hv)
    · -- a member leads nowhere only if the walk is stuck in a loop
      intro v hv p node hf hn α fault Q hw hh hs
      exact goes_throw (fun _ => looped_of_dereference_eq_none hw hs hv hf.reads hn) hw hh hs
    · exact fun listed p nodes hrule hnodes hseveral =>
        unionOf_goes hrule (hnodes.imp fun _ _ => Finds.reads) hseveral

/-- The walk gives what the schema reads as. It refuses the schema as a composition that leads back
to itself only if it is stuck in a loop. -/
theorem shape_goes (steps : Nat) (v : Value) (context : String) (p : Progress ν) :
    C.Goes root v p (shape namer steps context v) fun node p' => C.Finds steps p' v node := by
  induction steps generalizing v context p with
  | zero => exact goes_refuse rfl
  | succ steps ih =>
    cases v with
    | mapping origin entries =>
      refine (ofEntries_goes ih p).bind fun plain p₁ _ hplain => ?_
      unfold Finds ReadsTied
      split
      · next h =>
        refine goes_pure ⟨plain, hplain, ?_⟩
        rw [isNullable_of_text? h, if_pos rfl]
      · next h =>
        refine goes_pure ⟨plain, hplain, ?_⟩
        rw [isNullable_eq_false h, if_neg Bool.false_ne_true]
    | _ => exact goes_pure rfl

/-- A walk that starts at the schema. -/
theorem shapeOf_ends (hw : N.Walked document p) (hh : C.Holds p) (hc : p.resolver.chain = [])
    (context : String) (schema : Value) :
    (shapeOf namer context schema).Ends p
      (fun node p' => C.Steps p p' ∧ ∃ depth, C.Finds depth p' schema node)
      fun fault p' => fault.isSelfReferring = true → N.Stuck document schema p p' := by
  simp only [shapeOf, Step.ends_bind, Step.ends_get]
  have hs : Surrounds document schema p.resolver.chain schema :=
    ⟨.refl, fun ref hr => by rw [hc] at hr; cases hr⟩
  apply (shape_goes _ schema context p hw hh hs).imp_ok
  rintro _ _ ⟨hsteps, hf⟩
  exact ⟨hsteps, _, hf⟩

end Course

/-! ### Nothing else followed -/

section Bare

variable (N : Naming namer) (document : Value)

/-- The course on which nothing else is followed. -/
def Course.bare : N.Course document where
  Holds := fun _ => True
  Leads := fun _ _ => True
  Ties := fun _ _ _ _ _ => True
  refl := fun _ => trivial
  trans := fun _ _ _ _ => trivial
  looks := fun _ _ => ⟨trivial, trivial⟩
  named := fun _ _ => trivial
  meets := fun _ _ => trivial
  enters := fun _ => trivial
  finishes := fun _ _ _ _ _ _ _ _ _ _ => ⟨trivial, trivial⟩
  later := fun _ _ _ => trivial
  finds := fun _ _ _ _ _ _ _ => trivial
  defers := fun _ _ _ _ _ _ _ _ => ⟨trivial, trivial, trivial⟩

variable {N document} {p : Progress ν}

/-- A walk that starts at the schema. -/
theorem shapeOf_ends (hw : N.Walked document p) (hc : p.resolver.chain = []) (context : String)
    (schema : Value) :
    (shapeOf namer context schema).Ends p
      (fun node p' => N.Extends p p' ∧ N.Walked document p' ∧
        ∃ depth, Reads (N.Points p') p'.definitions depth schema node)
      fun fault p' => fault.isSelfReferring = true → N.Stuck document schema p p' := by
  apply ((Course.bare N document).shapeOf_ends hw trivial hc context schema).imp_ok
  rintro node p' ⟨⟨he, -, hw', -⟩, depth, hf⟩
  exact ⟨he, hw', depth, hf.reads⟩

end Bare

end RouteStubs.Naming
