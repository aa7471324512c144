import RouteStubs.Proofs.Faults
import RouteStubs.Proofs.Schema.Tied

/-!
# Logics of walks

There are several things to say of walks through schemas: what schemas read as, what stays when a walk
fails, and what a second walk does alongside. Each of them is a logic. It says something of a step, it
goes through the ways in which steps are put together, and of a walk it says what it says of the steps
where references are met, where unions are made and where the walk may be given up. What the other
functions of the walk make of it is the same for all logics: they make of what is said of the schemas
inside what the rules make of it.

## Main definitions

* `Canon.WalkLogic`: what is said of steps, and of the steps of a second walk beside them.
* `Canon.WalkLogic.GoesAll`: what is said of walks through some schemas.
* `Canon.WalkLogic.Tracks`: what is said of shapes lasts, and both walks see where these shapes lead.

## Main statements

* `Canon.WalkLogic.recordOf_goes`, `Canon.WalkLogic.composition_goes`,
  `Canon.WalkLogic.alternatives_goes`, `Canon.WalkLogic.ofTypes_goes`: one rule each.
* `Canon.WalkLogic.ofEntries_goes`: all rules other than that of references.
-/

namespace RouteStubs.Canon

open Shape

/-- What is said of the steps of a walk, and of the steps of a second walk that go along with them. -/
structure WalkLogic (ν : Type) where
  /-- The second state comes later. -/
  Leads : Progress ν → Progress ν → Prop
  /-- The second walk may be in the second state when the first one is in the first. -/
  Beside : Progress ν → Progress ν → Prop
  /-- What is said of a step from the state, of a step beside it and of the outcomes that it may have. -/
  Goes : {α : Type} → Progress ν → Step (Progress ν) α → Step (Progress ν) α →
    (α → Progress ν → Prop) → Prop
  trans : ∀ {p p' p''}, Leads p p' → Leads p' p'' → Leads p p''
  isPrefix : ∀ {p p'}, Leads p p' → p.definitions <+: p'.definitions
  /-- A step that does nothing. -/
  rests : ∀ {α p} {a : α} {Q : α → Progress ν → Prop}, Q a p → Goes p (pure a) (pure a) Q
  /-- A step that is refused for something else than a loop. -/
  refuses : ∀ {α p fault} {Q : α → Progress ν → Prop}, fault.isSelfReferring = false →
    Goes p (throw fault) (throw fault) Q
  /-- A step after another one. -/
  continues : ∀ {α β p} {step step' : Step (Progress ν) α} {next next' : α → Step (Progress ν) β}
    {Q : α → Progress ν → Prop} {R : β → Progress ν → Prop}, Goes p step step' Q →
    (∀ a p', Leads p p' → Q a p' → Goes p' (next a) (next' a) R) →
    Goes p (step >>= next) (step' >>= next') R
  /-- A step that looks at the state first. The second walk sees the same in its own state. -/
  looks : ∀ {α p} {next next' : Progress ν → Step (Progress ν) α} {Q : α → Progress ν → Prop},
    Goes p (next p) (next' p) Q → (∀ t, Beside p t → next' t = next' p) →
    Goes p (get >>= next) (get >>= next') Q

namespace WalkLogic

variable {ν α β : Type} {L : WalkLogic ν} {p : Progress ν} {step step' : Step (Progress ν) α}
  {Q Q' : α → Progress ν → Prop} {R : β → Progress ν → Prop}

/-! ### Ways of putting steps together -/

theorem imp (h : L.Goes p step step' Q) (hn : ∀ a p', L.Leads p p' → Q a p' → Q' a p') :
    L.Goes p step step' Q' := by
  rw [← bind_pure step, ← bind_pure step']
  exact L.continues h fun a p' hl hq => L.rests (hn a p' hl hq)

theorem map {f : α → β} (h : L.Goes p step step' Q) (hn : ∀ a p', Q a p' → R (f a) p') :
    L.Goes p (f <$> step) (f <$> step') R := by
  rw [map_eq_pure_bind, map_eq_pure_bind]
  exact L.continues h fun a p' _ hq => L.rests (hn a p' hq)

theorem goes_ofExcept {outcome : Except Fault α} (hp : Fault.Plain outcome) :
    L.Goes p (Step.ofExcept outcome) (Step.ofExcept outcome) fun a _ => outcome = .ok a := by
  cases outcome with
  | ok a => exact L.rests rfl
  | error fault => exact L.refuses (hp fault rfl)

variable (L) in
/-- The walk may be given up in this state, for any reason. -/
def MayFail (p : Progress ν) : Prop :=
  ∀ {α : Type} (fault : Fault) (Q : α → Progress ν → Prop), L.Goes p (throw fault) (throw fault) Q

/-! ### Records -/

variable (L) in
/-- Walks through these schemas find what is said of them. -/
def GoesAll (deeper deeper' : Deeper ν) (sub : Progress ν → Value → Shape → Prop)
    (inner : List Value) : Prop :=
  ∀ v ∈ inner, ∀ context p,
    L.Goes p (deeper context v) (deeper' context v) fun node p' => sub p' v node

variable (L) in
/-- What is said of schemas and their shapes is so later as well, and the second walk sees the shapes
lead where they lead in the first one. -/
structure Tracks (sub : Progress ν → Value → Shape → Prop) : Prop where
  lasts : ∀ {p p'}, L.Leads p p' → ∀ v node, sub p v node → sub p' v node
  seen : ∀ {p t v node}, L.Beside p t → sub p v node →
    t.definitions.dereference node = p.definitions.dereference node

variable {deeper deeper' : Deeper ν} {sub : Progress ν → Value → Shape → Prop} {inner : List Value}
  {context : String} {entries : Entries} {source : Option Source}

theorem GoesAll.subset (h : L.GoesAll deeper deeper' sub inner) {some_ : List Value}
    (hs : some_ ⊆ inner) : L.GoesAll deeper deeper' sub some_ := fun v hv => h v (hs hv)

theorem fieldsOf_goes (hl : L.Tracks sub) {required : List String} {properties : Entries}
    (hd : L.GoesAll deeper deeper' sub (properties.map Prod.snd)) (p : Progress ν) :
    L.Goes p (fieldsOf deeper context required properties)
      (fieldsOf deeper' context required properties)
      fun fields p' => ReadsFields (sub p') required properties fields := by
  induction properties generalizing p with
  | nil => exact L.rests .nil
  | cons property rest ih =>
    obtain ⟨key, property⟩ := property
    refine L.continues (hd property List.mem_cons_self _ p) fun node p₁ _ hnode => ?_
    refine L.continues (goes_ofExcept ?_) fun description p₂ hl₂ hdescription => ?_
    · cases property with
      | mapping _ entries => exact Prose.plain_ofMember entries "description"
      | _ => exact Fault.plain_ok _
    refine L.continues (ih (hd.subset (List.subset_cons_self _ _)) p₂)
      fun fields p₃ hl₃ hfields => ?_
    exact L.rests (.cons (hl.lasts (L.trans hl₂ hl₃) _ _ hnode) hdescription hfields)

theorem trailerOf_goes (hd : L.GoesAll deeper deeper' sub (furtherOf entries).toList)
    (p : Progress ν) :
    L.Goes p (trailerOf deeper context entries) (trailerOf deeper' context entries)
      fun trailer p' => ReadsTrailer (sub p') entries trailer := by
  unfold trailerOf
  unfold furtherOf at hd
  split
  · next h => exact L.rests (by simp [ReadsTrailer, h])
  · next origin more h =>
    refine map (hd (.mapping origin more) (by simp [h]) _ p) fun node _ hn => ?_
    simp only [ReadsTrailer, h]
    exact ⟨node, hn, rfl⟩
  · next h₁ h₂ => exact L.rests (by unfold ReadsTrailer; split <;> simp_all)

theorem recordOf_goes (hl : L.Tracks sub) (hd : L.GoesAll deeper deeper' sub (recordParts entries))
    (p : Progress ν) :
    L.Goes p (recordOf deeper context entries source) (recordOf deeper' context entries source)
      fun node p' => ReadsRecord (sub p') entries source node := by
  rw [recordOf_eq, recordOf_eq]
  refine L.continues (goes_ofExcept (plain_requiredNames entries)) fun required p₁ _ hrequired => ?_
  refine L.continues (fieldsOf_goes hl (hd.subset (List.subset_append_left _ _)) p₁)
    fun fields p₂ _ hfields => ?_
  refine L.continues (trailerOf_goes (hd.subset (List.subset_append_right _ _)) p₂)
    fun trailer p₃ hl₃ htrailer => ?_
  refine L.continues (goes_ofExcept (Prose.plain_ofMember entries "description"))
    fun description p₄ hl₄ hdescription => ?_
  have hl₃ := hl.lasts (L.trans hl₃ hl₄)
  exact L.rests (.intro hrequired (hfields.mono fun _ _ => hl₃ _)
    (htrailer.mono fun _ _ => hl.lasts hl₄ _) hdescription)

/-! ### Compositions -/

theorem memberShape_goes (hl : L.Tracks sub) {member : Member} {lone : Bool}
    (hd : L.GoesAll deeper deeper' sub (memberParts member)) (p : Progress ν) :
    L.Goes p (memberShape deeper context lone member) (memberShape deeper' context lone member)
      fun node p' => ReadsMember (sub p') member node := by
  cases member with
  | beside entries => exact recordOf_goes hl hd p
  | listed v =>
    have hv := hd v (List.mem_singleton_self v) context p
    simp only [memberShape]
    split
    · split
      · exact L.refuses rfl
      · exact hv
    · exact hv

/-- The properties beside the list make a record, which leads to itself. -/
theorem Tracks.seen_member (hl : L.Tracks sub) {p t : Progress ν} {member : Member} {node : Shape}
    (ht : L.Beside p t) (h : ReadsMember (sub p) member node) :
    t.definitions.dereference node = p.definitions.dereference node := by
  cases member with
  | listed v => exact hl.seen ht h
  | beside entries =>
    cases h
    rw [Definitions.dereference_eq_self (by simp), Definitions.dereference_eq_self (by simp)]

/-- The members of a composition are merged. Where one of them leads nowhere, the walk is given up. -/
theorem mergeMembers_goes (hl : L.Tracks sub) {members : List Member} {lone : Bool}
    (hd : L.GoesAll deeper deeper' sub (members.flatMap memberParts))
    (hlost : ∀ member ∈ members, ∀ {p node}, ReadsMember (sub p) member node →
      p.definitions.dereference node = none → L.MayFail p)
    (index : Nat) (fields : List (Field Shape)) (trailer : Option Shape) (p : Progress ν) :
    L.Goes p (mergeMembers deeper context lone index fields trailer members)
      (mergeMembers deeper' context lone index fields trailer members)
      fun merged p' =>
        ReadsMembers p'.definitions (sub p') fields trailer members merged.1 merged.2 := by
  induction members generalizing index fields trailer p with
  | nil => exact L.rests .nil
  | cons member rest ih =>
    rw [List.flatMap_cons] at hd
    refine L.continues (memberShape_goes hl (hd.subset (List.subset_append_left _ _)) p)
      fun node p₁ _ hnode => L.looks ?_ fun t ht => by simp only [hl.seen_member ht hnode]
    -- what the member leads to is looked up among the definitions as they are now
    split
    · next hnone => exact hlost member List.mem_cons_self hnode hnone _ _
    · next more tail description source hrecord =>
      refine L.continues (goes_ofExcept (plain_mergeFields context fields more))
        fun merged p₂ hl₂ hmerged => ?_
      refine imp (ih (hd.subset (List.subset_append_right _ _))
        (fun member hm => hlost member (List.mem_cons_of_mem _ hm)) (index + 1) merged
        (trailer.or tail) p₂) fun result p₃ hl₃ hrest => ?_
      have hl' := L.trans hl₂ hl₃
      exact .cons (hnode.mono fun _ _ => hl.lasts hl' _)
        (Definitions.dereference_mono (L.isPrefix hl') hrecord) hmerged hrest
    · exact L.refuses rfl

theorem composition_goes (hl : L.Tracks sub) {origin : Nat} {listed : List Value}
    (hd : L.GoesAll deeper deeper' sub ((shapedMembers entries listed).flatMap memberParts))
    (hlost : soleMember? (shapedMembers entries listed) (demanded entries listed) = none →
      ∀ v ∈ listed.filter (!isRemark ·), ∀ {p node}, sub p v node →
        p.definitions.dereference node = none → L.MayFail p)
    (p : Progress ν) :
    L.Goes p (composition deeper context origin entries (.list listed))
      (composition deeper' context origin entries (.list listed))
      fun node p' =>
        ReadsComposition p'.definitions (sub p') origin entries listed node := by
  rw [composition_list, composition_list]
  split
  · next only hsole =>
    rw [(mem_of_soleMember? hsole).1] at hd
    have hd : L.GoesAll deeper deeper' sub (recordParts only) := by simpa [memberParts] using hd
    exact imp (recordOf_goes hl hd p) fun _ _ _ hr => .beside hsole hr
  · next v hsole =>
    rw [(mem_of_soleMember? hsole).1] at hd
    have hd : L.GoesAll deeper deeper' sub (memberParts (.listed v)) := by simpa using hd
    exact imp (memberShape_goes hl hd p) fun _ _ _ hr => .passes hsole hr
  · next hsole =>
    refine L.continues (mergeMembers_goes hl hd ?_ 0 [] none p) fun merged p₁ _ hmembers => ?_
    · intro member hm p node hr hn
      unfold shapedMembers at hm
      rcases List.mem_append.mp hm with hm | hm
      · obtain ⟨v, hv, rfl⟩ := List.mem_map.mp hm
        exact hlost hsole v hv hr hn
      · -- the properties beside the list make a record, which leads to itself
        simp only [Option.mem_toList, Option.map_eq_some_iff] at hm
        obtain ⟨beside, -, rfl⟩ := hm
        obtain ⟨⟩ := hr
        simp [Definitions.dereference, Definitions.followIn_eq_some] at hn
    refine L.continues (goes_ofExcept (plain_requireFields merged.1 (demanded entries listed)))
      fun fields p₂ hl₂ hfields => ?_
    refine L.continues (goes_ofExcept (Prose.plain_ofMember entries "description"))
      fun description p₃ hl₃ hdescription => ?_
    have hl' := L.trans hl₂ hl₃
    exact L.rests (.merges hsole
      (hmembers.mono (L.isPrefix hl') fun _ _ => hl.lasts hl' _) hfields hdescription)

/-! ### Unions -/

theorem memberShapes_goes (hl : L.Tracks sub) {members : List Value}
    (hd : L.GoesAll deeper deeper' sub members) (index : Nat) (p : Progress ν) :
    L.Goes p (memberShapes deeper context index members) (memberShapes deeper' context index members)
      fun nodes p' => List.Forall₂ (sub p') members nodes := by
  induction members generalizing index p with
  | nil => exact L.rests .nil
  | cons member rest ih =>
    refine L.continues (hd member List.mem_cons_self _ p) fun node p₁ _ hnode => ?_
    refine L.continues (ih (hd.subset (List.subset_cons_self _ _)) (index + 1) p₁)
      fun nodes p₂ hl₂ hnodes => ?_
    exact L.rests (.cons (hl.lasts hl₂ _ _ hnode) hnodes)

/-- Alternatives read as the only shape, or as what is said of their union. -/
theorem alternatives_goes (hl : L.Tracks sub) {tie : Progress ν → Tie} {origin : Nat}
    {members : Value} (hd : ∀ listed, members = .list listed → L.GoesAll deeper deeper' sub listed)
    (hunion : ∀ listed {p nodes}, members = .list listed → List.Forall₂ (sub p) listed nodes →
      (∀ only, distinct nodes ≠ [only]) →
      L.Goes p (unionOf (distinct nodes) (explicitDiscriminator entries))
        (unionOf (distinct nodes) (explicitDiscriminator entries))
        fun node p' => TiedUnion (tie p') origin entries (distinct nodes) node)
    (p : Progress ν) :
    L.Goes p (alternatives deeper context entries members)
      (alternatives deeper' context entries members)
      fun node p' => TiedAlternatives (tie p') (sub p') origin entries members node := by
  unfold alternatives TiedAlternatives
  split
  · next first others =>
    refine L.continues (memberShapes_goes hl (hd _ rfl) 0 p) fun nodes p₁ _ hnodes => ?_
    dsimp only
    split
    · next only hone =>
      refine L.rests ⟨nodes, hnodes, ?_⟩
      rw [hone]
      rfl
    · next hseveral =>
      exact imp (hunion _ rfl hnodes hseveral) fun node p₂ hl₂ hnode =>
        ⟨nodes, hnodes.imp fun _ _ => hl.lasts hl₂ _ _, hnode⟩
  · exact L.rests (by split <;> simp_all)

/-! ### Types -/

theorem ofType_goes (hl : L.Tracks sub) {source : Source} {type : Scalar}
    (hd : L.GoesAll deeper deeper' sub (typeParts entries (.scalar type))) (p : Progress ν) :
    L.Goes p (ofType deeper context entries source type) (ofType deeper' context entries source type)
      fun node p' => ReadsType (sub p') entries source type node := by
  rw [ofType_eq, ofType_eq]
  rw [typeParts] at hd
  unfold ReadsType
  cases hf : formOf entries type with
  | array =>
    simp only [hf] at hd ⊢
    exact map (hd _ (List.mem_singleton_self _) _ p) fun element _ he => ⟨element, he, rfl⟩
  | record =>
    simp only [hf] at hd ⊢
    exact recordOf_goes hl hd p
  | primitive kind => exact L.rests rfl
  | anything => exact L.rests rfl

mutual

theorem ofTypes_goes (hl : L.Tracks sub) : ∀ (type : Value) {source : Source},
    L.GoesAll deeper deeper' sub (typeParts entries type) →
      ∀ p, L.Goes p (ofTypes deeper context entries source type)
        (ofTypes deeper' context entries source type)
        fun node p' => ReadsTypes (sub p') entries source type node
  | .scalar _, _, hd, p => by
    simp only [ofTypes, ReadsTypes]
    exact ofType_goes hl hd p
  | .list types, _, hd, p => by
    simp only [ofTypes, ReadsTypes]
    exact map (ofEachType_goes hl types hd p) fun nodes _ hn => ⟨nodes, hn, rfl⟩
  | .mapping _ _, _, _, p => by
    simp only [ofTypes, ReadsTypes]
    exact L.rests rfl

theorem ofEachType_goes (hl : L.Tracks sub) : ∀ (types : List Value) {source : Source}
    {index : Nat}, L.GoesAll deeper deeper' sub (typesParts entries types) →
      ∀ p, L.Goes p (ofEachType deeper context entries source index types)
        (ofEachType deeper' context entries source index types)
        fun nodes p' => ReadsEachType (sub p') entries source index types nodes
  | [], _, _, _, p => by
    simp only [ofEachType, ReadsEachType]
    exact L.rests rfl
  | type :: rest, source, index, hd, p => by
    rw [typesParts] at hd
    simp only [ofEachType, ReadsEachType]
    refine L.continues (ofTypes_goes hl type (hd.subset (List.subset_append_left _ _)) p)
      fun node p₁ _ hnode => ?_
    refine L.continues (ofEachType_goes hl rest (hd.subset (List.subset_append_right _ _)) p₁)
      fun nodes p₂ hl₂ hnodes => ?_
    exact L.rests ⟨node, nodes, rfl, hnode.mono fun _ _ => hl.lasts hl₂ _, hnodes⟩

end

/-! ### Mappings -/

/-- A mapping that is no reference reads as its rule says, by what is said of the schemas inside. -/
theorem ofEntries_goes (hl : L.Tracks sub) {tie : Progress ν → Tie}
    {points : Progress ν → String → String → Prop} {namer namer' : Namer ν} {origin : Nat}
    (hrule : ∀ ref, ruleOf entries ≠ .reference ref)
    (hd : L.GoesAll deeper deeper' sub (parts (.mapping origin entries)))
    (hlost : ∀ v ∈ mergedMembers (.mapping origin entries), ∀ {p node}, sub p v node →
      p.definitions.dereference node = none → L.MayFail p)
    (hunion : ∀ listed {p nodes}, ruleOf entries = .alternatives (.list listed) →
      List.Forall₂ (sub p) listed nodes → (∀ only, distinct nodes ≠ [only]) →
      L.Goes p (unionOf (distinct nodes) (explicitDiscriminator entries))
        (unionOf (distinct nodes) (explicitDiscriminator entries))
        fun node p' => TiedUnion (tie p') origin entries (distinct nodes) node)
    (p : Progress ν) :
    L.Goes p (ofEntries namer deeper context origin entries)
      (ofEntries namer' deeper' context origin entries)
      fun node p' => TiedEntries (tie p') (points p') p'.definitions (sub p') origin entries node := by
  rw [ofEntries_eq, ofEntries_eq]
  unfold TiedEntries ReadsEntries
  cases hr : ruleOf entries with
  | reference ref => exact absurd hr (hrule ref)
  | composition members =>
    cases members with
    | list listed =>
      simp only [parts, hr] at hd
      refine imp (composition_goes hl hd (fun hsole v hv => hlost v ?_) p) fun _ _ _ hc =>
        ⟨listed, rfl, hc⟩
      simp [mergedMembers, hr, hsole, hv]
    | _ => exact L.refuses rfl
  | alternatives members =>
    refine alternatives_goes hl (fun listed hm => ?_) (fun listed _ _ hm => ?_) p
    · subst hm
      simpa only [parts, hr] using hd
    · exact hunion listed (hm ▸ hr)
  | values listed => exact L.rests rfl
  | typed type =>
    simp only [parts, hr] at hd
    exact ofTypes_goes hl type hd p

end WalkLogic

end RouteStubs.Canon
