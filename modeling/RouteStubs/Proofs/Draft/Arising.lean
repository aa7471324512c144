import RouteStubs.Proofs.Draft.Rendered

/-!
# Where the names of records come from

Hoisting gives a name to a record only if the record stands inside the shape that is hoisted, has fields,
and comes from a mapping for which nothing was declared when the hoisting started. So which names are
given while references are filled in is told from the definitions of these references.

## Main definitions

* `Draft.Arises`: a name was given to a record inside a shape.
* `Draft.Arising`, `Draft.ArisesFrom`: the names that are given by hoisting and by filling in.

## Main statements

* `Draft.hoistMembers_arising`: hoisting a shape.
* `Draft.fillPending_arising`: filling in.
-/

namespace RouteStubs.Draft

open Registry Shape

variable {document : Value} {d d' d'' : Draft} {root node : Shape} {top : String} {g : Given}

/-- The name was given to a record with fields that stands inside the shape. Nothing was declared for the
mapping of the record. -/
def Arises (d : Draft) (root : Shape) (top : String) (g : Given) : Prop :=
  ∃ record, root.At top record g.key ∧ ¬ record.Flat ∧ d.ofSource? record.source? = none

/-- The names that were given on the way are names of records inside the shape. -/
def Arising (root : Shape) (top : String) (d d' : Draft) : Prop :=
  ∀ g ∈ d'.registry.given, g ∈ d.registry.given ∨ d.Arises root top g

/-- The name was given to a record inside the definition of one of these references. -/
def ArisesFrom (d : Draft) (names : List Given) (g : Given) : Prop :=
  ∃ g₀ ∈ names, g₀.origin = .schema ∧ ∃ root, d.progress.definitions.find? g₀.id = some root ∧
    d.Arises root g₀.key g

/-- What has no declaration later has none before. -/
theorem Arises.of_grows (hg : d.Grows d') (h : d'.Arises root top g) : d.Arises root top g := by
  obtain ⟨record, hat, hflat, hnone⟩ := h
  refine ⟨record, hat, hflat, Option.eq_none_iff_forall_ne_some.mpr fun id hid => ?_⟩
  cases (hg.ofSource? hid).symm.trans hnone

theorem Arising.refl (root : Shape) (top : String) (d : Draft) : Arising root top d d :=
  fun _ hg => .inl hg

theorem Arising.trans (h : Arising root top d d') (h' : Arising root top d' d'') (hg : d.Grows d') :
    Arising root top d d'' := by
  intro g hgm
  rcases h' g hgm with hgm | ha
  · exact h g hgm
  · exact .inr (ha.of_grows hg)

/-! ### Hoisting -/

theorem ofExcept_arising {α : Type} {outcome : Except Fault α} (hp : Fault.Plain outcome)
    (root : Shape) (top : String) (d : Draft) :
    HoistsAny document d (Step.ofExcept outcome) fun _ d' => Arising root top d d' :=
  fun hd => Step.ends_ofExcept.mpr ⟨fun _ _ => ⟨.refl d, hd, .refl _ _ d, .refl root top d⟩, hp⟩

/-- A record gets a name where it stands. The names of what is inside it follow. -/
theorem place_arising
    (hm : ∀ name key d, root.At top node key → HoistsAny document d (hoistMembers node name key)
      fun _ d' => Arising root top d d')
    (name key : String) (d : Draft) (hat : root.At top node key) :
    HoistsAny document d (place node name key (hoistMembers node)) fun _ d' =>
      Arising root top d d' := by
  refine hoistsAny_place fun hd => ?_
  refine place_ends ?shared ?own ?flat
  case shared => exact fun _ _ _ _ _ _ _ _ => .refl root top d
  case own =>
    rintro f fields trailer description source id rfl hsource hnext
    have fresh := hnext.notMem_taken
    have hopened : Arising root top d (d.opened id key description source) := by
      intro g hg
      rw [registry_opened, given_add, List.mem_append, List.mem_singleton] at hg
      refine hg.imp_right ?_
      rintro rfl
      exact ⟨_, hat, not_flat_iff.mpr ⟨_, _, _, _, _, rfl⟩, hsource⟩
    apply (hm id key (d.opened id key description source) hat
      (hd.of_opened fresh hsource key description)).forget
    rintro filled d' ⟨-, -, -, harising⟩
    exact hopened.trans harising (grows_opened fresh hsource key description)
  case flat =>
    intro _
    apply (hm name key d hat hd).forget
    rintro placed d' ⟨-, -, -, harising⟩
    exact harising

mutual

theorem hoistMembers_arising : ∀ (node : Shape) (name key : String) (d : Draft),
    root.At top node key →
      HoistsAny document d (hoistMembers node name key) fun _ d' => Arising root top d d'
  | .record fields trailer description source, name, key, d, hat => by
    simp only [hoistMembers]
    refine (hoistFields_arising fields name key d fun f hf => hat.field hf).bind
      fun fields' d₁ hf₁ hfields => ?_
    refine (hoistTrailer_arising trailer name key d₁ fun tail ht => ?_).bind
      fun trailer' d₂ _ htrailer => hoistsTo_pure (hfields.trans htrailer hf₁.grows)
    subst ht
    exact hat.further
  | .array element, name, key, d, hat => by
    simp only [hoistMembers]
    exact (place_arising (fun name key d => hoistMembers_arising element name key d) _ _ d
      hat.element).map fun _ _ h => h
  | .union variants discriminator, name, key, d, hat => by
    simp only [hoistMembers]
    refine hoistsTo_get ((ofExcept_arising (plain_settled variants discriminator d.progress) root top
      d).bind fun settled d₁ hf₁ hsettled => ?_)
    refine (hoistVariants_arising settled 0 variants name key d₁ fun i v hi => ?_).bind
      fun variants' d₂ _ hvariants => hoistsTo_pure (hsettled.trans hvariants hf₁.grows)
    rw [Nat.zero_add]
    exact hat.variant hi
  | .primitive kind format, _, _, d, _ => hoistsTo_pure (.refl root top d)
  | .enum values, _, _, d, _ => hoistsTo_pure (.refl root top d)
  | .handle target, _, _, d, _ => hoistsTo_pure (.refl root top d)
  | .unknown, _, _, d, _ => hoistsTo_pure (.refl root top d)

theorem hoistFields_arising : ∀ (fields : List (Field Shape)) (name key : String) (d : Draft),
    (∀ f ∈ fields, root.At top f.node (key ++ "/properties/" ++ f.name)) →
      HoistsAny document d (hoistFields fields name key) fun _ d' => Arising root top d d'
  | [], _, _, d, _ => by
    simp only [hoistFields]
    exact hoistsTo_pure (.refl root top d)
  | ⟨field, node, required, description⟩ :: rest, name, key, d, hat => by
    obtain ⟨hnode, hrest⟩ := List.forall_mem_cons.mp hat
    simp only [hoistFields]
    refine (ofExcept_arising (Name.plain_typeStyle field "Field") root top d).bind
      fun word d₁ hf₁ hword => ?_
    refine (place_arising (fun name key d => hoistMembers_arising node name key d) _ _ d₁
      hnode).bind fun node' d₂ hf₂ hplaced => ?_
    have hfirst := hword.trans hplaced hf₁.grows
    exact (hoistFields_arising rest name key d₂ hrest).bind fun rest' d₃ _ hothers =>
      hoistsTo_pure (hfirst.trans hothers (hf₁.grows.trans hf₂.grows))

theorem hoistTrailer_arising : ∀ (trailer : Option Shape) (name key : String) (d : Draft),
    (∀ node, trailer = some node → root.At top node (key ++ "/additionalProperties")) →
      HoistsAny document d (hoistTrailer trailer name key) fun _ d' => Arising root top d d'
  | none, _, _, d, _ => by
    simp only [hoistTrailer]
    exact hoistsTo_pure (.refl root top d)
  | some node, name, key, d, hat => by
    simp only [hoistTrailer]
    exact (place_arising (fun name key d => hoistMembers_arising node name key d) _ _ d
      (hat node rfl)).map fun _ _ h => h

theorem hoistVariants_arising : ∀ (discriminator : Option String) (index : Nat)
    (variants : List Shape) (name key : String) (d : Draft),
    (∀ i node, variants[i]? = some node →
      root.At top node (key ++ "/oneOf/" ++ toString (index + i))) →
      HoistsAny document d (hoistVariants discriminator index variants name key) fun _ d' =>
        Arising root top d d'
  | _, _, [], _, _, d, _ => by
    simp only [hoistVariants]
    exact hoistsTo_pure (.refl root top d)
  | discriminator, index, node :: rest, name, key, d, hat => by
    simp only [hoistVariants]
    refine hoistsTo_get ((ofExcept_arising
      (plain_variantSuffix d.progress.definitions discriminator node index) root top d).bind
        fun suffix d₁ hf₁ hsuffix => ?_)
    refine (place_arising (fun name key d => hoistMembers_arising node name key d) _ _ d₁
      (hat 0 node rfl)).bind fun node' d₂ hf₂ hplaced => ?_
    have hfirst := hsuffix.trans hplaced hf₁.grows
    refine (hoistVariants_arising discriminator (index + 1) rest name key d₂ fun i v hi => ?_).bind
      fun rest' d₃ _ hothers => hoistsTo_pure (hfirst.trans hothers (hf₁.grows.trans hf₂.grows))
    rw [Nat.add_assoc, Nat.add_comm 1 i]
    exact hat (i + 1) v hi

end

/-! ### Filling in -/

/-- The names that are given while references are filled in are names of records inside the definitions
of these references. -/
theorem fillPending_arising (names : List Given) (hd : d.Drafted .all document) (hf : d.Full)
    (hn : ∀ g ∈ names, g ∈ d.registry.given) :
    (fillPending names).Ends d
      (fun _ d' => ∀ g ∈ d'.registry.given, g ∈ d.registry.given ∨ d.ArisesFrom names g)
      fun _ _ => True := by
  let I : Draft → Prop := fun d' =>
    ∀ g ∈ d'.registry.given, g ∈ d.registry.given ∨ d.ArisesFrom names g
  apply (fillPending_keeps (I := I) names hd hf hn (fun _ hg => .inl hg) ?fill fun _ _ _ h => h).forget
  case fill =>
    intro first hfirst d₁ definition hfills hd₁ hi₁ hg ho hnone hdef
    apply (hoistMembers_arising definition first.id first.key d₁ .here hd₁).forget
    rintro made d₂ ⟨-, -, -, harising⟩
    intro g hgm
    rcases harising g hgm with hgm | ha
    · exact hi₁ g hgm
    · rw [hfills.find?_eq] at hdef
      exact .inr ⟨first, hfirst, ho, definition, hdef, ha.of_grows hfills.grows⟩
  rintro _ d' ⟨-, -, -, -, hi⟩
  exact hi

end RouteStubs.Draft
