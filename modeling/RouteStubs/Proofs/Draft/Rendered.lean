import RouteStubs.Proofs.Draft.Shared

/-!
# Hoisting renders shapes

Hoisting goes through a shape and puts the handles of declarations in the place of the records inside
it. Whatever it declares on the way renders a record of the mapping that it is declared for, and so does
what is filled in for references.

## Main statements

* `Draft.place_shares`: what takes the place of a shape.
* `Draft.hoistMembers_shares`: hoisting renders a shape.
* `Draft.fillAll_shares`: filling in.
-/

namespace RouteStubs

/-- All keys are free. -/
def FreeKeys.all : FreeKeys := ⟨fun _ => True, fun h _ => h⟩

namespace Draft

open Registry Shape Value

variable {document : Value} {roots : Value → Prop} {d d' : Draft} {id : String} {node : Shape}

/-! ### Hoisting -/

/-- Hoisting anywhere, with no condition on the handles inside what is filled in. -/
abbrev HoistsAny {α : Type} (document : Value) (d : Draft) (step : Step Draft α)
    (Q : α → Draft → Prop) : Prop :=
  HoistsTo .all document (fun _ => True) d step Q

theorem hoistsAny_ofExcept {α : Type} {outcome : Except Fault α} (hp : Fault.Plain outcome)
    (hs : d.Shared roots) :
    HoistsAny document d (Step.ofExcept outcome) fun a d' => d'.Shared roots ∧ outcome = .ok a :=
  fun hd => Step.ends_ofExcept.mpr ⟨fun _ ha => ⟨.refl d, hd, .refl _ _ d, hs, ha⟩, hp⟩

/-- What hoisting makes of a shape, wherever it stands. -/
theorem hoistMembers_makes (node : Shape) (name key : String) (d : Draft) :
    HoistsAny document d (hoistMembers node name key) fun made d' =>
      d'.Makes (fun _ => True) node made :=
  hoistMembers_hoists node name key d (fun _ _ => trivial) (.inl trivial)

/-- What placing a shape comes to is all that has to be known of it, for it hoists. -/
theorem hoistsAny_place {name key : String} {Q : Shape → Draft → Prop}
    (h : d.Drafted .all document →
      (place node name key (hoistMembers node)).Ends d Q fun _ _ => True) :
    HoistsAny document d (place node name key (hoistMembers node)) Q := by
  intro hd
  have hplace := place_hoists (fun name key d _ => hoistMembers_makes node name key d) name key d
    (.inl trivial) hd
  apply (hplace.and (h hd)).imp
  · rintro placed d' ⟨⟨hh, hd', ha, -⟩, hq⟩
    exact ⟨hh, hd', ha, hq⟩
  · rintro fault _ ⟨hfault, -⟩
    exact hfault

/-- A record with fields gets a declaration that renders it, if its mapping has none, and the handle of
the declaration takes its place. -/
theorem place_shares
    (hr : ∀ name key d, node.Throughout (d.Sprung roots) → d.Shared roots →
      HoistsAny document d (hoistMembers node name key) fun made d' =>
        d'.Shared roots ∧ d'.Renders node made)
    (name key : String) (d : Draft) (hw : node.Throughout (d.Sprung roots)) (hs : d.Shared roots) :
    HoistsAny document d (place node name key (hoistMembers node)) fun placed d' =>
      d'.Shared roots ∧ d'.RendersInside node placed := by
  refine hoistsAny_place fun hd => ?_
  refine place_ends ?shared ?own ?flat
  case shared =>
    rintro f fields trailer description source id rfl hsource
    exact ⟨hs, .handle (not_flat_iff.mpr ⟨_, _, _, _, _, rfl⟩) hsource⟩
  case own =>
    rintro f fields trailer description source id rfl hsource hnext
    obtain ⟨s, rfl, -⟩ := hw.self _ _ _ _ rfl
    have fresh := hnext.notMem_taken
    have hopen := grows_opened fresh hsource key description
    have hd₁ := hd.of_opened fresh hsource key description
    -- what is inside the record is hoisted while its mapping is claimed and nothing is filled in
    apply (hr id key (d.opened id key description (some s))
      (hw.imp fun _ => Sprung.mono hopen hd.chain)
      (hs.of_opened hd fresh hsource key description) hd₁).forget
    rintro filled d' ⟨hh, hd', -, hs', hrenders⟩
    have hgrows := hopen.trans (hh.grows hd₁)
    have hg₁ : ⟨id, key, .inline⟩ ∈ (d.opened id key description (some s)).registry.given := by simp
    have hnone : d'.nodes.lookup id = none := by
      rw [hh.nodes _ hg₁, nodes_opened, lookup_nodes_of_fresh hd fresh]
    have hclaim : (d.opened id key description (some s)).bySource.lookup s = some id := by
      rw [bySource_opened hsource, if_pos rfl]
    exact ⟨.of_closed hd fresh hsource hh hd' hs' rfl
        (hw.imp fun _ => Sprung.mono hgrows hd.chain) hrenders,
      .handle (not_flat_iff.mpr ⟨_, _, _, _, _, rfl⟩)
        ((hh.grows hd₁).trans (grows_fill hnone filled) |>.sources s id hclaim)⟩
  case flat =>
    intro hflat
    apply (hr name key d hw hs hd).forget
    rintro placed d' ⟨-, -, -, hs', hrenders⟩
    exact ⟨hs', .parts hflat hrenders⟩

mutual

theorem hoistMembers_shares : ∀ (node : Shape) (name key : String) (d : Draft),
    node.Throughout (d.Sprung roots) → d.Shared roots →
      HoistsAny document d (hoistMembers node name key) fun made d' =>
        d'.Shared roots ∧ d'.Renders node made
  | .record fields trailer description source, name, key, d, hw, hs => by
    obtain ⟨hwf, hwt⟩ := below_record.mp hw.below
    simp only [hoistMembers]
    intro hd
    refine ((hoistFields_shares fields name key d hwf hs).bind fun fields' d₁ hf₁ hfields => ?_) hd
    have hwt₁ : ∀ tail, trailer = some tail → tail.Throughout (d₁.Sprung roots) := fun tail ht =>
      (hwt tail ht).imp fun _ => Sprung.mono hf₁.grows hd.chain
    refine (hoistTrailer_shares trailer name key d₁ hwt₁ hfields.1).bind
      fun trailer' d₂ hf₂ htrailer => ?_
    exact hoistsTo_pure ⟨htrailer.1, .record (mirrorsFields_mono hf₂.grows hfields.2) htrailer.2⟩
  | .array element, name, key, d, hw, hs => by
    simp only [hoistMembers]
    refine (place_shares (fun name key d => hoistMembers_shares element name key d) _ _ d
      (below_array.mp hw.below) hs).map fun element' d' he => ?_
    exact ⟨he.1, .array he.2⟩
  | .union variants discriminator, name, key, d, hw, hs => by
    simp only [hoistMembers]
    intro hd
    refine (hoistsTo_get ((hoistsAny_ofExcept (plain_settled variants discriminator d.progress)
      hs).bind fun settled d₁ hf₁ hsettled => ?_)) hd
    have hw₁ : ∀ v ∈ variants, v.Throughout (d₁.Sprung roots) := fun v hv =>
      (below_union.mp hw.below v hv).imp fun _ => Sprung.mono hf₁.grows hd.chain
    refine (hoistVariants_shares settled 0 variants name key d₁ hw₁ hsettled.1).bind
      fun variants' d₂ hf₂ hvariants => ?_
    have hdefinitions := (hf₁.grows.trans hf₂.grows).definitions
    exact hoistsTo_pure
      ⟨hvariants.1, .union ⟨d.progress, hdefinitions, hsettled.2⟩ hvariants.2⟩
  | .primitive kind format, _, _, d, _, hs => hoistsTo_pure ⟨hs, .leaf trivial⟩
  | .enum values, _, _, d, _, hs => hoistsTo_pure ⟨hs, .leaf trivial⟩
  | .handle target, _, _, d, _, hs => hoistsTo_pure ⟨hs, .leaf trivial⟩
  | .unknown, _, _, d, _, hs => hoistsTo_pure ⟨hs, .leaf trivial⟩

theorem hoistFields_shares : ∀ (fields : List (Field Shape)) (name key : String) (d : Draft),
    (∀ f ∈ fields, f.node.Throughout (d.Sprung roots)) → d.Shared roots →
      HoistsAny document d (hoistFields fields name key) fun placed d' =>
        d'.Shared roots ∧ MirrorsFields d'.Claims d'.Settles fields placed
  | [], _, _, _, _, hs => by
    simp only [hoistFields]
    exact hoistsTo_pure ⟨hs, .nil⟩
  | ⟨field, node, required, description⟩ :: rest, name, key, d, hw, hs => by
    obtain ⟨hwn, hwr⟩ := List.forall_mem_cons.mp hw
    simp only [hoistFields]
    intro hd
    refine ((hoistsAny_ofExcept (Name.plain_typeStyle field "Field") hs).bind
      fun word d₁ hf₁ hword => ?_) hd
    refine (place_shares (fun name key d => hoistMembers_shares node name key d) _ _ d₁
      (hwn.imp fun _ => Sprung.mono hf₁.grows hd.chain) hword.1).bind fun node' d₂ hf₂ hnode => ?_
    have hwr₂ : ∀ f ∈ rest, f.node.Throughout (d₂.Sprung roots) := fun f hf =>
      (hwr f hf).imp fun _ => Sprung.mono (hf₁.grows.trans hf₂.grows) hd.chain
    refine (hoistFields_shares rest name key d₂ hwr₂ hnode.1).bind fun rest' d₃ hf₃ hrest => ?_
    exact hoistsTo_pure ⟨hrest.1, .cons (hnode.2.mono hf₃.grows) hrest.2⟩

theorem hoistTrailer_shares : ∀ (trailer : Option Shape) (name key : String) (d : Draft),
    (∀ node, trailer = some node → node.Throughout (d.Sprung roots)) → d.Shared roots →
      HoistsAny document d (hoistTrailer trailer name key) fun placed d' =>
        d'.Shared roots ∧ MirrorsTrailer d'.Claims d'.Settles trailer placed
  | none, _, _, _, _, hs => by
    simp only [hoistTrailer]
    exact hoistsTo_pure ⟨hs, .none⟩
  | some node, name, key, d, hw, hs => by
    simp only [hoistTrailer]
    refine (place_shares (fun name key d => hoistMembers_shares node name key d) _ _ d
      (hw node rfl) hs).map fun node' d' hn => ?_
    exact ⟨hn.1, .some hn.2⟩

theorem hoistVariants_shares : ∀ (discriminator : Option String) (index : Nat)
    (variants : List Shape) (name key : String) (d : Draft),
    (∀ v ∈ variants, v.Throughout (d.Sprung roots)) → d.Shared roots →
      HoistsAny document d (hoistVariants discriminator index variants name key) fun placed d' =>
        d'.Shared roots ∧ MirrorsVariants d'.Claims d'.Settles variants placed
  | _, _, [], _, _, _, _, hs => by
    simp only [hoistVariants]
    exact hoistsTo_pure ⟨hs, .nil⟩
  | discriminator, index, node :: rest, name, key, d, hw, hs => by
    obtain ⟨hwn, hwr⟩ := List.forall_mem_cons.mp hw
    simp only [hoistVariants]
    intro hd
    refine (hoistsTo_get ((hoistsAny_ofExcept
      (plain_variantSuffix d.progress.definitions discriminator node index) hs).bind
        fun suffix d₁ hf₁ hsuffix => ?_)) hd
    refine (place_shares (fun name key d => hoistMembers_shares node name key d) _ _ d₁
      (hwn.imp fun _ => Sprung.mono hf₁.grows hd.chain) hsuffix.1).bind fun node' d₂ hf₂ hnode => ?_
    have hwr₂ : ∀ v ∈ rest, v.Throughout (d₂.Sprung roots) := fun v hv =>
      (hwr v hv).imp fun _ => Sprung.mono (hf₁.grows.trans hf₂.grows) hd.chain
    refine (hoistVariants_shares discriminator (index + 1) rest name key d₂ hwr₂ hnode.1).bind
      fun rest' d₃ hf₃ hrest => ?_
    exact hoistsTo_pure ⟨hrest.1, .cons (hnode.2.mono hf₃.grows) hrest.2⟩

end

/-! ### Filling in -/

section FillingIn

variable (hdoc : roots document)
include hdoc

/-- A reference whose definition is known is filled in with what renders it. -/
theorem fill_shares (hd : d.Drafted .all document) (hs : d.Shared roots) {g : Given}
    (hg : g ∈ d.registry.given) (ho : g.origin = .schema) (hnone : d.nodes.lookup g.id = none)
    (hdef : d.progress.definitions.find? g.id = some node) :
    (hoistMembers node g.id g.key).Ends d
      (fun made d' => (fill g.id made d').Shared roots ∧
        d.registry.Grows (·.origin = .inline) d'.registry)
      fun _ _ => True := by
  apply (hoistMembers_shares node g.id g.key d (sprung_definition hdoc hd.walked hdef) hs hd).forget
  rintro made d' ⟨hh, hd₁, -, hs', hr⟩
  have hnone' : d'.nodes.lookup g.id = none := by rw [hh.nodes g hg, hnone]
  have hdef' : d'.progress.definitions.find? g.id = some node := by
    rw [(hh.fills hd).find?_eq, hdef]
  exact ⟨hs'.of_fill hd₁ (hh.given hg) ho hnone' hdef' hr, hh.registry⟩

theorem fillPending_shares (names : List Given) (hd : d.Drafted .all document) (hs : d.Shared roots)
    (hf : d.Full) (hn : ∀ g ∈ names, g ∈ d.registry.given) :
    (fillPending names).Ends d
      (fun _ d' => d'.Shared roots ∧ d.registry.Grows (·.origin = .inline) d'.registry)
      fun _ _ => True := by
  let I : Draft → Prop := fun d' => d'.Shared roots ∧ d.registry.Grows (·.origin = .inline) d'.registry
  apply (fillPending_keeps (I := I) names hd hf hn ⟨hs, .refl⟩ ?fill ?describe).forget
  case fill =>
    rintro g - d₁ definition - hd₁ ⟨hs₁, hr₁⟩ hg ho hnone hdef
    apply (fill_shares hdoc hd₁ hs₁ hg ho hnone hdef).imp_ok
    rintro made d₂ ⟨hs₂, hr₂⟩
    exact ⟨hs₂, hr₁.trans hr₂⟩
  case describe => exact fun d₁ id description h => ⟨h.1.of_describe id description, h.2⟩
  rintro _ d' ⟨-, -, -, -, hi⟩
  exact hi

/-- Filling in makes a draft ready, and what it fills in and declares renders definitions. Only records
inside shapes get names on the way. -/
theorem fillAll_shares (hd : d.Drafted .all document) (hs : d.Shared roots) (hf : d.Full) :
    fillAll.Ends d
      (fun _ d' => d.Fills d' ∧ d'.Ready .all document ∧ d'.Shared roots ∧
        d.registry.Grows (·.origin = .inline) d'.registry)
      fun _ _ => True := by
  have hshares : fillAll.Ends d
      (fun _ d' => d'.Shared roots ∧ d.registry.Grows (·.origin = .inline) d'.registry)
      fun _ _ => True := fillPending_shares hdoc d.registry.given hd hs hf fun _ h => h
  apply ((fillAll_ready hd hf).and hshares).forget
  rintro _ d' ⟨⟨hfills, hready, -⟩, hshared⟩
  exact ⟨hfills, hready, hshared⟩

end FillingIn

end Draft

end RouteStubs
