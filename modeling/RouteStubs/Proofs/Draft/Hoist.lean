import RouteStubs.Proofs.Draft.Shown

/-!
# Hoisting places shapes

Hoisting goes through a shape and gives each record in it a declaration. It keeps the invariant, it
changes nothing but the new names, and what it gives is the shape with its parts placed. The heart is
a record that gets a declaration of its own: the declaration is opened under a fresh name before
what the record is made of is placed, and it is filled in afterwards.

## Main statements

* `Draft.bySource_claim`: what a mapping has for a declaration.
* `Draft.Drafted.of_opened`, `Draft.Drafted.of_closed`: a declaration before and after it is filled in.
* `Draft.place_ends`: placing a shape, from placing its parts.
* `Draft.place_hoists`: what takes the place of a shape.
* `Draft.hoistMembers_hoists`: hoisting places a shape.
-/

namespace RouteStubs.Draft

variable {free : FreeKeys} {document : Value} {d d' : Draft} {id key : String}
  {source : Option Source}

/-! ### The declaration of a mapping -/

@[simp] theorem progress_claim (source : Option Source) (id : String) (d : Draft) :
    (claim source id d).progress = d.progress := by
  unfold claim
  split
  · rfl
  · split <;> rfl

@[simp] theorem registry_claim (source : Option Source) (id : String) (d : Draft) :
    (claim source id d).registry = d.registry :=
  congrArg Progress.names (progress_claim source id d)

@[simp] theorem nodes_claim (source : Option Source) (id : String) (d : Draft) :
    (claim source id d).nodes = d.nodes := by
  unfold claim
  split
  · rfl
  · split <;> rfl

/-- A mapping keeps the declaration that it has. -/
theorem bySource_claim (source : Option Source) (id : String) (d : Draft) (s : Source) :
    (claim source id d).bySource.lookup s =
      (d.bySource.lookup s).or (if source = some s then some id else none) := by
  unfold claim
  cases source with
  | none => simp
  | some t =>
    by_cases ht : t = s
    · subst ht
      cases h : d.bySource.lookup t <;> simp [h, List.lookup_append]
    · have hlast : [(t, id)].lookup s = none := by
        simp [List.lookup_cons, beq_eq_false_iff_ne.mpr (Ne.symm ht)]
      dsimp only
      split <;> simp [List.lookup_append, hlast, ht]

/-! ### A declaration of its own -/

/-- The draft after a record got a name for its declaration. -/
def opened (d : Draft) (id key description : String) (source : Option Source) : Draft :=
  (claim source id
    { d with progress := { d.progress with names := d.registry.add ⟨id, key, .inline⟩ } }).describe
      id description

@[simp] theorem progress_opened (d : Draft) (id key description : String) (source : Option Source) :
    (d.opened id key description source).progress =
      { d.progress with names := d.registry.add ⟨id, key, .inline⟩ } :=
  progress_claim _ _ _

@[simp] theorem registry_opened (d : Draft) (id key description : String)
    (source : Option Source) :
    (d.opened id key description source).registry = d.registry.add ⟨id, key, .inline⟩ :=
  registry_claim _ _ _

@[simp] theorem nodes_opened (d : Draft) (id key description : String) (source : Option Source) :
    (d.opened id key description source).nodes = d.nodes :=
  nodes_claim _ _ _

/-- What is declared for a mapping once a record has a name. -/
theorem bySource_opened (hs : d.ofSource? source = none) (key description : String) (s : Source) :
    (d.opened id key description source).bySource.lookup s =
      if source = some s then some id else d.bySource.lookup s := by
  refine (bySource_claim source id _ s).trans ?_
  split
  · next h =>
    subst h
    have hnone : d.bySource.lookup s = none := hs
    rw [hnone, Option.none_or]
  · rw [Option.or_none]

theorem notMem_of_fresh (hf : id ∉ d.registry.taken) {g : Given} (hg : g ∈ d.registry.given) :
    g.id ≠ id := by
  rintro rfl
  exact hf (List.mem_append_right _ (List.mem_map_of_mem hg))

theorem lookup_nodes_of_fresh (hd : d.Drafted free document) (hf : id ∉ d.registry.taken) :
    d.nodes.lookup id = none := by
  rw [Option.eq_none_iff_forall_ne_some]
  intro filled hl
  obtain ⟨g, hg, hid, -⟩ := hd.filled id filled hl
  exact notMem_of_fresh hf hg hid

theorem lookup_bySource_of_fresh (hd : d.Drafted free document) (hf : id ∉ d.registry.taken)
    (s : Source) : d.bySource.lookup s ≠ some id := by
  intro hl
  obtain ⟨g, hg, hid, -⟩ := hd.claims s id hl
  exact notMem_of_fresh hf hg hid

theorem grows_opened (hf : id ∉ d.registry.taken) (hs : d.ofSource? source = none)
    (key description : String) : d.Grows (d.opened id key description source) where
  registry := by
    rw [registry_opened]
    exact .add .refl hf trivial fun horigin => by cases horigin
  document_eq := by simp [Draft.document]
  definitions := by simp
  nodes _ _ hn := by rwa [nodes_opened]
  sources s id' hl := by
    rw [bySource_opened hs]
    split
    · next h =>
      subst h
      exact absurd (hs.symm.trans hl) (by simp)
    · exact hl

theorem Drafted.of_opened (hd : d.Drafted free document) (hf : id ∉ d.registry.taken)
    (hs : d.ofSource? source = none) (key description : String) :
    (d.opened id key description source).Drafted free document := by
  have hg := grows_opened hf hs key description
  have hadd : d.registry.Grows (fun _ => True) (d.registry.add ⟨id, key, .inline⟩) :=
    .add .refl hf trivial fun horigin => by cases horigin
  refine ⟨?_, by simpa using hd.chain, fun id' filled hl => ?_, fun s id' hl => ?_⟩
  · rw [progress_opened]
    exact hd.walked.of_grows hadd hd.chain
  · rw [nodes_opened] at hl
    obtain ⟨g, hgm, hid, hsaid⟩ := hd.filled id' filled hl
    exact ⟨g, hg.given hgm, hid, hsaid.mono hg⟩
  · rw [bySource_opened hs] at hl
    split at hl
    · cases hl
      refine ⟨⟨id, key, .inline⟩, by simp, rfl, .inr ⟨rfl, fun filled hfill => ?_⟩⟩
      rw [nodes_opened, lookup_nodes_of_fresh hd hf] at hfill
      cases hfill
    · exact (hd.claims s id' hl).mono hg (by rw [nodes_opened])

/-! ### Filling in -/

theorem lookup_nodes_fill_of_ne {other : String} (h : other ≠ id) (filled : Shape) (d : Draft) :
    (fill id filled d).nodes.lookup other = d.nodes.lookup other :=
  Keyed.lookup_put_of_ne filled h

@[simp] theorem lookup_nodes_fill (id : String) (filled : Shape) (d : Draft) :
    (fill id filled d).nodes.lookup id = some filled :=
  Keyed.lookup_put_self _ _ _

theorem grows_fill (hn : d.nodes.lookup id = none) (filled : Shape) :
    d.Grows (fill id filled d) where
  registry := .refl
  document_eq := rfl
  definitions := List.prefix_refl _
  nodes other node hl := by
    rw [lookup_nodes_fill_of_ne (by rintro rfl; rw [hn] at hl; cases hl), hl]
  sources _ _ h := h

theorem fills_fill (hn : d.nodes.lookup id = none) (filled : Shape) : d.Fills (fill id filled d) :=
  ⟨grows_fill hn filled, rfl, fun _ h => .inl h⟩

/-- A name that has been given is filled in. -/
theorem adds_fill {within : Shape → Prop} {filled : Shape} (hn : d.nodes.lookup id = none)
    (hf : Filled free within d id filled) : Adds free within d (fill id filled d) where
  styled _ hg := .inl hg
  nodes other node hl := by
    by_cases hid : other = id
    · subst hid
      rw [lookup_nodes_fill] at hl
      cases hl
      exact .inr (hf.mono (fills_fill hn filled) fun _ h => h)
    · rw [lookup_nodes_fill_of_ne hid] at hl
      exact .inl hl

/-- A name that is given and not filled in is filled in with what was asked of it. -/
theorem Drafted.of_fill (hd : d.Drafted free document) {g : Given} {filled : Shape}
    (hg : g ∈ d.registry.given) (hn : d.nodes.lookup g.id = none) (hsaid : d.Says free g filled)
    (hclaim : ∀ s, d.bySource.lookup s = some g.id → (fill g.id filled d).ClaimedFor s g.id) :
    (fill g.id filled d).Drafted free document := by
  have hgrows := grows_fill hn filled
  refine ⟨hd.walked, hd.chain, fun id node hl => ?_, fun s id hl => ?_⟩
  -- the name itself says what it was asked, and other names say what they said
  · by_cases hid : id = g.id
    · subst hid
      rw [lookup_nodes_fill] at hl
      cases hl
      exact ⟨g, hg, rfl, hsaid.mono hgrows⟩
    · rw [lookup_nodes_fill_of_ne hid] at hl
      obtain ⟨g', hg', hid', hsaid'⟩ := hd.filled id node hl
      exact ⟨g', hg', hid', hsaid'.mono hgrows⟩
  · by_cases hid : id = g.id
    · subst hid
      exact hclaim s hl
    · exact (hd.claims s id hl).mono hgrows (lookup_nodes_fill_of_ne hid filled d)

section Closed

variable {f : Field Shape} {fields : List (Field Shape)} {trailer : Option Shape}
  {description : String} {filled : Shape}

/-- The declaration that was opened for a record is filled in with what the record is made of. -/
theorem Drafted.of_closed (hd : d.Drafted free document) (fresh : id ∉ d.registry.taken)
    (hs : d.ofSource? source = none)
    (hk : d.Hoisted free (.record (f :: fields) trailer description source) key)
    (hh : (d.opened id key description source).Hoists d') (hd' : d'.Drafted free document)
    (hp : d'.Placed (.record (f :: fields) trailer description source) filled) :
    d.Grows (fill id filled d') ∧ (fill id filled d').Drafted free document ∧
      (fill id filled d').Placed (.record (f :: fields) trailer description source) filled := by
  have hgrows : d.Grows d' :=
    (grows_opened fresh hs key description).trans (hh.grows (hd.of_opened fresh hs key description))
  let g : Given := ⟨id, key, .inline⟩
  have hg₁ : g ∈ (d.opened id key description source).registry.given := by simp [g]
  have hn : d'.nodes.lookup g.id = none := by
    rw [hh.nodes g hg₁, nodes_opened, lookup_nodes_of_fresh hd fresh]
  have hfill := grows_fill hn filled
  refine ⟨hgrows.trans hfill, ?_, hp.mono hfill⟩
  refine hd'.of_fill (hh.given hg₁) hn ⟨_, hk.mono hgrows, hp⟩ fun s hl => ?_
  -- only this record can have claimed a mapping for a name that was not taken before
  have hl₁ := hh.earlier s g hg₁ hl
  rw [bySource_opened hs] at hl₁
  split at hl₁
  · next hsource =>
    subst hsource
    refine ⟨g, hh.given hg₁, rfl, .inr ⟨rfl, fun filled' hl' => ?_⟩⟩
    rw [lookup_nodes_fill] at hl'
    cases hl'
    exact ⟨_, _, _, hp.mono hfill⟩
  · exact absurd hl₁ (lookup_bySource_of_fresh hd fresh s)

theorem hoists_closed (fresh : id ∉ d.registry.taken)
    (hs : d.ofSource? source = none) (hgrows : d.Grows (fill id filled d'))
    (hh : (d.opened id key description source).Hoists d') : d.Hoists (fill id filled d') where
  registry := by
    have hadd : d.registry.Grows (·.origin = .inline) (d.registry.add ⟨id, key, .inline⟩) :=
      .add .refl fresh rfl fun horigin => by cases horigin
    refine hadd.trans ?_
    rw [← registry_opened d id key description source]
    exact hh.registry
  progress := by
    have hp := hh.progress
    rw [progress_opened] at hp
    exact hp
  nodes g hg := by
    rw [lookup_nodes_fill_of_ne (notMem_of_fresh fresh hg), hh.nodes g (by simp [hg]), nodes_opened]
  filled g hg := by
    rcases hh.filled g hg with hg' | hf
    · rw [registry_opened, Registry.given_add, List.mem_append, List.mem_singleton] at hg'
      rcases hg' with hg' | rfl
      · exact .inl hg'
      · exact .inr (by simp)
    · -- filling in the record leaves what was filled in under other names
      right
      by_cases hid : g.id = id
      · simp [hid]
      · rwa [lookup_nodes_fill_of_ne hid]
  sources := hgrows.sources
  earlier s g hg hl := by
    -- the mapping was claimed for a name that is not new, so it was claimed before
    have hl₁ := hh.earlier s g (by simp [hg]) hl
    rw [bySource_opened hs] at hl₁
    split at hl₁
    · cases hl₁
      exact absurd rfl (notMem_of_fresh fresh hg)
    · exact hl₁

end Closed

theorem adds_opened (within : Shape → Prop) (styled : Name.Styled id) (key description : String)
    (source : Option Source) : Adds free within d (d.opened id key description source) where
  styled g hg := by
    rw [registry_opened, Registry.given_add, List.mem_append, List.mem_singleton] at hg
    rcases hg with hg | rfl
    · exact .inl hg
    · exact .inr styled
  nodes other node hn := .inl (by rwa [nodes_opened] at hn)

/-! ### Ways of putting hoisting together -/

section HoistsTo

variable {α β : Type} {within : Shape → Prop} {step : Step Draft α} {Q : α → Draft → Prop}
  {R : β → Draft → Prop}

variable (free document) in
/-- A step that only hoists keeps the invariant and has this outcome. What it fills in comes from
shapes that are `within`. -/
def HoistsTo (within : Shape → Prop) (d : Draft) (step : Step Draft α) (Q : α → Draft → Prop) :
    Prop :=
  d.Drafted free document →
    step.Ends d (fun a d' => d.Hoists d' ∧ d'.Drafted free document ∧ Adds free within d d' ∧ Q a d')
      fun fault _ => fault.isSelfReferring = false

theorem hoistsTo_pure {a : α} (h : Q a d) : HoistsTo free document within d (pure a) Q :=
  fun hd => ⟨.refl d, hd, .refl free within d, h⟩

theorem hoistsTo_ofExcept {outcome : Except Fault α} (hp : Fault.Plain outcome) :
    HoistsTo free document within d (Step.ofExcept outcome) fun a _ => outcome = .ok a := fun hd =>
  Step.ends_ofExcept.mpr ⟨fun _ ha => ⟨.refl d, hd, .refl free within d, ha⟩, hp⟩

/-- A step that looks at the draft first. -/
theorem hoistsTo_get {next : Draft → Step Draft α}
    (h : HoistsTo free document within d (next d) Q) :
    HoistsTo free document within d (get >>= next) Q := h

theorem HoistsTo.bind {next : α → Step Draft β} (h : HoistsTo free document within d step Q)
    (hn : ∀ a d', d.Fills d' → Q a d' → HoistsTo free document within d' (next a) R) :
    HoistsTo free document within d (step >>= next) R := by
  intro hd
  rw [Step.ends_bind]
  apply (h hd).imp_ok
  rintro a d' ⟨hh, hd', ha, hq⟩
  apply (hn a d' (hh.fills hd) hq hd').imp_ok
  rintro _ _ ⟨hh', hd'', ha', hr⟩
  exact ⟨hh.trans hh', hd'', ha.trans ha' (hh'.fills hd'), hr⟩

theorem HoistsTo.map {f : α → β} (h : HoistsTo free document within d step Q)
    (hn : ∀ a d', Q a d' → R (f a) d') : HoistsTo free document within d (f <$> step) R := by
  intro hd
  rw [Step.ends_map]
  apply (h hd).imp_ok
  rintro a d' ⟨hh, hd', ha, hq⟩
  exact ⟨hh, hd', ha, hn a d' hq⟩

end HoistsTo

/-! ### Hoisting -/

section Hoisting

variable {within : Shape → Prop}

variable (within) in
/-- What takes the place of a shape inside another one. -/
structure Takes (d : Draft) (node placed : Shape) : Prop where
  stands : d.Stands node (d.Shows node) placed
  inlaid : Inlaid within d placed

variable (within) in
/-- What hoisting makes of a shape. -/
structure Makes (d : Draft) (node made : Shape) : Prop where
  shows : d.Shows node made
  laid : Laid within d made

theorem Takes.mono {node placed : Shape} (h : d.Fills d') (ht : d.Takes within node placed) :
    d'.Takes within node placed :=
  ⟨ht.stands.mono h.grows fun _ => Shows.mono h node, ht.inlaid.mono h fun _ h => h⟩

/-- Placing a shape inside another one ends as placing its parts does, from one of two drafts. A record with
fields shares the declaration of its mapping if there is one. Otherwise it gets the next name, its parts are
placed from there, and it is filled in. The parts of another shape are placed where it stands. -/
theorem place_ends {node : Shape} {members : String → String → Step Draft Shape} {name : String}
    {Q : Shape → Draft → Prop} {E : Fault → Draft → Prop}
    (shared : ∀ f fields trailer description source id,
      node = .record (f :: fields) trailer description source → d.ofSource? source = some id →
        Q (.handle id) d)
    (own : ∀ f fields trailer description source id,
      node = .record (f :: fields) trailer description source → d.ofSource? source = none →
        d.registry.Next name id →
          (members id key).Ends (d.opened id key description source)
            (fun filled d' => Q (.handle id) (fill id filled d')) E)
    (flat : node.Flat → (members name key).Ends d Q E) :
    (place node name key members).Ends d Q E := by
  unfold place
  split
  · next f fields trailer description source =>
    simp only [Step.ends_bind, Step.ends_get]
    cases hs : d.ofSource? source with
    | some id => exact shared f fields trailer description source id rfl hs
    | none =>
      simp only [onRegistry, onProgress, Progress.onNames, Step.ends_bind, Step.ends_within,
        Step.ends_modify, Step.ends_pure]
      refine (Registry.reserve_ends d.registry key name .inline).imp ?_ fun _ _ h => h.elim
      rintro id _ ⟨hnext, rfl⟩
      exact own f fields trailer description source id rfl hs hnext
  · next hne =>
    refine flat ?_
    rintro fields trailer description source rfl
    cases fields with
    | nil => rfl
    | cons f fields => exact absurd rfl (hne _ _ _ _ _)

theorem place_hoists {node : Shape} {members : String → String → Step Draft Shape}
    (hm : ∀ name key d, d.Hoisted free node key →
      HoistsTo free document within d (members name key) fun placed d' =>
        d'.Makes within node placed)
    (name key : String) (d : Draft) (hk : d.Hoisted free node key) :
    HoistsTo free document within d (place node name key members)
      fun placed d' => d'.Takes within node placed := by
  intro hd
  refine place_ends ?shared ?own ?flat
  case shared =>
    rintro f fields trailer description source id rfl hs
    obtain ⟨s, rfl, hclaim⟩ := Option.bind_eq_some_iff.mp hs
    obtain ⟨g, hg, rfl, -⟩ := hd.claims s id hclaim
    exact ⟨.refl d, hd, .refl free within d, ⟨g.id, rfl, .inl hs⟩, inlaid_handle hg⟩
  case own =>
    rintro f fields trailer description source id rfl hs hnext
    have fresh := hnext.notMem_taken
    have hopen := grows_opened fresh hs key description
    have hd₁ := hd.of_opened fresh hs key description
    -- what is inside the record is hoisted while the record has its name and is not filled in
    apply (hm id key (d.opened id key description source) (hk.mono hopen) hd₁).imp_ok
    rintro filled d' ⟨hh, hd', ha, hmakes⟩
    obtain ⟨hgrows, hclosed, -⟩ := hd.of_closed fresh hs hk hh hd' (hmakes.shows.placed _)
    have hg : ⟨id, key, .inline⟩ ∈ d'.registry.given := hh.given (by simp)
    have hnone : d'.nodes.lookup id = none := by
      rw [hh.nodes ⟨id, key, .inline⟩ (by simp), nodes_opened, lookup_nodes_of_fresh hd fresh]
    have hfills := fills_fill hnone filled
    have hfilled : Filled free within d' id filled :=
      ⟨hmakes.laid, _, hg, rfl, _, .inr ⟨rfl, hk.mono (hopen.trans (hh.grows hd₁))⟩, hmakes.shows⟩
    have hadds := ((adds_opened within hnext.styled key description source).trans ha
      (hh.fills hd₁)).trans (adds_fill hnone hfilled) hfills
    have hstands : (fill id filled d').Stands (.record (f :: fields) trailer description source)
        ((fill id filled d').Shows _) (.handle id) :=
      ⟨id, rfl, .inr ⟨filled, lookup_nodes_fill id filled d', hmakes.shows.mono hfills⟩⟩
    have hgiven : ⟨id, key, .inline⟩ ∈ (fill id filled d').registry.given := hg
    exact ⟨hoists_closed fresh hs hgrows hh, hclosed, hadds, hstands, inlaid_handle hgiven⟩
  case flat =>
    intro hflat
    apply (hm name key d hk hd).imp_ok
    rintro placed d' ⟨hh, hd', ha, hmakes⟩
    refine ⟨hh, hd', ha, ?_, hmakes.laid.inlaid ((hmakes.shows.placed node).flat hflat)⟩
    unfold Stands
    split
    · exact absurd hflat (Shape.not_flat_iff.mpr ⟨_, _, _, _, _, rfl⟩)
    · exact hmakes.shows

theorem Hoisted.at {node inner : Shape} {key key' : String} (h : d.Hoisted free node key)
    (hf : free.Has key → free.Has key')
    (ha : ∀ {root : Shape} {place : String}, root.At place node key → root.At place inner key') :
    d.Hoisted free inner key' := by
  refine h.imp hf ?_
  rintro ⟨g, hg, ho, root, hr, hat⟩
  exact ⟨g, hg, ho, root, hr, ha hat⟩

theorem plain_settled (variants : List Shape) (discriminator : Option String)
    (p : Progress Registry) : Fault.Plain (Canon.settled variants discriminator p) := by
  unfold Canon.settled
  split
  · exact Fault.plain_ok _
  · split
    · exact Fault.plain_error rfl
    · split <;> exact Fault.plain_ok _

theorem plain_variantSuffix (definitions : Definitions) (discriminator : Option String)
    (variant : Shape) (index : Nat) :
    Fault.Plain (variantSuffix definitions discriminator variant index) := by
  unfold variantSuffix
  dsimp only
  split
  · split
    · exact Fault.plain_ok _
    · split
      · exact Name.plain_typeStyle _ _
      · exact Fault.plain_ok _
  · exact Fault.plain_ok _

mutual

theorem hoistMembers_hoists : ∀ (node : Shape) (name key : String) (d : Draft),
    node.Throughout within → d.Hoisted free node key →
      HoistsTo free document within d (hoistMembers node name key)
        fun placed d' => d'.Makes within node placed
  | .record fields trailer description source, name, key, d, hw, hk => by
    obtain ⟨hwf, hwt⟩ := Shape.below_record.mp hw.below
    simp only [hoistMembers]
    refine (hoistFields_hoists fields name key d hwf fun f hf => ?_).bind
      fun fields' d₁ hf₁ hfields => ?_
    · exact hk.at (fun h => free.append (free.append h _) _) fun ha => ha.field hf
    refine (hoistTrailer_hoists trailer name key d₁ hwt ?_).bind fun trailer' d₂ hf₂ htrailer => ?_
    · rintro node rfl
      exact (hk.mono hf₁.grows).at (free.append · _) .further
    exact hoistsTo_pure ⟨⟨fields', trailer', hfields.1.mono hf₂, htrailer.1, rfl⟩,
      laid_record (fun f hf => (hfields.2 f hf).mono hf₂ fun _ h => h) htrailer.2⟩
  | .array element, name, key, d, hw, hk => by
    simp only [hoistMembers]
    refine (place_hoists (fun name key d => hoistMembers_hoists element name key d
      (Shape.below_array.mp hw.below)) _ _ d ?_).map fun element' d' he =>
        ⟨⟨element', he.stands, rfl⟩, laid_array he.inlaid⟩
    exact hk.at (free.append · _) .element
  | .union variants discriminator, name, key, d, hw, hk => by
    simp only [hoistMembers]
    refine hoistsTo_get ((hoistsTo_ofExcept (plain_settled variants discriminator d.progress)).bind
      fun settled d₁ hf₁ hs => ?_)
    refine (hoistVariants_hoists settled 0 variants name key d₁ (Shape.below_union.mp hw.below)
      fun i node hi => ?_).bind fun variants' d₂ hf₂ hvariants => ?_
    · rw [Nat.zero_add]
      exact (hk.mono hf₁.grows).at (fun h => free.append (free.append h _) _) fun ha =>
        ha.variant hi
    -- what the variants add changes no definition, so the discriminator is still the settled one
    have hf := hf₁.trans hf₂
    exact hoistsTo_pure ⟨⟨variants', settled, by rw [hf.settled, hs], hvariants.1, rfl⟩,
      laid_union settled hvariants.2⟩
  | .primitive kind format, _, _, d, _, _ => hoistsTo_pure ⟨rfl, laid_of_isLeaf trivial nofun⟩
  | .enum values, _, _, d, _, _ => hoistsTo_pure ⟨rfl, laid_of_isLeaf trivial nofun⟩
  | .handle target, _, _, d, hw, _ =>
    hoistsTo_pure ⟨rfl, laid_of_isLeaf trivial fun _ hid => .inl (hid ▸ hw.self)⟩
  | .unknown, _, _, d, _, _ => hoistsTo_pure ⟨rfl, laid_of_isLeaf trivial nofun⟩

theorem hoistFields_hoists : ∀ (fields : List (Field Shape)) (name key : String) (d : Draft),
    (∀ f ∈ fields, f.node.Throughout within) →
    (∀ f ∈ fields, d.Hoisted free f.node (key ++ "/properties/" ++ f.name)) →
      HoistsTo free document within d (hoistFields fields name key) fun placed d' =>
        d'.ShowsFields fields placed ∧ ∀ f ∈ placed, Inlaid within d' f.node
  | [], _, _, _, _, _ => by
    simp only [hoistFields]
    exact hoistsTo_pure ⟨rfl, List.forall_mem_nil _⟩
  | ⟨field, node, required, description⟩ :: rest, name, key, d, hw, hk => by
    obtain ⟨hwn, hwr⟩ := List.forall_mem_cons.mp hw
    simp only [hoistFields]
    refine (hoistsTo_ofExcept (Name.plain_typeStyle field "Field")).bind fun word d₁ hf₁ _ => ?_
    refine (place_hoists (fun name key d => hoistMembers_hoists node name key d hwn) _ _ d₁ ?_).bind
      fun node' d₂ hf₂ hnode => ?_
    · exact (hk _ List.mem_cons_self).mono hf₁.grows
    refine (hoistFields_hoists rest name key d₂ hwr fun f hf => ?_).bind
      fun rest' d₃ hf₃ hrest => ?_
    · exact ((hk f (List.mem_cons_of_mem _ hf)).mono hf₁.grows).mono hf₂.grows
    have hnode := hnode.mono hf₃
    exact hoistsTo_pure ⟨⟨node', rest', hnode.stands, hrest.1, rfl⟩,
      List.forall_mem_cons.mpr ⟨hnode.inlaid, hrest.2⟩⟩

theorem hoistTrailer_hoists : ∀ (trailer : Option Shape) (name key : String) (d : Draft),
    (∀ node, trailer = some node → node.Throughout within) →
    (∀ node, trailer = some node → d.Hoisted free node (key ++ "/additionalProperties")) →
      HoistsTo free document within d (hoistTrailer trailer name key) fun placed d' =>
        d'.ShowsTrailer trailer placed ∧ ∀ tail, placed = some tail → Inlaid within d' tail
  | none, _, _, _, _, _ => by
    simp only [hoistTrailer]
    refine hoistsTo_pure ⟨rfl, ?_⟩
    rintro _ ⟨⟩
  | some node, name, key, d, hw, hk => by
    simp only [hoistTrailer]
    refine (place_hoists (fun name key d => hoistMembers_hoists node name key d (hw node rfl)) _ _ d
      (hk node rfl)).map fun node' d' hn => ⟨⟨node', hn.stands, rfl⟩, ?_⟩
    rintro _ ⟨⟩
    exact hn.inlaid

theorem hoistVariants_hoists : ∀ (discriminator : Option String) (index : Nat)
    (variants : List Shape) (name key : String) (d : Draft),
    (∀ v ∈ variants, v.Throughout within) →
    (∀ i node, variants[i]? = some node →
      d.Hoisted free node (key ++ "/oneOf/" ++ toString (index + i))) →
      HoistsTo free document within d (hoistVariants discriminator index variants name key)
        fun placed d' => d'.ShowsVariants variants placed ∧ ∀ v ∈ placed, Inlaid within d' v
  | _, _, [], _, _, _, _, _ => by
    simp only [hoistVariants]
    exact hoistsTo_pure ⟨rfl, List.forall_mem_nil _⟩
  | discriminator, index, node :: rest, name, key, d, hw, hk => by
    obtain ⟨hwn, hwr⟩ := List.forall_mem_cons.mp hw
    simp only [hoistVariants]
    refine hoistsTo_get ((hoistsTo_ofExcept
      (plain_variantSuffix d.progress.definitions discriminator node index)).bind
        fun suffix d₁ hf₁ _ => ?_)
    refine (place_hoists (fun name key d => hoistMembers_hoists node name key d hwn) _ _ d₁ ?_).bind
      fun node' d₂ hf₂ hnode => ?_
    · exact (hk 0 node rfl).mono hf₁.grows
    refine (hoistVariants_hoists discriminator (index + 1) rest name key d₂ hwr
      fun i v hi => ?_).bind fun rest' d₃ hf₃ hrest => ?_
    · rw [Nat.add_assoc, Nat.add_comm 1 i]
      exact ((hk (i + 1) v hi).mono hf₁.grows).mono hf₂.grows
    have hnode := hnode.mono hf₃
    exact hoistsTo_pure ⟨⟨node', rest', hnode.stands, hrest.1, rfl⟩,
      List.forall_mem_cons.mpr ⟨hnode.inlaid, hrest.2⟩⟩

end

end Hoisting

end RouteStubs.Draft
