import RouteStubs.Proofs.Draft.Hoist
import RouteStubs.Proofs.Nameable

/-!
# The names of variants

A record among the variants of a union is declared under the name of the union with a suffix: the tag
of the record in the style of declarations, or the number of the variant if the union has no
discriminator. A tag has no fallback. So hoisting goes through if throughout the shape the tags of
unions give names, and a union with a tag that gives none is refused.

## Main definitions

* `Draft.Nominal`: the tags of a union give names.
* `Draft.Suffix`: what is put after the name of the union for a variant.
* `Draft.DeclaredUnder`: a record has a declaration with a name that is made from this base.

## Main statements

* `Draft.hoist_isOk`: hoisting goes through if the tags of all unions give names.
* `Draft.hoist_union_names`: the names that the variants of a union get, if their tags give names.
* `Draft.naming_ends`: whether texts, references and variants get names, and which.
-/

namespace RouteStubs.Draft

open Name

variable {d d' d'' : Draft} {id base key name : String} {source : Option Source}
  {definitions : Definitions} {settled : Option String} {index : Nat}

/-! ### Suffixes -/

/-- The tag of a record by the discriminator of its union. A discriminator without a name is none. -/
def tagBy? (definitions : Definitions) (settled : Option String) (fields : List (Field Shape)) :
    Option Scalar :=
  (settled.filter (· != "")).bind fun field => definitions.tag? field fields

/-- What is put after the name of a union for a record among its variants: its tag in the style of
declarations, or its number if it has none. -/
inductive Suffix (definitions : Definitions) (settled : Option String) (fields : List (Field Shape))
    (index : Nat) : String → Prop
  | tag {tag : Scalar} {word : String} (ht : tagBy? definitions settled fields = some tag)
      (hn : Nameable tag.display) (hw : typeStyle tag.display "" = .ok word) :
      Suffix definitions settled fields index word
  | number (ht : tagBy? definitions settled fields = none) :
      Suffix definitions settled fields index ("Option" ++ toString (index + 1))

theorem variantSuffix_record (definitions : Definitions) (settled : Option String)
    (fields : List (Field Shape)) (trailer : Option Shape) (description : String)
    (source : Option Source) (index : Nat) :
    variantSuffix definitions settled (.record fields trailer description source) index =
      match tagBy? definitions settled fields with
      | some tag => typeStyle tag.display ""
      | none => .ok ("Option" ++ toString (index + 1)) := by
  unfold variantSuffix tagBy?
  cases settled with
  | none => rfl
  | some field =>
    by_cases hfield : field = ""
    · subst hfield
      rfl
    · have hne : (field == "") = false := beq_eq_false_iff_ne.mpr hfield
      have hfilter : (some field).filter (· != "") = some field := by
        rw [Option.filter_some, bne, hne, Bool.not_false, if_pos rfl]
      rw [hfilter, Option.bind_some]
      exact if_neg (by rw [hne]; exact Bool.false_ne_true)

/-- What is no record is numbered. -/
theorem variantSuffix_of_not_record {variant : Shape}
    (h : ∀ fields trailer description source, variant ≠ .record fields trailer description source) :
    variantSuffix definitions settled variant index = .ok ("Option" ++ toString (index + 1)) := by
  unfold variantSuffix
  split
  · exact absurd rfl (h _ _ _ _)
  · rfl

/-- The tags of the records among the variants give names. -/
def TagsNameable (definitions : Definitions) (settled : Option String) (variants : List Shape) :
    Prop :=
  ∀ fields trailer description source, .record fields trailer description source ∈ variants →
    ∀ tag, tagBy? definitions settled fields = some tag → Nameable tag.display

/-- If the shape is a union, its discriminator can be told, and its tags give names. -/
def Nominal (p : Progress Registry) (node : Shape) : Prop :=
  ∀ variants discriminator, node = .union variants discriminator →
    ∃ settled, Canon.settled variants discriminator p = .ok settled ∧
      TagsNameable p.definitions settled variants

/-! ### What hoisting leaves as it is -/

/-- The walk has not gone on, but for the names, of which there may be more. Mappings have kept their
declarations. -/
structure Later (d d' : Draft) : Prop where
  progress : ∃ names, d'.progress = { d.progress with names := names }
  reserved : d'.registry.reserved = d.registry.reserved
  given : d.registry.given <+: d'.registry.given
  sources : ∀ s id, d.bySource.lookup s = some id → d'.bySource.lookup s = some id

theorem Later.refl (d : Draft) : d.Later d :=
  ⟨⟨d.progress.names, rfl⟩, rfl, List.prefix_refl _, fun _ _ h => h⟩

theorem Later.trans (h : d.Later d') (h' : d'.Later d'') : d.Later d'' := by
  obtain ⟨names, hp⟩ := h.progress
  obtain ⟨names', hp'⟩ := h'.progress
  exact ⟨⟨names', by rw [hp', hp]⟩, h'.reserved.trans h.reserved, h.given.trans h'.given,
    fun s id hs => h'.sources s id (h.sources s id hs)⟩

theorem Later.definitions_eq (h : d.Later d') : d'.progress.definitions = d.progress.definitions := by
  obtain ⟨names, hp⟩ := h.progress
  rw [hp]

theorem Later.nominal_eq (h : d.Later d') : Nominal d'.progress = Nominal d.progress := by
  obtain ⟨names, hp⟩ := h.progress
  rw [hp]
  rfl

theorem later_fill (id : String) (node : Shape) (d : Draft) : d.Later (fill id node d) :=
  ⟨⟨d.progress.names, rfl⟩, rfl, List.prefix_refl _, fun _ _ h => h⟩

/-- The record has a declaration: that of its mapping, or one under a new name, which is made from the
base and was not taken when it was given. -/
def DeclaredUnder (d : Draft) (source : Option Source) (base key id : String) : Prop :=
  (∃ s, source = some s ∧ d.bySource.lookup s = some id) ∨
    ∃ styled before, typeStyle base "Model" = .ok styled ∧
      id = fresh styled (d.registry.reserved ++ before.map (·.id)) ∧
      before ++ [⟨id, key, .inline⟩] <+: d.registry.given

theorem DeclaredUnder.later (h : d.DeclaredUnder source base key id) (hl : d.Later d') :
    d'.DeclaredUnder source base key id := by
  rcases h with ⟨s, hs, hid⟩ | ⟨styled, before, hname, hid, hgiven⟩
  · exact .inl ⟨s, hs, hl.sources s id hid⟩
  · exact .inr ⟨styled, before, hname, hl.reserved ▸ hid, hgiven.trans hl.given⟩

theorem later_opened (hs : d.ofSource? source = none) (id key description : String) :
    d.Later (d.opened id key description source) where
  progress := ⟨d.registry.add ⟨id, key, .inline⟩, progress_opened d id key description source⟩
  reserved := by rw [registry_opened, Registry.reserved_add]
  given := by
    rw [registry_opened, Registry.given_add]
    exact List.prefix_append _ _
  sources s other hother := by
    rw [bySource_opened hs, if_neg, hother]
    rintro rfl
    cases hs.symm.trans hother

section Place

variable {F : Prop} {node : Shape} {members : String → String → Step Draft Shape}

/-- A record with fields gets a declaration or shares one. -/
theorem place_declares
    (hm : ∀ name key d', d.Later d' →
      (members name key).Ends d' (fun _ d'' => d'.Later d'') fun _ _ => F) (name key : String) :
    (place node name key members).Ends d
      (fun placed d' => d.Later d' ∧ ∀ f fields trailer description source,
        node = .record (f :: fields) trailer description source →
          ∃ id, placed = .handle id ∧ d'.DeclaredUnder source name key id)
      fun _ _ => F := by
  refine place_ends ?shared ?own ?flat
  case shared =>
    rintro f fields trailer description source id rfl hs
    refine ⟨.refl d, ?_⟩
    rintro _ _ _ _ _ ⟨⟩
    exact ⟨id, rfl, .inl (Option.bind_eq_some_iff.mp hs)⟩
  case own =>
    rintro f fields trailer description source id rfl hs ⟨style, hstyle, hid⟩
    have hopened := later_opened hs id key description
    apply (hm id key _ hopened).imp_ok
    intro filled d' hl
    have hall := hl.trans (later_fill id filled d')
    refine ⟨hopened.trans hall, ?_⟩
    rintro _ _ _ _ _ ⟨⟩
    refine ⟨id, rfl, .inr ⟨style, d.registry.given, hstyle, ?_, ?_⟩⟩
    · rw [hall.reserved, hopened.reserved]
      exact hid
    · have hgiven := hall.given
      rwa [registry_opened, Registry.given_add] at hgiven
  case flat =>
    intro hflat
    apply (hm name key d (.refl d)).imp_ok
    rintro placed d' hl
    refine ⟨hl, ?_⟩
    rintro f fields trailer description source rfl
    exact absurd hflat (Shape.not_flat_iff.mpr ⟨_, _, _, _, _, rfl⟩)

end Place

/-! ### Hoisting -/

/-- A name that has a fallback is always given. -/
theorem typeStyle_field_ends {Q : String → Draft → Prop} {E : Fault → Draft → Prop} {field : String}
    (h : ∀ word, Q word d) : (Step.ofExcept (typeStyle field "Field")).Ends d Q E := by
  have hfallback : "Field".toList ≠ [] := by decide
  obtain ⟨word, hword⟩ := exists_typeStyle field hfallback
  rw [hword]
  exact h word

/-- There is a suffix for each variant whose tag gives a name. -/
theorem exists_variantSuffix {variants : List Shape} {variant : Shape} (hv : variant ∈ variants)
    (h : TagsNameable definitions settled variants) (index : Nat) :
    ∃ suffix, variantSuffix definitions settled variant index = .ok suffix := by
  by_cases hrecord : ∃ fields trailer description source,
      variant = .record fields trailer description source
  · obtain ⟨fields, trailer, description, source, rfl⟩ := hrecord
    rw [variantSuffix_record]
    split
    · next tag ht =>
      obtain ⟨word, hword, -⟩ := exists_of_nameable (h _ _ _ _ hv tag ht) ""
      exact ⟨word, hword⟩
    · exact ⟨_, rfl⟩
  · refine ⟨_, variantSuffix_of_not_record fun fields trailer description source heq => ?_⟩
    exact hrecord ⟨fields, trailer, description, source, heq⟩

/-- What stands inside a shape is placed if that goes through in all later drafts. -/
theorem place_members_later {node : Shape}
    (hm : ∀ name key d, (hoistMembers node name key).Ends d (fun _ d' => d.Later d')
      fun _ _ => ¬ node.Throughout (Nominal d.progress)) (name key : String) (d : Draft) :
    (place node name key (hoistMembers node)).Ends d (fun _ d' => d.Later d')
      fun _ _ => ¬ node.Throughout (Nominal d.progress) := by
  refine (place_declares (fun name key d' hl => ?_) name key).imp_ok fun _ _ h => h.1
  refine (hm name key d').imp (fun _ _ h => h) fun _ _ h hall => h ?_
  rw [hl.nominal_eq]
  exact hall

mutual

theorem hoistMembers_later : ∀ (node : Shape) (name key : String) (d : Draft),
    (hoistMembers node name key).Ends d (fun _ d' => d.Later d')
      fun _ _ => ¬ node.Throughout (Nominal d.progress)
  | .record fields trailer description source, name, key, d => by
    simp only [hoistMembers, Step.ends_bind, Step.ends_pure]
    have hnot : ¬ ((∀ f ∈ fields, f.node.Throughout (Nominal d.progress)) ∧
        ∀ tail, trailer = some tail → tail.Throughout (Nominal d.progress)) →
        ¬ (Shape.record fields trailer description source).Throughout (Nominal d.progress) :=
      fun h hall => h (Shape.below_record.mp hall.below)
    refine (hoistFields_later fields name key d).imp (fun fields' d₁ h₁ => ?_) fun _ _ h =>
      hnot fun hall => h hall.1
    refine (hoistTrailer_later trailer name key d₁).imp (fun _ _ h₂ => h₁.trans h₂) fun _ _ h =>
      hnot fun hall => h ?_
    rw [h₁.nominal_eq]
    exact hall.2
  | .array element, name, key, d => by
    simp only [hoistMembers, Step.ends_map]
    exact (place_members_later (hoistMembers_later element) _ _ d).imp (fun _ _ h => h)
      fun _ _ h hall => h (Shape.below_array.mp hall.below)
  | .union variants discriminator, name, key, d => by
    simp only [hoistMembers, Step.ends_bind, Step.ends_get, Step.ends_ofExcept, Step.ends_pure]
    refine ⟨fun settled hs => ?_, fun fault hs hall => ?_⟩
    · apply (hoistVariants_later settled 0 variants name key d).imp (fun _ _ h => h)
      rintro _ _ h hall
      obtain ⟨settled', hs', htags⟩ := hall.self variants discriminator rfl
      rw [hs] at hs'
      cases hs'
      exact h htags (Shape.below_union.mp hall.below)
    · obtain ⟨settled, hs', -⟩ := hall.self variants discriminator rfl
      rw [hs] at hs'
      cases hs'
  | .primitive kind format, _, _, d => by
    simp only [hoistMembers, Step.ends_pure]
    exact .refl d
  | .enum values, _, _, d => by
    simp only [hoistMembers, Step.ends_pure]
    exact .refl d
  | .handle target, _, _, d => by
    simp only [hoistMembers, Step.ends_pure]
    exact .refl d
  | .unknown, _, _, d => by
    simp only [hoistMembers, Step.ends_pure]
    exact .refl d

theorem hoistFields_later : ∀ (fields : List (Field Shape)) (name key : String) (d : Draft),
    (hoistFields fields name key).Ends d (fun _ d' => d.Later d')
      fun _ _ => ¬ ∀ f ∈ fields, f.node.Throughout (Nominal d.progress)
  | [], _, _, d => by
    simp only [hoistFields, Step.ends_pure]
    exact .refl d
  | ⟨field, node, required, description⟩ :: rest, name, key, d => by
    simp only [hoistFields, Step.ends_bind, Step.ends_pure]
    refine typeStyle_field_ends fun word => ?_
    refine (place_members_later (hoistMembers_later node) _ _ d).imp (fun _ d₁ h₁ => ?_)
      fun _ _ h hall => h (hall _ List.mem_cons_self)
    refine (hoistFields_later rest name key d₁).imp (fun _ _ h₂ => h₁.trans h₂) fun _ _ h hall => h ?_
    rw [h₁.nominal_eq]
    exact (List.forall_mem_cons.mp hall).2

theorem hoistTrailer_later : ∀ (trailer : Option Shape) (name key : String) (d : Draft),
    (hoistTrailer trailer name key).Ends d (fun _ d' => d.Later d')
      fun _ _ => ¬ ∀ tail, trailer = some tail → tail.Throughout (Nominal d.progress)
  | none, _, _, d => by
    simp only [hoistTrailer, Step.ends_pure]
    exact .refl d
  | some node, name, key, d => by
    simp only [hoistTrailer, Step.ends_map]
    exact (place_members_later (hoistMembers_later node) _ _ d).imp (fun _ _ h => h)
      fun _ _ h hall => h (hall node rfl)

theorem hoistVariants_later : ∀ (settled : Option String) (index : Nat) (variants : List Shape)
    (name key : String) (d : Draft),
    (hoistVariants settled index variants name key).Ends d (fun _ d' => d.Later d')
      fun _ _ => TagsNameable d.progress.definitions settled variants →
        ¬ ∀ v ∈ variants, v.Throughout (Nominal d.progress)
  | _, _, [], _, _, d => by
    simp only [hoistVariants, Step.ends_pure]
    exact .refl d
  | settled, index, node :: rest, name, key, d => by
    simp only [hoistVariants, Step.ends_bind, Step.ends_get, Step.ends_ofExcept, Step.ends_pure]
    refine ⟨fun suffix _ => ?_, fun fault hfault htags _ => ?_⟩
    · refine (place_members_later (hoistMembers_later node) _ _ d).imp (fun _ d₁ h₁ => ?_)
        fun _ _ h _ hall => h (hall _ List.mem_cons_self)
      refine (hoistVariants_later settled (index + 1) rest name key d₁).imp
        (fun _ _ h₂ => h₁.trans h₂) fun _ _ h htags hall => h ?_ ?_
      · rw [h₁.definitions_eq]
        exact fun fields trailer description source hm =>
          htags fields trailer description source (List.mem_cons_of_mem _ hm)
      · rw [h₁.nominal_eq]
        exact (List.forall_mem_cons.mp hall).2
    · obtain ⟨suffix, hsuffix⟩ := exists_variantSuffix List.mem_cons_self htags index
      rw [hfault] at hsuffix
      cases hsuffix

end

theorem hoist_later (node : Shape) (name key : String) (d : Draft) :
    (hoist node name key).Ends d (fun _ d' => d.Later d')
      fun _ _ => ¬ node.Throughout (Nominal d.progress) :=
  place_members_later (hoistMembers_later node) name key d

/-- If throughout the shape the tags of unions give names, hoisting goes through. -/
theorem hoist_isOk {node : Shape} (h : node.Throughout (Nominal d.progress)) (name key : String) :
    ((hoist node name key).runFrom d).1.isOk = true := by
  cases hrun : (hoist node name key).runFrom d with
  | mk outcome d' =>
    cases outcome with
    | ok _ => rfl
    | error fault => exact absurd h ((hoist_later node name key d).of_error hrun)

/-! ### The names -/

/-- The records among the variants have declarations, each under the name with its suffix. -/
def NamesVariants (definitions : Definitions) (settled : Option String) (index : Nat)
    (variants placed : List Shape) (name key : String) (d : Draft) : Prop :=
  ∀ i f fields trailer description source,
    variants[i]? = some (.record (f :: fields) trailer description source) →
      ∃ suffix id, Suffix definitions settled (f :: fields) (index + i) suffix ∧
        placed[i]? = some (.handle id) ∧
        d.DeclaredUnder source (name ++ suffix) (key ++ "/oneOf/" ++ toString (index + i)) id

theorem suffix_of_variantSuffix {fields : List (Field Shape)} {trailer : Option Shape}
    {description suffix : String}
    (h : variantSuffix definitions settled (.record fields trailer description source) index =
      .ok suffix) : Suffix definitions settled fields index suffix := by
  rw [variantSuffix_record] at h
  split at h
  · next tag ht =>
    by_cases hn : Nameable tag.display
    · exact .tag ht hn h
    · rw [typeStyle_of_not_nameable hn] at h
      cases h
  · next ht =>
    cases h
    exact .number ht

theorem Suffix.nameable {fields : List (Field Shape)} {suffix : String} {tag : Scalar}
    (h : Suffix definitions settled fields index suffix)
    (ht : tagBy? definitions settled fields = some tag) : Nameable tag.display := by
  cases h with
  | tag ht' hn _ =>
    rw [ht] at ht'
    cases ht'
    exact hn
  | number ht' =>
    rw [ht] at ht'
    cases ht'

theorem hoistVariants_names (settled : Option String) (index : Nat) (variants : List Shape)
    (name key : String) (d : Draft) :
    (hoistVariants settled index variants name key).Ends d
      (fun placed d' => TagsNameable d.progress.definitions settled variants ∧
        NamesVariants d.progress.definitions settled index variants placed name key d')
      fun _ _ => True := by
  induction variants generalizing index d with
  | nil =>
    simp only [hoistVariants, Step.ends_pure]
    constructor
    · intro fields trailer description source hm
      cases hm
    · intro i f fields trailer description source hi
      cases hi
  | cons node rest ih =>
    simp only [hoistVariants, Step.ends_bind, Step.ends_get, Step.ends_ofExcept, Step.ends_pure]
    refine ⟨fun suffix hsuffix => ?_, fun _ _ => trivial⟩
    -- the first variant is placed, and what is declared for it stays
    have hm : ∀ name key d', d.Later d' →
        (hoistMembers node name key).Ends d' (fun _ d'' => d'.Later d'') fun _ _ => True :=
      fun name key d' _ => (hoistMembers_later node name key d').forget fun _ _ h => h
    apply (place_declares hm (name ++ suffix) (key ++ "/oneOf/" ++ toString index)).imp_ok
    rintro placed d₁ ⟨h₁, hnode⟩
    apply ((ih (index + 1) d₁).and ((hoistVariants_later settled (index + 1) rest name key
      d₁).forget fun _ _ h => h)).forget
    rintro others d₂ ⟨⟨htags, hnames⟩, h₂⟩
    rw [h₁.definitions_eq] at htags hnames
    constructor
    · intro fields trailer description source hmem tag ht
      rcases List.mem_cons.mp hmem with rfl | hmem
      · exact (suffix_of_variantSuffix hsuffix).nameable ht
      · exact htags fields trailer description source hmem tag ht
    · intro i f fields trailer description source hi
      cases i with
      | zero =>
        obtain rfl := Option.some.inj hi
        obtain ⟨id, rfl, hdeclared⟩ := hnode f fields trailer description source rfl
        exact ⟨suffix, id, suffix_of_variantSuffix hsuffix, rfl, hdeclared.later h₂⟩
      | succ i =>
        have hindex : index + (i + 1) = index + 1 + i := by omega
        rw [hindex]
        exact hnames i f fields trailer description source hi

section Union

variable {variants : List Shape} {discriminator : Option String}

/-- The variants of a union are hoisted under the name of the union, each with its suffix. -/
theorem hoist_union_names (hs : Canon.settled variants discriminator d.progress = .ok settled)
    (name key : String) :
    (hoist (.union variants discriminator) name key).Ends d
      (fun hoisted d' => TagsNameable d.progress.definitions settled variants ∧
        ∃ placed, hoisted = .union placed settled ∧
          NamesVariants d.progress.definitions settled 0 variants placed name key d')
      fun _ _ => True := by
  simp only [hoist, place, hoistMembers, Step.ends_bind, Step.ends_get, Step.ends_ofExcept,
    Step.ends_pure]
  refine ⟨fun settled' hs' => ?_, fun _ _ => trivial⟩
  rw [hs] at hs'
  cases hs'
  apply (hoistVariants_names settled 0 variants name key d).imp_ok
  rintro placed d' ⟨htags, hnames⟩
  exact ⟨htags, placed, rfl, hnames⟩

end Union

/-- A text gives a name, or all is up to the fallback. A reference that resolves gets a legal name, or
it is new and refused because a part of it gives no name. The records among the variants of a union
are declared under its name with their tags or numbers, or the union is refused because a tag in it
gives no name; a discriminator without a name is none. -/
theorem naming_ends (s fallback ref : String) (d : Draft) (variants : List Shape)
    (discriminator : Option String) (name key : String) :
    (Nameable s → ∃ name, typeStyle s fallback = .ok name ∧ Legal name) ∧
    (¬ Nameable s → typeStyle s fallback = ofFallback fallback) ∧
    (∀ reserved r document found, Registry.Reached reserved r →
      Resolver.target document ref = .ok found → ∃ segments,
        Pointer.segments ref = .ok segments ∧
        (r.index.lookup ref = none → Registry.Nameless ref segments →
          (Registry.nameFor ref).runFrom r = (.error (.defect .nothingNameable), r)) ∧
        ((r.index.lookup ref = none → ¬ Registry.Nameless ref segments) →
          ∃ id r', (Registry.nameFor ref).runFrom r = (.ok id, r') ∧ Legal id ∧
            r'.index.lookup ref = some id ∧
            (r.index.lookup ref = none →
              (∀ s ∈ Registry.namers ref segments, ¬ Nameable s) → id = fresh "Model" r.taken))) ∧
    ∀ settled, Canon.settled variants discriminator d.progress = .ok settled →
      ((Shape.union variants discriminator).Throughout (Nominal d.progress) →
        ((hoist (.union variants discriminator) name key).runFrom d).1.isOk = true) ∧
      (¬ TagsNameable d.progress.definitions settled variants →
        ((hoist (.union variants discriminator) name key).runFrom d).1.isOk = false) ∧
      ∀ hoisted d', (hoist (.union variants discriminator) name key).runFrom d = (.ok hoisted, d') →
        ∃ placed, hoisted = .union placed settled ∧
          NamesVariants d.progress.definitions settled 0 variants placed name key d' := by
  refine ⟨fun h => exists_of_nameable h fallback, fun h => typeStyle_of_not_nameable h fallback,
    ?_, ?_⟩
  · intro reserved r document found hr ht
    obtain ⟨segments, hsegments⟩ : ∃ segments, Pointer.segments ref = .ok segments := by
      cases hs : Pointer.segments ref with
      | ok segments => exact ⟨segments, rfl⟩
      | error fault =>
        rw [Resolver.target, hs] at ht
        cases ht
    exact ⟨segments, hsegments, Registry.nameFor_of_nameless hsegments,
      Registry.nameFor_of_not_nameless hr hsegments⟩
  · intro settled hs
    have hends := hoist_union_names hs name key
    refine ⟨fun h => hoist_isOk h name key, fun hno => ?_, fun hoisted d' hrun => ?_⟩
    · cases hrun : (hoist (.union variants discriminator) name key).runFrom d with
      | mk outcome d' =>
        cases outcome with
        | ok hoisted => exact absurd (hends.of_ok hrun).1 hno
        | error fault => rfl
    · exact (hends.of_ok hrun).2

/-- A component that nothing names is called by the fallback. -/
theorem naming_ends_model :
    let document : Value := .mapping 0 [(.text "components", .mapping 1 [(.text "schemas",
      .mapping 2 [(.text "+", .mapping 3 [(.text "type", .text "string")])])])]
    ∃ r', (Registry.nameFor "#/components/schemas/+").runFrom ⟨["Envelope"], [], []⟩ =
      (.ok "Model", r') ∧ Resolver.target document "#/components/schemas/+" =
        .ok (.mapping 3 [(.text "type", .text "string")]) := by
  intro document
  have ht : Resolver.target document "#/components/schemas/+" =
      .ok (.mapping 3 [(.text "type", .text "string")]) := by rfl
  have hends := naming_ends "+" "Model" "#/components/schemas/+" (start document []) [] none "" ""
  obtain ⟨segments, hsegments, -, hnamed⟩ := hends.2.2.1 ["Envelope"] _ document _ .start ht
  obtain ⟨id, r', hrun, -, -, hmodel⟩ := hnamed fun _ h => by cases h.1
  refine ⟨r', ?_, ht⟩
  rw [hrun, hmodel rfl fun s hs => ?_]
  · rfl
  · obtain rfl := List.mem_singleton.mp (show s ∈ ["+"] from hs)
    decide

/-- A record whose only field always has this value. -/
def tagged (field tag : String) : Shape := .record [⟨field, .enum [.text tag], true, ""⟩] none "" none

/-- A path is a place without a name, and a tag may be a sign. A field that is named by nothing tells
variants apart, and still they are numbered. -/
theorem not_naming :
    (∃ document ref found, Resolver.target document ref = .ok found ∧
      ((Registry.nameFor ref).runFrom ⟨[], [], []⟩).1 = .error (.defect .nothingNameable)) ∧
    ((hoist (.union [tagged "op" "+", tagged "op" "-"] (some "op")) "Body" "k").runFrom
      (start .null [])).1 = .error (.defect .nothingNameable) ∧
    ((hoist (.union [tagged "" "cat", tagged "" "dog"] (some "")) "Body" "k").runFrom
      (start .null [])).1 =
        .ok (.union [.handle "BodyOption1", .handle "BodyOption2"] (some "")) := by
  refine ⟨⟨.mapping 0 [(.text "paths", .mapping 1 [(.text "/", .mapping 2 [])])], "#/paths/~1", _,
    by rfl, by rfl⟩, by rfl, by rfl⟩

end RouteStubs.Draft
