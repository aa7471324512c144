import RouteStubs.Proofs.Keys
import RouteStubs.Proofs.Route.Names

/-!
# The table of declarations is closed and flat

Names are given long before their shapes are known, and records inside shapes are declared while what
is around them is still being filled in. When a plan is made, every name has got its own shape, all
handles in declarations and operations are of declared names, and records with fields stand nowhere
but at the roots of declarations.

## Main definitions

* `Operation.nodes`: the shapes of an operation.
* `Draft.Collects`: a step of the collection that keeps the draft closed.
* `Draft.Envelops`: the name under which a record is declared, if anything is in it.
* `Collect.MadeFrom`: an operation that has been added.
* `Declarations.Declares`: a handle is of a declared name.

## Main statements

* `Draft.Added.closed`: the draft is closed when components have been added.
* `Collect.addOperation_collects`, `Collect.operations_collects`: it stays closed while operations are
  added.
* `Plan.collect_closed`: the collection ends in a closed draft.
* `Plan.table_closed`: the table of a plan is closed and flat.
-/

namespace RouteStubs

open Draft

/-! ### Components -/

namespace Draft

open Registry

variable {free : FreeKeys} {document : Value} {reserved : List String} {d d₀ d₁ d' : Draft}
  {entries : List (Scalar × Value)}

/-- When all components have been walked from, all names that were given are finished. -/
theorem Added.isSome_find? (h : Added free (Registry.course document) entries
    (start document reserved) d₀ d₁ d') {g : Given} (hg : g ∈ d₁.registry.given) :
    (d₁.progress.definitions.find? g.id).isSome := by
  have hr := h.naming.references.trans h.walking.references
  rcases h.steps.leads g hg with hg₀ | ⟨-, hp⟩
  · rcases h.named g hg₀ with hg₀ | ⟨-, hkey⟩
    · cases hg₀
    · -- a component has one name as yet, so it is this one that is finished
      obtain ⟨name, hs, hdone⟩ := h.finished g.key hkey
      have ho : d₁.OnlyReferences := (onlyReferences_start document reserved).of_grows hr.names
      have hs' : Registry.naming.stands d₁.progress.names g.id = some g.key :=
        hr.drafted.sound.keyOf?_of_mem hg
      rwa [ho.name_unique hr.grows.registry hs' hs]
  · exact hr.drafted.isSome_of_points hp

/-- The draft is closed when components have been added. -/
theorem Added.closed (h : Added free (Registry.course document) entries
    (start document reserved) d₀ d₁ d') : d'.Closed where
  styled g hg := by
    rcases h.adds.styled g hg with hg₁ | styled
    · rcases h.steps.leads g hg₁ with hg₀ | ⟨styled, -⟩
      · rcases h.named g hg₀ with hg₀ | ⟨styled, -⟩
        · cases hg₀
        · exact styled
      · exact styled
    · exact styled
  filled g hg := by
    rcases h.fills.filled g hg with hg₁ | hfilled
    · refine h.ready.done g hg ?_
      rw [h.fills.find?_eq]
      exact h.isSome_find? hg₁
    · exact hfilled
  fits id node hl := by
    rcases h.adds.nodes id node hl with hl₁ | hfilled
    · rw [h.walking.nodes, h.naming.nodes] at hl₁
      cases hl₁
    · exact hfilled.laid.fits fun _ hi =>
        (h.walking.references.drafted.names_inside hi).mono h.fills.grows

/-! ### Steps that keep a draft closed -/

section Collects

variable {α β : Type} {step : Step Draft α} {Q Q' : α → Draft → Prop} {R : β → Draft → Prop}
  {node : Shape}

/-- The shape fits where no record with fields may stand. -/
structure FitsInside (d : Draft) (node : Shape) : Prop where
  fits : d.Fits node
  flat : node.Flat

theorem FitsInside.mono (h : d.Grows d') (hf : d.FitsInside node) : d'.FitsInside node :=
  ⟨hf.fits.mono h, hf.flat⟩

theorem FitsInside.names (hf : d.FitsInside node) : node.Throughout d.Names := hf.fits.names

theorem FitsInside.throughout_flat (hf : d.FitsInside node) : node.Throughout Shape.Flat :=
  Shape.throughout_iff.mpr ⟨hf.flat, hf.fits.flat⟩

/-- A record fits if its fields do. -/
theorem fits_record {fields : List (Field Shape)} (description : String) (source : Option Source)
    (hf : ∀ f ∈ fields, d.FitsInside f.node) : d.Fits (.record fields none description source) where
  names := Shape.throughout_record nofun (fun f hm => (hf f hm).names) nofun
  flat := Shape.below_record.mpr ⟨fun f hm => (hf f hm).throughout_flat, nofun⟩

variable (document) in
/-- A step of the collection keeps the draft closed and has this outcome. -/
def Collects (d : Draft) (step : Step Draft α) (Q : α → Draft → Prop) : Prop :=
  d.Ready .paths document → d.Closed →
    step.Ends d (fun a d' => d.Grows d' ∧ d'.Ready .paths document ∧ d'.Closed ∧ Q a d')
      fun _ _ => True

theorem collects_pure {a : α} (h : Q a d) : Collects document d (pure a) Q := fun hr hc =>
  ⟨.refl d, hr, hc, h⟩

theorem collects_ofExcept (outcome : Except Fault α) :
    Collects document d (Step.ofExcept outcome) fun a _ => outcome = .ok a := fun hr hc =>
  Step.ends_ofExcept.mpr ⟨fun _ ha => ⟨.refl d, hr, hc, ha⟩, fun _ _ => trivial⟩

/-- What is known of a step is known of its run. -/
theorem Collects.run (h : Collects document d step Q) :
    Collects document d step fun a d' =>
      Q a d' ∧ d.progress.resolver.Recalls document ∧ step.runFrom d = (.ok a, d') := by
  intro hr hc
  apply ((Step.ends_self step d).and (h hr hc)).imp
  · rintro a d' ⟨hrun, hg, hr', hc', hq⟩
    exact ⟨hg, hr', hc', hq, hr.drafted.walked.recalls, hrun⟩
  · exact fun _ _ _ => trivial

theorem collects_get {next : Draft → Step Draft α} (h : Collects document d (next d) Q) :
    Collects document d (get >>= next) Q := h

theorem Collects.bind {next : α → Step Draft β} (h : Collects document d step Q)
    (hn : ∀ a d', d.Grows d' → Q a d' → Collects document d' (next a) R) :
    Collects document d (step >>= next) R := by
  intro hr hc
  rw [Step.ends_bind]
  apply (h hr hc).imp_ok
  rintro a d' ⟨hg, hr', hc', hq⟩
  apply (hn a d' hg hq hr' hc').imp_ok
  rintro _ _ ⟨hg', h'⟩
  exact ⟨hg.trans hg', h'⟩

theorem Collects.map {f : α → β} (h : Collects document d step Q)
    (hn : ∀ a d', Q a d' → R (f a) d') : Collects document d (f <$> step) R := by
  intro hr hc
  rw [Step.ends_map]
  apply (h hr hc).imp_ok
  rintro a d' ⟨hg, hr', hc', hq⟩
  exact ⟨hg, hr', hc', hn a d' hq⟩

theorem resolveNode_collects (v : Value) :
    Collects document d (onResolver (Resolver.resolveNode v)) fun _ _ => True := by
  intro hr hc
  apply (hr.lookup v).imp_ok
  rintro _ d' ⟨hg, hr', hregistry, hnodes, -⟩
  have hgains : d.Gains d' :=
    ⟨fun g hgiven => .inl (hregistry ▸ hgiven), fun g hgiven => .inl (hregistry ▸ hgiven),
      fun id node hl => .inl (hnodes ▸ hl)⟩
  exact ⟨hg, hr', hc.of_gains hg hgains, trivial⟩

theorem addInline_collects {key : String} (hk : FreeKeys.paths.Has key) (schema : Value)
    (name : String) :
    Collects document d (addInline schema name key) fun node d' => d'.FitsInside node := by
  intro hr hc
  apply (addInline_ends hr hk schema name).imp_ok
  rintro node d' ⟨hg, hr', hgains, ⟨hfits, hflat⟩, -⟩
  exact ⟨hg, hr', hc.of_gains hg hgains, hfits, hflat⟩

theorem addEnvelope_collects {key : String} (hk : FreeKeys.paths.Has key) (name : String)
    (description : String) (hf : d.Fits node) :
    Collects document d (addEnvelope name node key description)
      fun id d' => d'.nodes.lookup id = some node := by
  intro hr hc
  apply (hr.envelope hk name node description).imp_ok
  rintro id d' ⟨hg, hr', styled, -, hregistry, hnodes, -⟩
  have hgiven : ∀ g ∈ d'.registry.given, g ∈ d.registry.given ∨ g = ⟨id, key, .envelope⟩ := by
    intro g hg
    rwa [hregistry, given_add, List.mem_append, List.mem_singleton] at hg
  have hnode : d'.nodes.lookup id = some node := by rw [hnodes, Keyed.lookup_put_self]
  refine ⟨hg, hr', hc.of_gains hg ⟨fun g hmem => ?_, fun g hmem => ?_, fun other filled hl => ?_⟩,
    hnode⟩
  · refine (hgiven g hmem).imp (fun h => h) ?_
    rintro rfl
    exact styled
  · refine (hgiven g hmem).imp (fun h => h) ?_
    rintro rfl
    simp [hnodes]
  · rw [hnodes] at hl
    by_cases hid : other = id
    · subst hid
      rw [Keyed.lookup_put_self] at hl
      cases hl
      exact .inr (hf.mono hg)
    · rw [Keyed.lookup_put_of_ne _ hid] at hl
      exact .inl hl

/-- A record is declared under this name if anything is in it. -/
structure Envelops (d : Draft) (empty : Bool) (type : Option String) (node : Shape) : Prop where
  none_iff : type = none ↔ empty = true
  filled : ∀ id, type = some id → d.nodes.lookup id = some node

theorem Envelops.mono {empty : Bool} {type : Option String} (hg : d.Grows d')
    (h : d.Envelops empty type node) : d'.Envelops empty type node :=
  ⟨h.none_iff, fun id hid => hg.nodes id node (h.filled id hid)⟩

theorem addIf_collects {empty : Bool} {add : Step Draft String}
    (h : Collects document d add fun id d' => d'.nodes.lookup id = some node) :
    Collects document d (Collect.addIf (!empty) add)
      fun type d' => d'.Envelops empty type node := by
  unfold Collect.addIf
  cases empty with
  | true => exact collects_pure ⟨by simp, nofun⟩
  | false =>
    refine h.map fun id d' hfilled => ⟨by simp, ?_⟩
    rintro _ ⟨⟩
    exact hfilled

theorem build_collects (d : Draft) :
    Collects document d build fun table d' =>
      table = ⟨d'.registry.given.map d'.declarationOf, d'.registry.index⟩ := by
  intro hr hc
  simp only [build, Step.ends_bind, Step.ends_get, Step.ends_pure]
  apply (fillAll_ready hr.drafted hr.full).forget
  rintro _ d' ⟨hfills, hr', hadds⟩
  refine ⟨hfills.grows, hr', hc.of_gains hfills.grows ⟨hadds.styled, hfills.filled,
    fun id node hl => (hadds.nodes id node hl).imp (fun h => h) fun hfilled => ?_⟩, rfl⟩
  exact hfilled.laid.fits fun _ hi => (hr.drafted.names_inside hi).mono hfills.grows

end Collects

end Draft

/-! ### Operations -/

/-- The shapes of an operation. -/
def Operation.nodes (op : Operation) : List Shape :=
  op.parameters.map (·.node) ++ op.requestBody.toList ++ op.responses.filterMap (·.2)

namespace Collect

open Draft

variable {document : Value} {d d' : Draft} {key : String}

theorem mergeParameters_collects (merged : List RawParameter) (raws : List Value) (d : Draft) :
    Collects document d (mergeParameters merged raws) fun _ _ => True := by
  induction raws generalizing merged d with
  | nil => exact collects_pure trivial
  | cons raw rest ih =>
    refine (resolveNode_collects raw).bind fun found d₁ _ _ => ?_
    split
    · refine (collects_ofExcept _).bind fun p d₂ _ _ => ?_
      split <;> exact ih _ d₂
    · exact ih _ d₁

theorem effectiveParameters_collects (pathItem operation : Entries) (d : Draft) :
    Collects document d (effectiveParameters pathItem operation) fun _ _ => True :=
  (collects_ofExcept _).bind fun _ _ _ _ => (collects_ofExcept _).bind fun _ d' _ _ =>
    mergeParameters_collects _ _ d'

theorem addParameters_collects (hk : FreeKeys.paths.Has key) (typeName : String)
    (parameters : List RawParameter) (d : Draft) :
    Collects document d (addParameters typeName key parameters)
      fun added d' => ∀ p ∈ added, d'.FitsInside p.node := by
  induction parameters generalizing d with
  | nil => exact collects_pure (List.forall_mem_nil _)
  | cons p rest ih =>
    have hkey := FreeKeys.paths.append (FreeKeys.paths.append (FreeKeys.paths.append
      (FreeKeys.paths.append hk "/parameters/") p.location.display) "/") p.name
    refine (collects_ofExcept _).bind fun word d₁ _ _ => ?_
    refine (addInline_collects hkey _ _).bind fun node d₂ _ hnode => ?_
    refine (collects_ofExcept _).bind fun description d₃ hg₃ _ => ?_
    refine (ih d₃).bind fun others d₄ hg₄ hothers => ?_
    exact collects_pure
      (List.forall_mem_cons.mpr ⟨hnode.mono (hg₃.trans hg₄), hothers⟩)

theorem addRequestBody_collects (hk : FreeKeys.paths.Has key) (operation : Entries)
    (typeName : String) (d : Draft) :
    Collects document d (addRequestBody operation typeName key)
      fun body d' => ∀ node, body.1 = some node → d'.FitsInside node := by
  refine (resolveNode_collects _).bind fun found d₁ _ _ => ?_
  split
  · split
    · exact collects_pure nofun
    · refine (collects_ofExcept _).bind fun schema d₂ _ _ => ?_
      refine (addInline_collects (FreeKeys.paths.append hk _) _ _).bind fun node d₃ _ hnode => ?_
      refine collects_pure ?_
      rintro _ ⟨⟩
      exact hnode
  · exact collects_pure nofun

theorem addResponses_collects (hk : FreeKeys.paths.Has key) (typeName : String)
    (responses : List (Scalar × Value)) (d : Draft) :
    Collects document d (addResponses typeName key responses)
      fun added d' => ∀ response ∈ added, ∀ node, response.2 = some node → d'.FitsInside node := by
  induction responses generalizing d with
  | nil => exact collects_pure (List.forall_mem_nil _)
  | cons entry rest ih =>
    obtain ⟨code, raw⟩ := entry
    refine (resolveNode_collects raw).bind fun response d₁ _ _ => ?_
    have hrest : ∀ (node? : Option Shape) (d₂ : Draft),
        (∀ node, node? = some node → d₂.FitsInside node) →
        Collects document d₂ (do
          let others ← addResponses typeName key rest
          pure ((code.display, node?) :: others) : Step Draft _)
          fun added d' => ∀ response ∈ added, ∀ node, response.2 = some node →
            d'.FitsInside node := by
      intro node? d₂ hnode
      refine (ih d₂).bind fun others d₃ hg₃ hothers => ?_
      exact collects_pure (List.forall_mem_cons.mpr
        ⟨fun node hn => (hnode node hn).mono hg₃, hothers⟩)
    have hkey := FreeKeys.paths.append (FreeKeys.paths.append hk "/responses/") code.display
    dsimp only
    split
    · exact (collects_pure (a := none) (Q := fun node? d' => ∀ node, node? = some node →
        d'.FitsInside node) nofun).bind fun node? d₂ _ hnode => hrest node? d₂ hnode
    · refine (collects_ofExcept _).bind fun schema d₂ _ _ => ?_
      refine (collects_ofExcept _).bind fun word d₃ _ _ => ?_
      refine ((addInline_collects hkey _ _).map (R := fun node? d' => ∀ node, node? = some node →
        d'.FitsInside node) ?_).bind fun node? d₄ _ hnode => hrest node? d₄ hnode
      rintro node d' hnode _ ⟨⟩
      exact hnode

theorem addLabels_collects (schemes : Value) (labels : List String) (names : List Scalar)
    (d : Draft) : Collects document d (addLabels schemes labels names) fun _ _ => True := by
  induction names generalizing labels d with
  | nil => exact collects_pure trivial
  | cons name rest ih =>
    exact (collects_ofExcept _).bind fun _ _ _ _ => (resolveNode_collects _).bind fun _ _ _ _ =>
      (collects_ofExcept _).bind fun _ d' _ _ => ih _ d'

theorem securityLabels_collects (operation : Entries) (d : Draft) :
    Collects document d (securityLabels operation) fun _ _ => True :=
  collects_get <| (collects_ofExcept _).bind fun _ _ _ _ =>
    (collects_ofExcept _).bind fun _ d' _ _ => addLabels_collects _ _ _ d'

/-- Each field of the record of parameters is one of them. -/
theorem mem_parametersRecord (parameters : List Parameter) :
    ∃ fields, parametersRecord parameters = .record fields none "" none ∧
      ∀ f ∈ fields, ∃ p ∈ parameters, f.node = p.node := by
  refine ⟨_, rfl, ?_⟩
  induction parameters using List.reverseRecOn with
  | nil => exact List.forall_mem_nil _
  | append_singleton front last ih =>
    rw [List.foldl_append, List.foldl_cons, List.foldl_nil]
    -- of several parameters with one name the first is kept
    split
    · intro f hf
      obtain ⟨p, hp, he⟩ := ih f hf
      exact ⟨p, List.mem_append_left _ hp, he⟩
    · intro f hf
      rcases List.mem_append.mp hf with hf | hf
      · obtain ⟨p, hp, he⟩ := ih f hf
        exact ⟨p, List.mem_append_left _ hp, he⟩
      · rw [List.mem_singleton.mp hf]
        exact ⟨last, List.mem_append_right _ (List.mem_singleton_self _), rfl⟩

theorem fits_parametersRecord {parameters : List Parameter}
    (h : ∀ p ∈ parameters, d.FitsInside p.node) : d.Fits (parametersRecord parameters) := by
  obtain ⟨fields, hrecord, hfields⟩ := mem_parametersRecord parameters
  rw [hrecord]
  refine fits_record "" none fun f hf => ?_
  obtain ⟨p, hp, he⟩ := hfields f hf
  rw [he]
  exact h p hp

theorem fitsInside_nullShape (d : Draft) : d.FitsInside Shape.nullShape :=
  ⟨⟨Shape.throughout_of_isLeaf trivial nofun, Shape.below_of_isLeaf trivial⟩, nofun⟩

theorem fits_responsesRecord {responses : List (String × Option Shape)}
    (h : ∀ response ∈ responses, ∀ node, response.2 = some node → d.FitsInside node) :
    d.Fits (responsesRecord responses) := by
  refine fits_record "" none fun f hf => ?_
  obtain ⟨⟨status, node?⟩, hm, rfl⟩ := List.mem_map.mp hf
  cases node? with
  | none => exact fitsInside_nullShape d
  | some node => exact h _ hm node rfl

/-- The operation has been added for one of the document. Its parameters are those that are effective, its
shapes fit, and the records of its parameters and its responses are declared. -/
structure MadeFrom (document : Value) (raw : RawOperation) (op : Operation) (d : Draft) : Prop where
  path_eq : op.path = raw.path
  method_eq : op.method = raw.method
  parameters : ∃ d₁ d₂ d₃ merged typeName, d₁.progress.resolver.Recalls document ∧
    (effectiveParameters raw.pathItem raw.entries).runFrom d₁ = (.ok merged, d₂) ∧
    Name.typeStyle op.operationId "Operation" = .ok typeName ∧
    (addParameters typeName ("paths." ++ raw.path ++ "." ++ raw.method) merged).runFrom d₂ =
      (.ok op.parameters, d₃)
  fits : ∀ node ∈ op.nodes, d.FitsInside node
  parametersType : d.Envelops op.parameters.isEmpty op.parametersType (parametersRecord op.parameters)
  responsesType : d.Envelops op.responses.isEmpty op.responsesType (responsesRecord op.responses)

theorem MadeFrom.mono {raw : RawOperation} {op : Operation} (hg : d.Grows d')
    (h : MadeFrom document raw op d) : MadeFrom document raw op d' where
  path_eq := h.path_eq
  method_eq := h.method_eq
  parameters := h.parameters
  fits node hn := (h.fits node hn).mono hg
  parametersType := h.parametersType.mono hg
  responsesType := h.responsesType.mono hg

theorem addOperation_collects (raw : RawOperation) (operationId handler : String) (d : Draft) :
    Collects document d (addOperation raw operationId handler)
      fun op d' => MadeFrom document raw op d' := by
  have hk : FreeKeys.paths.Has ("paths." ++ raw.path ++ "." ++ raw.method) :=
    ⟨raw.path ++ "." ++ raw.method, by simp only [String.append_assoc]⟩
  refine (collects_ofExcept _).bind fun typeName d₁ _ htypeName => ?_
  refine (effectiveParameters_collects _ _ d₁).run.bind
    fun merged d₂ _ ⟨_, hrecalls, hmerged⟩ => ?_
  refine (addParameters_collects hk typeName merged d₂).run.bind
    fun parameters d₃ _ ⟨hparameters, _, hadded⟩ => ?_
  refine (addRequestBody_collects hk raw.entries typeName d₃).bind fun body d₄ hg₄ hbody => ?_
  refine (collects_ofExcept _).bind fun rawResponses d₅ hg₅ _ => ?_
  refine (addResponses_collects hk typeName rawResponses d₅).bind
    fun responses d₆ hg₆ hresponses => ?_
  -- the records of the parameters and the responses are made of what has been added
  have hg : d₃.Grows d₆ := (hg₄.trans hg₅).trans hg₆
  refine (addIf_collects (addEnvelope_collects (FreeKeys.paths.append hk _) _ _
    (fits_parametersRecord fun p hp => (hparameters p hp).mono hg))).bind
      fun parametersType d₇ hg₇ hparametersType => ?_
  refine (addIf_collects (addEnvelope_collects (FreeKeys.paths.append hk _) _ _
    (fits_responsesRecord fun response hr node hn =>
      (hresponses response hr node hn).mono hg₇))).bind
        fun responsesType d₈ hg₈ hresponsesType => ?_
  refine (collects_ofExcept _).bind fun tags d₉ hg₉ _ => ?_
  refine (collects_ofExcept _).bind fun summary d₁₀ hg₁₀ _ => ?_
  refine (collects_ofExcept _).bind fun description d₁₁ hg₁₁ _ => ?_
  refine (securityLabels_collects _ d₁₁).bind fun security d₁₂ hg₁₂ _ => ?_
  have hlast : d₈.Grows d₁₂ := ((hg₉.trans hg₁₀).trans hg₁₁).trans hg₁₂
  have hshapes : d₆.Grows d₁₂ := (hg₇.trans hg₈).trans hlast
  refine collects_pure ⟨rfl, rfl,
    ⟨d₁, d₂, d₃, merged, typeName, hrecalls, hmerged, htypeName, hadded⟩, fun node hn => ?_,
    hparametersType.mono (hg₈.trans hlast), hresponsesType.mono hlast⟩
  simp only [Operation.nodes, List.mem_append, List.mem_map, Option.mem_toList,
    List.mem_filterMap] at hn
  rcases hn with (⟨p, hp, rfl⟩ | hn) | ⟨response, hr, hn⟩
  · exact (hparameters p hp).mono (hg.trans hshapes)
  · exact (hbody node hn).mono ((hg₅.trans hg₆).trans hshapes)
  · exact (hresponses response hr node hn).mono hshapes

theorem addOperations_collects (raws : List (RawOperation × String × String)) (d : Draft) :
    Collects document d (addOperations raws)
      fun ops d' => List.Forall₂ (fun raw op => MadeFrom document raw.1 op d') raws ops := by
  induction raws generalizing d with
  | nil => exact collects_pure .nil
  | cons raw rest ih =>
    refine (addOperation_collects _ _ _ d).bind fun op d₁ _ hop => ?_
    refine (ih d₁).bind fun others d₂ hg₂ hothers => ?_
    exact collects_pure (.cons (hop.mono hg₂) hothers)

variable (document) in
/-- The operations have been added for those of the document, one by one. -/
def AllMade (ops : List Operation) (d : Draft) : Prop :=
  ∃ paths raws, Document.paths document = .ok paths ∧ rawOperations paths = .ok raws ∧
    List.Forall₂ (fun raw op => MadeFrom document raw op d) raws ops

theorem AllMade.mono {ops : List Operation} (hg : d.Grows d') (h : AllMade document ops d) :
    AllMade document ops d' := by
  obtain ⟨paths, raws, hpaths, hraws, hops⟩ := h
  exact ⟨paths, raws, hpaths, hraws, hops.imp fun _ _ => MadeFrom.mono hg⟩

theorem AllMade.exists_made {ops : List Operation} {op : Operation} (h : AllMade document ops d)
    (ho : op ∈ ops) : ∃ raw, MadeFrom document raw op d := by
  obtain ⟨_, raws, -, -, hops⟩ := h
  obtain ⟨raw, -, hmade⟩ := exists_mem_of_forall₂ hops.flip ho
  exact ⟨raw, hmade⟩

/-- Adding operations keeps the draft closed. -/
theorem operations_collects (d : Draft) :
    Collects document d operations fun ops d' => AllMade document ops d' := by
  intro hr hc
  refine collects_get ?_ hr hc
  rw [hr.document_eq]
  refine (collects_ofExcept _).bind fun paths d₁ _ hpaths => ?_
  refine (collects_ofExcept _).bind fun raws d₂ _ hraws => ?_
  refine (collects_ofExcept _).bind fun names d₃ _ hnames => ?_
  intro hr₃ hc₃
  apply (addOperations_collects _ d₃ hr₃ hc₃).imp_ok
  rintro ops d₄ ⟨hg₄, hr₄, hc₄, hops⟩
  refine ⟨hg₄, hr₄, hc₄, paths, raws, hpaths, hraws, ?_⟩
  rw [← fst_zip_handlers hnames, List.forall₂_map_left_iff]
  exact hops

end Collect

/-! ### Plans -/

/-- If the shape is a handle, then it is one of a declared name. -/
def Declarations.Declares (table : Declarations) (node : Shape) : Prop :=
  ∀ id, node = .handle id → ∃ δ ∈ table.types, δ.id = id

namespace Plan

variable {document : Value} {plan : Plan}

/-- The collection ends in a closed draft, which the table is read off. -/
theorem collect_closed (document : Value) (reserved : List String) :
    collect.Ends (Draft.start document reserved)
      (fun result d => (Draft.start document reserved).Grows d ∧ d.Ready .paths document ∧
        d.Closed ∧ Collect.AllMade document result.1 d ∧
        result.2 = ⟨d.registry.given.map d.declarationOf, d.registry.index⟩)
      fun _ _ => True := by
  simp only [collect, Step.ends_bind, Step.ends_pure]
  apply (Draft.addComponents_added (Registry.course document)
    (Draft.drafted_start .paths document reserved)
    (Draft.onlyReferences_start document reserved) trivial).forget
  rintro _ d₁ ⟨_, _, -, d₀, d₂, hadded⟩
  have hg₁ := (hadded.naming.references.trans hadded.walking.references).grows.trans
    hadded.fills.grows
  apply (Collect.operations_collects d₁ hadded.ready hadded.closed).forget
  rintro operations d₃ ⟨hg₃, hr₃, hc₃, hops⟩
  apply (Draft.build_collects d₃ hr₃ hc₃).forget
  rintro table d₄ ⟨hg₄, hr₄, hc₄, htable⟩
  exact ⟨(hg₁.trans hg₃).trans hg₄, hr₄, hc₄, hops.mono hg₄, htable⟩

/-- The table of a plan is closed and flat. Its names are different identifiers of ASCII that are
neither keywords nor reserved; each handle in a declaration or an operation is of a declared name; a
record with fields stands only at the root of a declaration; and each declared name was filled in
with its own shape. -/
theorem table_closed (h : ofDocument document = .ok plan) :
    (plan.table.types.map (·.id)).Nodup ∧
    (∀ δ ∈ plan.table.types, Name.Legal δ.id ∧ δ.id ∉ TypesModule.reservedNames) ∧
    (∀ δ ∈ plan.table.types,
      δ.node.Throughout plan.table.Declares ∧ δ.node.Below Shape.Flat) ∧
    (∀ op ∈ plan.operations, ∀ node ∈ op.nodes,
      node.Throughout plan.table.Declares ∧ node.Throughout Shape.Flat) ∧
    ∃ d, collect.runFrom (Draft.start document TypesModule.reservedNames) =
        (.ok (plan.operations, plan.table), d) ∧
      ∀ δ ∈ plan.table.types, d.nodes.lookup δ.id = some δ.node := by
  obtain ⟨d, hcollect⟩ := collect_of_ofDocument h
  obtain ⟨hg, hr, hc, hops, htable⟩ := (collect_closed _ _).of_ok hcollect
  have hsound := hr.drafted.sound
  have htypes : plan.table.types = d.registry.given.map d.declarationOf :=
    congrArg Declarations.types htable
  have hdeclares : ∀ inner, d.Names inner → plan.table.Declares inner := by
    intro inner hn id hid
    obtain ⟨g, hgiven, rfl⟩ := hn id hid
    refine ⟨d.declarationOf g, ?_, rfl⟩
    rw [htypes]
    exact List.mem_map_of_mem hgiven
  have hdeclared : ∀ δ ∈ plan.table.types, ∃ g ∈ d.registry.given, δ.id = g.id ∧
      d.nodes.lookup δ.id = some δ.node := by
    intro δ hδ
    rw [htypes] at hδ
    obtain ⟨g, hgiven, rfl⟩ := List.mem_map.mp hδ
    obtain ⟨node, hn⟩ := Option.isSome_iff_exists.mp (hc.filled g hgiven)
    exact ⟨g, hgiven, rfl, by simp [Draft.declarationOf, hn]⟩
  refine ⟨?_, fun δ hδ => ?_, fun δ hδ => ?_, fun op ho node hn => ?_, d, hcollect,
    fun δ hδ => ?_⟩
  · rw [htypes, List.map_map]
    exact hsound.nodup
  · obtain ⟨g, hgiven, hid, -⟩ := hdeclared δ hδ
    rw [hid]
    refine ⟨hc.legal g hgiven, ?_⟩
    have hfree := hsound.free g hgiven
    rwa [hg.registry.reserved_eq] at hfree
  · obtain ⟨_, -, -, hn⟩ := hdeclared δ hδ
    have hfits := hc.fits δ.id δ.node hn
    exact ⟨hfits.names.imp hdeclares, hfits.flat⟩
  · obtain ⟨raw, hop⟩ := hops.exists_made ho
    have hfits := hop.fits node hn
    exact ⟨hfits.names.imp hdeclares, hfits.throughout_flat⟩
  · obtain ⟨_, -, -, hn⟩ := hdeclared δ hδ
    exact hn

/-! ### A record that refers to itself -/

/-- A document with a record that refers to itself and has a record in it, and with an operation that
takes a record. -/
def treeDocument : Value :=
  .mapping 1 [(.text "openapi", .text "3.0.0"),
    (.text "info", .mapping 2 [(.text "title", .text "T"), (.text "version", .text "1")]),
    (.text "paths", .mapping 3 [(.text "/trees", .mapping 4 [(.text "post", .mapping 5
      [(.text "requestBody", .mapping 6 [(.text "content", .mapping 7
        [(.text "application/json", .mapping 8 [(.text "schema", .mapping 9
          [(.text "type", .text "object"), (.text "properties", .mapping 10
            [(.text "tree", Draft.refSchema "#/components/schemas/Tree")])])])])])])])]),
    (.text "components", .mapping 11 [(.text "schemas", .mapping 12 [(.text "Tree", .mapping 13
      [(.text "type", .text "object"), (.text "properties", .mapping 14
        [(.text "next", Draft.refSchema "#/components/schemas/Tree"),
          (.text "1", .mapping 15 [(.text "type", .text "object"), (.text "properties", .mapping 16
            [(.text "x", .mapping 17 [(.text "type", .text "string")])])])])])])])]

/-- The record in the record and the one that the operation takes are declared beside the component. -/
theorem table_closed_tree : ∃ plan, ofDocument treeDocument = .ok plan ∧
    plan.table.types.map (·.id) = ["Tree", "Tree1", "CreateTreeRequest"] ∧
    (∀ δ ∈ plan.table.types, Name.Legal δ.id ∧ δ.id ∉ TypesModule.reservedNames) ∧
    (∀ δ ∈ plan.table.types,
      δ.node.Throughout plan.table.Declares ∧ δ.node.Below Shape.Flat) ∧
    ∀ op ∈ plan.operations, ∀ node ∈ op.nodes,
      node.Throughout plan.table.Declares ∧ node.Throughout Shape.Flat := by
  obtain ⟨plan, hplan, hids⟩ := exists_of_any
    (show (ofDocument treeDocument).toOption.any (fun plan =>
      plan.table.types.map (·.id) == ["Tree", "Tree1", "CreateTreeRequest"]) = true by
        decide +kernel)
  obtain ⟨-, hlegal, htypes, hops, -⟩ := table_closed hplan
  exact ⟨plan, hplan, eq_of_beq hids, hlegal, htypes, hops⟩

end Plan

end RouteStubs
