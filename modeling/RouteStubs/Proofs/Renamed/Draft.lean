import RouteStubs.Proofs.Draft.Components
import RouteStubs.Proofs.Renamed.Document
import RouteStubs.Proofs.Renamed.Walk

/-!
# Collecting declarations with other identities

The draft of the declarations keeps the identities of mappings in one place besides its shapes: in the
table by which a mapping finds the declaration that it has. Different identities find different entries
there, so with other identities that are different where the first ones are, the same declarations are
made under the same names.

## Main definitions

* `Draft.rename f`: a draft with other identities.
* `Draft.Together`: the two drafts.
* `Declarations.rename f`: the finished table with other identities.

## Main statements

* `Draft.hoistMembers_matches`, `Draft.hoist_matches`: shapes are placed alike.
* `Draft.addComponents_matches`, `Draft.addInline_matches`, `Draft.addEnvelope_matches`,
  `Draft.build_matches`: the steps of the collection.
-/

namespace RouteStubs

open Shape Step

/-! ### Walks -/

namespace Canon

variable {ν : Type} {f : Nat → Nat} {document : Value} {chain : List Value}

theorem formatted_of_loose (node : Shape) : node.Throughout (Formatted True) := by
  intro inner _
  unfold Formatted
  split <;> simp

/-- Walks through a schema with other identities, however many steps they have. -/
theorem shape_matches (namer : Namer ν) (steps : Nat) (v : Value) :
    DeeperMatches f True True document (fun _ => True) (shape namer steps) (shape namer steps) chain
      v := by
  induction steps generalizing chain v with
  | zero => exact fun _ => matches_throw trivial
  | succ steps ih =>
    rw [shape_succ]
    exact level_matches (fun _ _ => trivial) (fun _ _ _ _ => trivial) (fun _ _ => trivial) id
      (fun _ => trivial) (fun w _ => ih w) fun _ found _ _ _ => ih found

theorem shapeOf_matches (namer : Namer ν) (context : String) (schema : Value) :
    Matches (Together f True document chain) (Renamed f True) (fun _ => True)
      (shapeOf namer context schema) (shapeOf namer context (schema.rename f)) := by
  refine matches_get fun p p' hp => ?_
  have hbound : bound p'.resolver.document (schema.rename f) = bound p.resolver.document schema := by
    rw [hp.renamed, Progress.rename, Resolver.rename, bound, bound, Value.references_rename,
      Value.references_rename, Value.depth_rename, Value.depth_rename]
  rw [hbound]
  exact shape_matches namer _ schema context

theorem settled_rename (variants : List Shape) (discriminator : Option String) (p : Progress ν) :
    settled (variants.map (Shape.rename f)) discriminator (p.rename f) =
      settled variants discriminator p := by
  have hfind : (p.rename f).deferred.find?
      (fun d => sameVariants d.1 (variants.map (Shape.rename f))) =
      (p.deferred.find? fun d => sameVariants d.1 variants).map fun d =>
        (d.1.map (Shape.rename f), d.2.rename f) := by
    rw [Progress.rename, List.find?_map]
    congr 2
    funext d
    exact sameVariants_map_rename d.1 variants
  unfold settled
  rw [areKeys_map_rename, hfind]
  cases discriminator with
  | some d => rfl
  | none =>
    cases p.deferred.find? fun d => sameVariants d.1 variants with
    | none => rfl
    | some d =>
      simp only [Option.map_some, Progress.rename, discriminator?_rename]

end Canon

/-! ### Drafts -/

/-- The finished table with other identities. -/
def Declarations.rename (f : Nat → Nat) (table : Declarations) : Declarations :=
  ⟨table.types.map fun d => { d with node := d.node.rename f }, table.index⟩

namespace Draft

/-- A draft with other identities. -/
def rename (f : Nat → Nat) (d : Draft) : Draft :=
  ⟨d.progress.rename f, d.nodes.map fun e => (e.1, e.2.rename f), d.descriptions,
    d.bySource.map fun e => (e.1.rename f, e.2)⟩

/-- The second draft is the first with other identities, what its resolver remembers is right, and
nothing is being expanded. -/
structure Together (f : Nat → Nat) (document : Value) (d d' : Draft) : Prop where
  renamed : d' = d.rename f
  recalls : d.progress.resolver.Recalls document
  chain_eq : d.progress.resolver.chain = []

variable {f : Nat → Nat} {document : Value} {α β : Type} {Q : α → β → Prop}

theorem together_start (document : Value) (reserved : List String) :
    Together f document (start document reserved) (start (document.rename f) reserved) :=
  ⟨rfl, ⟨rfl, fun ref v hv => by cases hv⟩, rfl⟩

/-! ### Parts of a draft -/

theorem onProgress_matches {step : Step (Progress Registry) α} {step' : Step (Progress Registry) β}
    (h : Matches (Canon.Together f True document []) Q (fun _ => True) step step') :
    Matches (Together f document) Q (fun _ => True) (onProgress step) (onProgress step') := by
  refine matches_within h ?_ ?_
  · rintro d _ ⟨rfl, hrecalls, hchain⟩
    exact ⟨rfl, hrecalls, hchain, fun _ node _ => Canon.formatted_of_loose node⟩
  · rintro d _ p _ ⟨rfl, -, -⟩ ⟨rfl, hrecalls, hchain, -⟩
    exact ⟨rfl, hrecalls, hchain⟩

theorem onRegistry_matches (step : Step Registry α) :
    Matches (Together f document) (fun x y => y = x) (fun _ => True) (onRegistry step)
      (onRegistry step) := by
  refine onProgress_matches (matches_within (T := fun r r' => r' = r) ?_ ?_ ?_)
  · exact matches_self fun _ _ _ => trivial
  · rintro p _ ⟨rfl, -, -, -⟩
    rfl
  · rintro p _ r _ ⟨rfl, hrecalls, hchain, hformatted⟩ rfl
    exact ⟨rfl, hrecalls, hchain, hformatted⟩

theorem onResolver_matches (node : Value) :
    Matches (Together f document) (fun v v' => v' = v.rename f) (fun _ => True)
      (onResolver (Resolver.resolveNode node)) (onResolver (Resolver.resolveNode (node.rename f))) := by
  refine onProgress_matches (matches_within (T := Resolver.Together f document []) ?_ ?_ ?_)
  · exact Resolver.resolveNode_matches node
  · rintro p _ ⟨rfl, hrecalls, hchain, -⟩
    exact ⟨rfl, hrecalls, hchain⟩
  · rintro p _ r _ ⟨rfl, -, -, hformatted⟩ ⟨rfl, hrecalls, hchain⟩
    exact ⟨rfl, hrecalls, hchain, hformatted⟩

/-- A change of the draft that does the same with other identities and leaves the resolver as it is. -/
theorem modify_matches {change change' : Draft → Draft}
    (h : ∀ d : Draft, change' (d.rename f) = (change d).rename f)
    (hr : ∀ d : Draft, (change d).progress.resolver = d.progress.resolver) :
    Matches (Together f document) (fun _ _ => True) (fun _ => True) (modify change)
      (modify change') := by
  refine matches_modify trivial ?_
  rintro d _ ⟨rfl, hrecalls, hchain⟩
  exact ⟨h d, (hr d).symm ▸ hrecalls, (congrArg Resolver.chain (hr d)).trans hchain⟩

theorem fill_rename (id : String) (node : Shape) (d : Draft) :
    (d.rename f).fill id (node.rename f) = (d.fill id node).rename f := by
  unfold fill rename
  congr 1
  exact Keyed.put_map (Shape.rename f) d.nodes id node

theorem fill_matches (id : String) (node : Shape) :
    Matches (Together f document) (fun _ _ => True) (fun _ => True) (modify (fill id node))
      (modify (fill id (node.rename f))) :=
  modify_matches (fill_rename id node) fun _ => rfl

theorem describe_matches (id description : String) :
    Matches (Together f document) (fun _ _ => True) (fun _ => True)
      (modify (describe id description)) (modify (describe id description)) :=
  modify_matches (fun _ => rfl) fun _ => rfl

/-! ### Mappings and their declarations -/

section

variable (hf : Function.Injective f)
include hf

theorem rename_source_injective : Function.Injective (Source.rename f) := by
  rintro ⟨origin, form⟩ ⟨origin', form'⟩ h
  simp only [Source.rename, Source.mk.injEq] at h
  rw [hf h.1, h.2]

/-- Other identities find the same declarations. -/
theorem lookup_rename (pairs : List (Source × String)) (s : Source) :
    (pairs.map fun e => (e.1.rename f, e.2)).lookup (s.rename f) = pairs.lookup s := by
  induction pairs with
  | nil => rfl
  | cons e rest ih =>
    obtain ⟨t, id⟩ := e
    have heq : (s.rename f == t.rename f) = (s == t) := by
      by_cases h : s = t
      · simp [h]
      · have hne : s.rename f ≠ t.rename f := fun heq => h (rename_source_injective hf heq)
        rw [beq_eq_false_iff_ne.mpr h, beq_eq_false_iff_ne.mpr hne]
    rw [List.map_cons, List.lookup_cons, List.lookup_cons, heq, ih]

theorem ofSource?_rename (source : Option Source) (d : Draft) :
    (d.rename f).ofSource? (source.map (Source.rename f)) = d.ofSource? source := by
  cases source with
  | none => rfl
  | some s => exact lookup_rename hf d.bySource s

theorem claim_rename (source : Option Source) (id : String) (d : Draft) :
    (d.rename f).claim (source.map (Source.rename f)) id = (d.claim source id).rename f := by
  cases source with
  | none => rfl
  | some s =>
    have hlookup : (d.rename f).bySource.lookup (s.rename f) = d.bySource.lookup s :=
      lookup_rename hf d.bySource s
    simp only [claim, Option.map_some, hlookup]
    split
    · rfl
    · simp only [rename, List.map_append, List.map_cons, List.map_nil]

theorem claim_matches (source : Option Source) (id : String) :
    Matches (Together f document) (fun _ _ => True) (fun _ => True) (modify (claim source id))
      (modify (claim (source.map (Source.rename f)) id)) :=
  modify_matches (claim_rename hf source id) fun d => by rw [progress_claim]

/-! ### Hoisting -/

omit hf in
theorem variantSuffix_rename (definitions : Definitions) (discriminator : Option String)
    (variant : Shape) (index : Nat) :
    variantSuffix (definitions.rename f) discriminator (variant.rename f) index =
      variantSuffix definitions discriminator variant index := by
  cases discriminator with
  | none => rfl
  | some d =>
    cases variant with
    | record fields trailer description source =>
      rw [rename_record]
      simp only [variantSuffix, Definitions.tag?_rename]
    | union variants discriminator => rw [rename_union]; rfl
    | _ => rfl

/-- A shape is declared in both drafts, under one name, or in neither. -/
theorem place_matches {node : Shape} {members members' : (name key : String) → Step Draft Shape}
    (h : ∀ name key, Matches (Together f document) (fun x y => y = x.rename f) (fun _ => True)
      (members name key) (members' name key)) (name key : String) :
    Matches (Together f document) (fun x y => y = x.rename f) (fun _ => True)
      (place node name key members) (place (node.rename f) name key members') := by
  cases node with
  | record fields trailer description source =>
    rw [rename_record]
    cases fields with
    | nil => exact h name key
    | cons first rest =>
      refine matches_get fun d d' hd => ?_
      rw [hd.renamed, ofSource?_rename hf]
      rcases d.ofSource? source with _ | id
      · refine (onRegistry_matches _).bind ?_
        rintro _ id rfl
        refine Matches.bind (Q := fun _ _ => True) ?_ fun _ _ _ => ?_
        · refine modify_matches (fun d => ?_) fun d => ?_
          · rw [claim_rename hf]
            rfl
          · simp only [describe, progress_claim]
        refine (h id key).bind ?_
        rintro filled _ rfl
        exact (fill_matches id filled).bind fun _ _ _ => matches_pure rfl
      · exact matches_pure rfl
  | union variants discriminator =>
    rw [rename_union]
    exact h name key
  | _ => exact h name key

mutual

theorem hoistMembers_matches : ∀ (node : Shape) (name key : String),
    Matches (Together f document) (fun x y => y = x.rename f) (fun _ => True)
      (hoistMembers node name key) (hoistMembers (node.rename f) name key)
  | .record fields trailer description source, name, key => by
    rw [rename_record, hoistMembers, hoistMembers]
    refine (hoistFields_matches fields name key).bind ?_
    rintro placed _ rfl
    refine (hoistTrailer_matches trailer name key).bind ?_
    rintro tail _ rfl
    exact matches_pure (rename_record f _ _ _ _).symm
  | .array element, name, key => by
    rw [rename_array, hoistMembers, hoistMembers]
    refine (place_matches hf (hoistMembers_matches element) _ _).map ?_
    rintro placed _ rfl
    rfl
  | .union variants discriminator, name, key => by
    rw [rename_union, hoistMembers, hoistMembers]
    refine matches_get fun d d' hd => ?_
    rw [hd.renamed, rename, Canon.settled_rename]
    refine (matches_ofExcept_same rfl fun _ _ => trivial).bind ?_
    rintro _ settled rfl
    refine (hoistVariants_matches settled 0 variants name key).bind ?_
    rintro placed _ rfl
    exact matches_pure (rename_union f _ _).symm
  | .primitive _ _, _, _ => matches_pure rfl
  | .enum _, _, _ => matches_pure rfl
  | .handle _, _, _ => matches_pure rfl
  | .unknown, _, _ => matches_pure rfl

theorem hoistFields_matches : ∀ (fields : List (Field Shape)) (name key : String),
    Matches (Together f document) (fun x y => y = x.map (renameField f)) (fun _ => True)
      (hoistFields fields name key) (hoistFields (fields.map (renameField f)) name key)
  | [], _, _ => matches_pure rfl
  | ⟨field, node, required, description⟩ :: rest, name, key => by
    rw [List.map_cons, renameField, hoistFields, hoistFields]
    refine (matches_ofExcept_same rfl fun _ _ => trivial).bind ?_
    rintro _ word rfl
    refine (place_matches hf (hoistMembers_matches node) _ _).bind ?_
    rintro placed _ rfl
    refine (hoistFields_matches rest name key).bind ?_
    rintro others _ rfl
    exact matches_pure rfl

theorem hoistTrailer_matches : ∀ (trailer : Option Shape) (name key : String),
    Matches (Together f document) (fun x y => y = x.map (Shape.rename f)) (fun _ => True)
      (hoistTrailer trailer name key) (hoistTrailer (trailer.map (Shape.rename f)) name key)
  | none, _, _ => matches_pure rfl
  | some node, name, key => by
    rw [Option.map_some, hoistTrailer, hoistTrailer]
    refine (place_matches hf (hoistMembers_matches node) _ _).map ?_
    rintro placed _ rfl
    rfl

theorem hoistVariants_matches (discriminator : Option String) (index : Nat) :
    ∀ (variants : List Shape) (name key : String),
      Matches (Together f document) (fun x y => y = x.map (Shape.rename f)) (fun _ => True)
        (hoistVariants discriminator index variants name key)
        (hoistVariants discriminator index (variants.map (Shape.rename f)) name key)
  | [], _, _ => matches_pure rfl
  | node :: rest, name, key => by
    rw [List.map_cons, hoistVariants, hoistVariants]
    refine matches_get fun d d' hd => ?_
    have hsuffix : variantSuffix d'.progress.definitions discriminator (node.rename f) index =
        variantSuffix d.progress.definitions discriminator node index := by
      rw [hd.renamed]
      exact variantSuffix_rename d.progress.definitions discriminator node index
    refine (matches_ofExcept_same hsuffix fun _ _ => trivial).bind ?_
    rintro _ suffix rfl
    refine (place_matches hf (hoistMembers_matches node) _ _).bind ?_
    rintro placed _ rfl
    refine (hoistVariants_matches discriminator (index + 1) rest name key).bind ?_
    rintro others _ rfl
    exact matches_pure rfl

end

theorem hoist_matches (node : Shape) (name key : String) :
    Matches (Together f document) (fun x y => y = x.rename f) (fun _ => True) (hoist node name key)
      (hoist (node.rename f) name key) :=
  place_matches hf (hoistMembers_matches hf node) name key

/-! ### Steps of the collection -/

theorem fillPending_matches (pending : List Given) :
    Matches (Together f document) (fun _ _ => True) (fun _ => True) (fillPending pending)
      (fillPending pending) := by
  induction pending with
  | nil => exact matches_pure trivial
  | cons g rest ih =>
    refine matches_get fun d d' hd => ?_
    have hnodes : d'.nodes.lookup g.id = (d.nodes.lookup g.id).map (Shape.rename f) := by
      rw [hd.renamed]
      exact Definitions.lookup_map (Shape.rename f) d.nodes g.id
    have hdefined : d'.progress.definitions.find? g.id =
        (d.progress.definitions.find? g.id).map (Shape.rename f) := by
      rw [hd.renamed]
      exact Definitions.find?_rename d.progress.definitions g.id
    rw [hnodes, hdefined]
    rcases d.nodes.lookup g.id with _ | filled
    · rcases d.progress.definitions.find? g.id with _ | definition
      · exact ih
      · refine (hoistMembers_matches hf definition g.id g.key).bind ?_
        rintro placed _ rfl
        refine (fill_matches g.id placed).bind fun _ _ _ => ?_
        cases definition with
        | record fields trailer description source =>
          simp only [rename_record]
          refine Matches.bind (Q := fun _ _ => True) (modify_matches (fun d => ?_) fun d => ?_)
            fun _ _ _ => ih
          · rw [apply_ite (rename f)]
            rfl
          · split <;> rfl
        | union variants discriminator =>
          simp only [rename_union]
          exact ih
        | _ => exact ih
    · exact ih

theorem fillAll_matches :
    Matches (Together f document) (fun _ _ => True) (fun _ => True) fillAll fillAll := by
  refine matches_get fun d d' hd => ?_
  have hgiven : d'.registry.given = d.registry.given := by
    rw [hd.renamed]
    rfl
  rw [hgiven]
  exact fillPending_matches hf d.registry.given

omit hf in
theorem nameComponents_matches (names : List String) :
    Matches (Together f document) (fun _ _ => True) (fun _ => True) (nameComponents names)
      (nameComponents names) := by
  induction names with
  | nil => exact matches_pure trivial
  | cons name rest ih => exact (onRegistry_matches _).bind fun _ _ _ => ih

omit hf in
/-- The reference to a component is made on the way, and its identity is of no account. -/
theorem refers_matches (ref : String) :
    Matches (Together f document) (fun x y => y = x.rename f) (fun _ => True)
      (onProgress (Canon.shapeOf Registry.nameFor "<inline>" (refSchema ref)))
      (onProgress (Canon.shapeOf Registry.nameFor "<inline>" (refSchema ref))) := by
  have hwalk : Matches (Canon.Together f True document []) (Canon.Renamed f True) (fun _ => True)
      (Canon.shapeOf Registry.nameFor "<inline>" (refSchema ref))
      (Canon.shapeOf Registry.nameFor "<inline>" (.mapping (f 0) [(.text "$ref", .text ref)])) :=
    Canon.shapeOf_matches Registry.nameFor "<inline>" (refSchema ref)
  exact onProgress_matches (hwalk.imp_ok fun _ _ h => h.1)

theorem addSchemas_matches (entries : Entries) :
    Matches (Together f document) (fun _ _ => True) (fun _ => True) (addSchemas entries)
      (addSchemas (entries.rename f)) := by
  induction entries with
  | nil => exact matches_pure trivial
  | cons e rest ih =>
    obtain ⟨name, raw⟩ := e
    rw [Entries.rename, List.map_cons, addSchemas, addSchemas]
    refine matches_get fun d d' hd => ?_
    have hindex : d'.registry.index = d.registry.index := by
      rw [hd.renamed]
      rfl
    rw [hindex]
    generalize (d.registry.index.lookup (Registry.componentRef name.display)).getD "" = id
    -- the walk from the component comes after its description, if it has one
    cases raw
    case' mapping origin entries =>
      rw [Value.rename_mapping]
      refine (matches_ofExcept_same (Prose.ofMember_rename entries _) fun _ _ => trivial).bind ?_
      rintro _ description rfl
      refine (describe_matches id description).bind fun _ _ _ => ?_
    case' list items => rw [Value.rename_list]
    all_goals
      refine (refers_matches _).bind fun _ _ _ => matches_get fun q q' hq => ?_
      have hfound : q'.progress.definitions.find? id =
          (q.progress.definitions.find? id).map (Shape.rename f) := by
        rw [hq.renamed]
        exact Definitions.find?_rename q.progress.definitions id
      rw [hfound]
      rcases q.progress.definitions.find? id with _ | node
      · exact ih
      cases node with
      | record fields trailer description source =>
        simp only [Option.map_some, rename_record]
        exact (claim_matches hf source id).bind fun _ _ _ => ih
      | union variants discriminator =>
        simp only [Option.map_some, rename_union]
        exact ih
      | _ => exact ih

theorem addComponents_matches :
    Matches (Together f document) (fun _ _ => True) (fun _ => True) addComponents addComponents := by
  refine matches_get fun d d' hd => ?_
  have hschemas : Document.schemas d'.document =
      (Document.schemas d.document).map (Value.renameGiven f) := by
    rw [hd.renamed]
    exact Document.component_rename d.document "schemas"
  refine Matches.bind (Q := fun v v' => v' = v.renameGiven f)
    (matches_ofExcept hschemas (fun _ _ => rfl) fun _ _ => trivial) ?_
  rintro v _ rfl
  cases v with
  | mapping origin entries =>
    obtain ⟨origin', heq⟩ := Value.exists_renameGiven f origin entries
    have hnames : (Entries.rename f entries).map (fun e => e.1.display) =
        entries.map fun e => e.1.display := by
      rw [Entries.rename, List.map_map]
      rfl
    rw [heq]
    dsimp only
    rw [hnames]
    refine (nameComponents_matches _).bind fun _ _ _ => ?_
    exact (addSchemas_matches hf entries).bind fun _ _ _ => fillAll_matches hf
  | list items =>
    have hnames : (items.map (Value.rename f)).map Value.display = items.map Value.display := by
      rw [List.map_map]
      exact List.map_congr_left fun v _ => Value.display_rename v
    rw [Value.renameGiven, Value.rename_list]
    · dsimp only
      rw [hnames]
      exact (nameComponents_matches _).bind fun _ _ _ => matches_throw trivial
    · intro _ h
      cases h
  | scalar s =>
    cases s with
    | text s => exact (nameComponents_matches _).bind fun _ _ _ => matches_throw trivial
    | _ => exact matches_throw trivial

theorem addInline_matches (schema : Value) (name key : String) :
    Matches (Together f document) (fun x y => y = x.rename f) (fun _ => True)
      (addInline schema name key) (addInline (schema.rename f) name key) := by
  refine (onProgress_matches ((Canon.shapeOf_matches Registry.nameFor name schema).imp_ok
    fun _ _ h => h.1)).bind ?_
  rintro node _ rfl
  refine (hoist_matches hf node name key).bind ?_
  rintro placed _ rfl
  exact (fillAll_matches hf).bind fun _ _ _ => matches_pure rfl

omit hf in
theorem addEnvelope_matches (name : String) (node : Shape) (key description : String) :
    Matches (Together f document) (fun x y => y = x) (fun _ => True)
      (addEnvelope name node key description) (addEnvelope name (node.rename f) key description) := by
  refine (onRegistry_matches _).bind ?_
  rintro _ id rfl
  refine Matches.bind (Q := fun _ _ => True) (modify_matches (fun d => ?_) fun _ => rfl)
    fun _ _ _ => matches_pure rfl
  rw [fill_rename]
  rfl

theorem build_matches :
    Matches (Together f document) (fun x y => y = x.rename f) (fun _ => True) build build := by
  refine (fillAll_matches hf).bind fun _ _ _ => matches_get fun d d' hd => matches_pure ?_
  rw [hd.renamed, Declarations.rename, List.map_map]
  congr 1
  apply List.map_congr_left
  intro g _
  simp only [Function.comp_apply]
  have hlookup : (d.rename f).nodes.lookup g.id = (d.nodes.lookup g.id).map (Shape.rename f) :=
    Definitions.lookup_map (Shape.rename f) d.nodes g.id
  rw [hlookup]
  cases d.nodes.lookup g.id <;> rfl

end

end Draft

end RouteStubs
