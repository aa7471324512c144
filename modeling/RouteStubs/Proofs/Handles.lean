import RouteStubs.Proofs.Draft.Run
import RouteStubs.Proofs.Plan

/-!
# What handles declare

Every handle that a reference reads as has a declaration, under the key of the reference. When the
name was given to the reference, the declaration says what the target of the reference reads as,
with the records inside it placed. When the name was given to a record before, for the place that
the reference happens to spell, the declaration says that record. Most such places spell the target;
but the variants of a union are counted after those that are the same have been dropped, and a place
behind a union may spell another schema of the document.

## Main definitions

* `Draft.Reaches`: what the target of a reference reads as.
* `Draft.StandsAt`: a record stands at a place inside the definition of a reference.

## Main statements

* `Plan.handle_declares`: what the declarations of handles and of mappings say, over every
  document.
-/

namespace RouteStubs

open Registry

namespace Draft

variable {free : FreeKeys} {document : Value} {d d' : Draft} {name ref : String}

/-- The target of the reference reads as the shape. -/
def Reaches (document : Value) (d : Draft) (ref : String) (node : Shape) : Prop :=
  ∃ found depth, Resolver.target document ref = .ok found ∧
    Canon.Reads (naming.Points d.progress) d.progress.definitions depth found node

/-- The record stands at a place inside the definition of a reference. -/
def StandsAt (d : Draft) (record : Shape) (key : String) : Prop :=
  ∃ g ∈ d.registry.given, g.origin = .schema ∧ ∃ root,
    d.progress.definitions.find? g.id = some root ∧ root.At g.key record key

/-- The name of a reference is defined as what the target of the reference reads as. -/
theorem reaches_of_points (hd : d.Drafted free document)
    (hp : naming.Points d.progress name ref) :
    ∃ node, d.progress.definitions.find? name = some node ∧ d.Reaches document ref node := by
  obtain ⟨node, found, depth, hn, ht, hr⟩ := hd.walked.exists_read hd.chain hp
  exact ⟨node, hn, found, depth, ht, hr⟩

/-- A free key that starts like those of operations spells no target. -/
theorem target_paths (rest : String) (v : Value) :
    Resolver.target document ("paths." ++ rest) ≠ .ok v := by
  have hseg : Pointer.segments ("paths." ++ rest) =
      .error (.unsupportedReference ("paths." ++ rest)) := by
    unfold Pointer.segments
    rw [String.toList_append]
    rfl
  rw [Resolver.target, hseg]
  intro h
  cases h

/-- The declaration of a handle says what the target of the reference reads as, if its name was given
to the reference, or else the record at the place that the reference spells. -/
theorem says_of_points (hd : d.Ready .paths document)
    (hp : naming.Points d.progress name ref) :
    ∃ g ∈ d.registry.given, g.id = name ∧ g.key = ref ∧ ∃ node filled,
      d.Reaches document ref node ∧ d.nodes.lookup name = some filled ∧
        ((g.origin = .schema ∧ d.Placed node filled) ∨
          (g.origin = .inline ∧ ∃ record, d.StandsAt record ref ∧ d.Placed record filled)) := by
  obtain ⟨node, hf, hreach⟩ := reaches_of_points hd.drafted hp
  obtain ⟨g, hg, rfl, rfl⟩ := exists_of_keyOf? hp.1
  have hfilled := hd.done g hg (by rw [hf]; rfl)
  obtain ⟨filled, hn⟩ := Option.isSome_iff_exists.mp hfilled
  obtain ⟨g', hg', hid, hsaid⟩ := hd.drafted.filled g.id filled hn
  obtain rfl := hd.drafted.sound.eq_of_id hg' hg hid
  refine ⟨g', hg, rfl, rfl, node, filled, hreach, hn, ?_⟩
  -- a free key spells no target, so only a record inside a definition can have the key
  have hfree : ¬ FreeKeys.paths.Has g'.key := by
    rintro ⟨rest, hk⟩
    obtain ⟨found, -, ht, -⟩ := hreach
    exact target_paths rest found (hk ▸ ht)
  -- what the name was given for decides what is said under it
  unfold Says at hsaid
  cases ho : g'.origin with
  | schema =>
    rw [ho] at hsaid
    obtain ⟨node', hf', hplaced⟩ := hsaid
    cases hf.symm.trans hf'
    exact .inl ⟨rfl, hplaced⟩
  | inline =>
    rw [ho] at hsaid
    obtain ⟨record, hh, hplaced⟩ := hsaid
    exact .inr ⟨rfl, record, hh.resolve_left hfree, hplaced⟩
  | envelope =>
    rw [ho] at hsaid
    exact absurd hsaid hfree
  | other word =>
    rw [ho] at hsaid
    exact absurd hsaid hfree

/-! ### Declarations -/

theorem find?_reverse_of_mem {given : List Given} (hn : (given.map (·.id)).Nodup) {g : Given}
    (hg : g ∈ given) (declare : Given → Declaration) (hid : ∀ g, (declare g).id = g.id) :
    (given.map declare).reverse.find? (·.id == g.id) = some (declare g) := by
  rw [← List.map_reverse, List.find?_map]
  have hfun : ((fun δ : Declaration => δ.id == g.id) ∘ declare) = fun g' => g'.id == g.id := by
    funext g'
    simp [hid]
  rw [hfun, find?_of_mem (by rwa [List.map_reverse, List.nodup_reverse])
    (List.mem_reverse.mpr hg), Option.map_some]

/-- A name that was given has its declaration in the table. -/
theorem find?_table (hd : d.Drafted free document) {g : Given} (hg : g ∈ d.registry.given) :
    (Declarations.mk (d.registry.given.map d.declarationOf) d.registry.index).find? g.id =
      some (d.declarationOf g) :=
  find?_reverse_of_mem hd.sound.nodup hg _ fun _ => rfl

theorem node_declarationOf {g : Given} {filled : Shape} (h : d.nodes.lookup g.id = some filled) :
    (d.declarationOf g).node = filled := by
  simp [declarationOf, h]

/-- The declaration of a mapping says a record that was read from it. -/
theorem declares_of_claim (hd : d.Ready free document) {s : Source} {id : String}
    (hs : d.bySource.lookup s = some id) :
    ∃ g ∈ d.registry.given, g.id = id ∧ ∃ fields trailer description,
      d.Placed (.record fields trailer description (some s)) (d.declarationOf g).node := by
  obtain ⟨g, hg, rfl, hc⟩ := hd.drafted.claims s id hs
  refine ⟨g, hg, rfl, ?_⟩
  rcases hc with ⟨ho, fields, trailer, description, hf⟩ | ⟨ho, hall⟩
  · -- the record is the definition of a reference, and the declaration says what is defined
    obtain ⟨filled, hn⟩ := Option.isSome_iff_exists.mp (hd.done g hg (by rw [hf]; rfl))
    obtain ⟨g', hg', hid, hsaid⟩ := hd.drafted.filled g.id filled hn
    obtain rfl := hd.drafted.sound.eq_of_id hg' hg hid
    unfold Says at hsaid
    rw [ho] at hsaid
    obtain ⟨node, hf', hplaced⟩ := hsaid
    cases hf.symm.trans hf'
    exact ⟨fields, trailer, description, (node_declarationOf hn).symm ▸ hplaced⟩
  · obtain ⟨filled, hn⟩ := Option.isSome_iff_exists.mp (hd.full g hg (by simp [ho]))
    obtain ⟨fields, trailer, description, hplaced⟩ := hall filled hn
    exact ⟨fields, trailer, description, (node_declarationOf hn).symm ▸ hplaced⟩

end Draft

/-- Over every document for which the declarations are worked out: the handle of a reference has a
declaration under the key of the reference. It says what the target of the reference reads as, if the
name was given to the reference, and otherwise the record at the place inside a definition that the
reference spells. Records inside shapes that were read from one mapping share a declaration of
it. -/
theorem Plan.handle_declares {document : Value} {plan : Plan}
    (h : Plan.ofDocument document = .ok plan) :
    ∃ d : Draft, Plan.collect.runFrom (Draft.start document TypesModule.reservedNames) =
        (.ok (plan.operations, plan.table), d) ∧
      (∀ name ref, naming.Points d.progress name ref →
        (∃ node, d.Reaches document ref node) ∧
        ∃ declaration said, plan.table.find? name = some declaration ∧ declaration.key = ref ∧
          d.Placed said declaration.node ∧
            ((declaration.origin = .schema ∧ d.Reaches document ref said) ∨
              (declaration.origin = .inline ∧ d.StandsAt said ref))) ∧
      ∀ s id, d.bySource.lookup s = some id →
        ∃ declaration fields trailer description, plan.table.find? id = some declaration ∧
          d.Placed (.record fields trailer description (some s)) declaration.node := by
  obtain ⟨d, hc⟩ := Plan.collect_of_ofDocument h
  obtain ⟨d₁, hcollected, hb⟩ := Plan.collected_of_collect hc
  obtain ⟨-, hd, htable⟩ := (Draft.build_ends hcollected.ready.2).of_ok hb
  refine ⟨d, hc, fun name ref hp => ?_, fun s id hs => ?_⟩
  · obtain ⟨g, hg, rfl, rfl, node, filled, hreach, hn, hsaid⟩ := Draft.says_of_points hd hp
    refine ⟨⟨node, hreach⟩, d.declarationOf g, ?_⟩
    rw [Draft.node_declarationOf hn, htable]
    rcases hsaid with ⟨ho, hplaced⟩ | ⟨ho, record, hstands, hplaced⟩
    · exact ⟨node, Draft.find?_table hd.drafted hg, rfl, hplaced, .inl ⟨ho, hreach⟩⟩
    · exact ⟨record, Draft.find?_table hd.drafted hg, rfl, hplaced, .inr ⟨ho, hstands⟩⟩
  · obtain ⟨g, hg, rfl, fields, trailer, description, hplaced⟩ := Draft.declares_of_claim hd hs
    exact ⟨d.declarationOf g, fields, trailer, description,
      htable ▸ Draft.find?_table hd.drafted hg, hplaced⟩

/-! ### A reference to a variant -/

namespace Plan

/-- A mapping with a type. -/
def typed (origin : Nat) (type : String) : Value := .mapping origin [(.text "type", .text type)]

/-- Records with one field. -/
def withField (origin : Nat) (name type : String) : Value :=
  .mapping origin [(.text "type", .text "object"),
    (.text "properties", .mapping (origin + 1) [(.text name, typed (origin + 2) type)])]

/-- A document with an operation that answers with what a reference leads to. One component is a union
in which two variants are the same. -/
def answering (ref : String) : Value :=
  .mapping 1 [(.text "openapi", .text "3.0.0"),
    (.text "info", .mapping 2 [(.text "title", .text "T"), (.text "version", .text "1")]),
    (.text "paths", .mapping 3 [(.text "/x", .mapping 4 [(.text "get", .mapping 5
      [(.text "responses", .mapping 6 [(.text "200", .mapping 7 [(.text "description", .text "d"),
        (.text "content", .mapping 8 [(.text "application/json", .mapping 9
          [(.text "schema", Draft.refSchema ref)])])])])])])]),
    (.text "components", .mapping 10 [(.text "schemas", .mapping 11 [(.text "A", .mapping 12
      [(.text "oneOf", .list [typed 20 "string", typed 21 "string", withField 22 "x" "string",
        withField 25 "y" "integer"])])])])]

/-- The draft from which the document is answered. -/
def answeringDraft (ref : String) : Draft :=
  (collect.runFrom (Draft.start (answering ref) TypesModule.reservedNames)).2

theorem points_answering {ref name : String} {d : Draft} {result : List Operation × Declarations}
    (hc : collect.runFrom (Draft.start (answering ref) TypesModule.reservedNames) = (.ok result, d))
    (hs : naming.stands (answeringDraft ref).progress.names name = some ref)
    (hf : ((answeringDraft ref).progress.definitions.find? name).isSome = true) :
    naming.Points d.progress name ref := by
  rw [show d = answeringDraft ref by rw [answeringDraft, hc]]
  exact ⟨hs, .inl hf⟩

/-- The handle of a reference to a component has the declaration of what the component reads as. -/
theorem handle_declares_component : ∃ (plan : Plan) (d : Draft) (declaration : Declaration)
    (said : Shape), ofDocument (answering "#/components/schemas/A") = .ok plan ∧
      plan.table.find? "A" = some declaration ∧ d.Placed said declaration.node ∧
        ((declaration.origin = .schema ∧
            d.Reaches (answering "#/components/schemas/A") "#/components/schemas/A" said) ∨
          (declaration.origin = .inline ∧ d.StandsAt said "#/components/schemas/A")) := by
  have hok : (ofDocument (answering "#/components/schemas/A")).isOk = true := by decide +kernel
  obtain ⟨plan, hplan⟩ := Step.exists_ok hok
  obtain ⟨d, hc, hpoints, -⟩ := handle_declares hplan
  obtain ⟨-, declaration, said, hf, -, hplaced, hsaid⟩ := hpoints "A" "#/components/schemas/A"
    (points_answering hc (by decide +kernel) (by decide +kernel))
  exact ⟨plan, d, declaration, said, hplan, hf, hplaced, hsaid⟩

/-- The names of the fields of a record. -/
def fieldNames : Shape → List String
  | .record fields _ _ _ => fields.map (·.name)
  | _ => []

theorem fieldNames_of_placed {d : Draft} {node placed : Shape} (h : d.Placed node placed) :
    fieldNames placed = fieldNames node := by
  have hfields : ∀ fields placed, d.PlacedFields fields placed →
      placed.map (·.name) = fields.map (·.name) := by
    intro fields
    induction fields with
    | nil =>
      intro placed h
      rw [show placed = [] from h]
    | cons f rest ih =>
      rintro _ ⟨_, rest', _, h, rfl⟩
      rw [List.map_cons, List.map_cons, ih rest' h]
  cases node with
  | record fields trailer description source =>
    obtain ⟨fields', _, hf, _, rfl⟩ := h
    exact hfields fields fields' hf
  | array element =>
    obtain ⟨_, _, rfl⟩ := h
    rfl
  | union variants discriminator =>
    obtain ⟨_, _, _, _, rfl⟩ := h
    rfl
  | _ =>
    rw [show placed = _ from h]

theorem fieldNames_withField {points : String → String → Prop} {definitions : Definitions}
    {depth origin : Nat} {name type : String} {node : Shape}
    (h : Canon.Reads points definitions depth (withField origin name type) node) :
    fieldNames node = [name] := by
  cases depth with
  | zero => cases h
  | succ depth =>
    obtain ⟨plain, he, rfl⟩ := h
    have hrule : Canon.ruleOf [(.text "type", .text "object"),
        (.text "properties", .mapping (origin + 1) [(.text name, typed (origin + 2) type)])] =
        .typed (.text "object") := rfl
    simp only [Canon.ReadsEntries, hrule, Canon.ReadsTypes, Canon.ReadsType] at he
    obtain ⟨-, properties, -, -⟩ := he
    have hproperties : Canon.propertiesOf [(.text "type", .text "object"),
        (.text "properties", .mapping (origin + 1) [(.text name, typed (origin + 2) type)])] =
        [(.text name, typed (origin + 2) type)] := rfl
    rw [hproperties] at properties
    cases properties with
    | cons _ _ rest =>
      cases rest
      rfl

/-- The handle of a reference to a variant has the declaration of another variant, as variants are
counted after those that are the same have been dropped. -/
theorem handle_declares_another : ∃ (plan : Plan) (d : Draft) (declaration : Declaration),
    ofDocument (answering "#/components/schemas/A/oneOf/2") = .ok plan ∧
      collect.runFrom (Draft.start (answering "#/components/schemas/A/oneOf/2")
        TypesModule.reservedNames) = (.ok (plan.operations, plan.table), d) ∧
      naming.Points d.progress "AOption3" "#/components/schemas/A/oneOf/2" ∧
      plan.table.find? "AOption3" = some declaration ∧
      ∀ said, d.Reaches (answering "#/components/schemas/A/oneOf/2")
        "#/components/schemas/A/oneOf/2" said → ¬ d.Placed said declaration.node := by
  have hok : (ofDocument (answering "#/components/schemas/A/oneOf/2")).isOk = true := by
    decide +kernel
  obtain ⟨plan, hplan⟩ := Step.exists_ok hok
  obtain ⟨d, hc⟩ := collect_of_ofDocument hplan
  have hnames : ((collect.runFrom (Draft.start (answering "#/components/schemas/A/oneOf/2")
      TypesModule.reservedNames)).1.toOption.bind fun result => result.2.find? "AOption3").any
        (fun δ => fieldNames δ.node == ["y"]) = true := by decide +kernel
  rw [hc] at hnames
  obtain ⟨declaration, hf, hy⟩ := (Option.any_eq_true _ _).mp hnames
  refine ⟨plan, d, declaration, hplan, hc, points_answering hc (by decide +kernel)
    (by decide +kernel), hf, fun said hreach hplaced => ?_⟩
  -- the reference leads to the record with the field "x", and the declaration has the field "y"
  obtain ⟨found, depth, ht, hr⟩ := hreach
  have ht' : Resolver.target (answering "#/components/schemas/A/oneOf/2")
      "#/components/schemas/A/oneOf/2" = .ok (withField 22 "x" "string") := rfl
  cases ht.symm.trans ht'
  have hx := fieldNames_of_placed hplaced
  rw [fieldNames_withField hr, eq_of_beq hy] at hx
  exact absurd hx (by decide)

end Plan

end RouteStubs
