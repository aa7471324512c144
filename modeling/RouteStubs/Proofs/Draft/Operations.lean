import RouteStubs.Operation.Collect
import RouteStubs.Proofs.Draft.Drafted
import RouteStubs.Proofs.Part

/-!
# Collecting operations step by step

The collection of operations touches the draft in three ways: it adds schemas, it declares the records
of parameters and of responses, and it looks up what a value stands for. The schemas it adds are taken
from the document, and all keys are those of operations. What these three steps keep is kept by the
whole collection.

## Main definitions

* `FreeKeys.paths`: the keys that the collection of operations gives.
* `Collect.Invariant`: what the three steps keep.

## Main statements

* `Collect.Invariant.operations`: so does the collection.
-/

namespace RouteStubs

/-- The keys that start like those of operations. A pointer into a document is none of them. -/
def FreeKeys.paths : FreeKeys where
  Has key := ∃ rest, key = "paths." ++ rest
  append := by
    rintro _ ⟨rest, rfl⟩ more
    exact ⟨rest ++ more, String.append_assoc ..⟩

namespace Collect

open Draft Value

variable {document v : Value} {key name : String} {entries : Entries}

/-! ### Values of an operation -/

/-- The entries are those of a mapping in the document. -/
def Described (document : Value) (entries : Entries) : Prop :=
  ∃ origin, Part (.mapping origin entries) document

theorem Described.getD (h : Described document entries) (name : String) :
    ((entries.text? name).getD .null).TakenFrom document := by
  obtain ⟨origin, hpart⟩ := h
  exact hpart.takenFrom.getD name

theorem takenFrom_memberOrNull (h : v.TakenFrom document) (name : String) :
    (memberOrNull v name).TakenFrom document := by
  cases v with
  | mapping origin entries => exact h.getD name
  | _ => exact takenFrom_scalar .null

theorem takenFrom_mediaType (h : v.TakenFrom document) : (mediaType v).TakenFrom document := by
  unfold mediaType
  split
  · next origin entries =>
    split
    · exact takenFrom_scalar .null
    · split
      · next hmedia => exact h.text? hmedia
      · split
        · next hmedia => exact h.entry (List.mem_of_find?_eq_some hmedia)
        · exact h.entry List.mem_cons_self
  · exact takenFrom_scalar .null

theorem takenFrom_schemaOf {schema : Value} (h : v.TakenFrom document)
    (hs : schemaOf v = .ok schema) : schema.TakenFrom document := by
  cases v with
  | mapping origin entries =>
    cases hs
    exact h.getD "schema"
  | _ => cases hs

theorem takenFrom_itemsOf {items : List Value} (h : v.TakenFrom document)
    (hi : itemsOf v = .ok items) : ∀ item ∈ items, item.TakenFrom document := by
  intro item hm
  unfold itemsOf at hi
  split at hi
  · cases hi
    exact h.item hm
  · cases hi
    obtain ⟨e, -, rfl⟩ := List.mem_map.mp hm
    exact takenFrom_scalar e.1
  · cases hi
    obtain ⟨c, -, rfl⟩ := List.mem_map.mp hm
    exact takenFrom_scalar _
  · cases hi

theorem takenFrom_itemsOrNone {items : List Value} (h : v.TakenFrom document)
    (hi : itemsOrNone v = .ok items) : ∀ item ∈ items, item.TakenFrom document := by
  unfold itemsOrNone at hi
  split at hi
  · exact takenFrom_itemsOf h hi
  · cases hi
    exact List.forall_mem_nil _

theorem takenFrom_parameterSchema (h : Described document entries) :
    (parameterSchema entries).TakenFrom document := by
  unfold parameterSchema
  split
  · exact takenFrom_memberOrNull (takenFrom_mediaType (h.getD "content")) "schema"
  · exact h.getD "schema"

theorem takenFrom_responsesOf {responses : List (Scalar × Value)} (h : Described document entries)
    (hr : responsesOf entries = .ok responses) : ∀ r ∈ responses, r.2.TakenFrom document := by
  obtain ⟨origin, hpart⟩ := h
  unfold responsesOf at hr
  split at hr
  · cases hr
    exact List.forall_mem_nil _
  · next hmapping =>
    cases hr
    intro r hm
    exact (hpart.takenFrom.text? hmapping).entry hm
  · split at hr <;> cases hr
    exact List.forall_mem_nil _

/-- The mappings of the operations of a document are in it. -/
theorem described_of_rawOperations {paths : Value} {raws : List RawOperation}
    (hp : Document.paths document = .ok paths) (hr : rawOperations paths = .ok raws) :
    ∀ raw ∈ raws, Described document raw.pathItem ∧ Described document raw.entries := by
  have hpaths : paths.TakenFrom document ∨ paths = .mapping 0 [] := by
    unfold Document.paths Document.givenMember at hp
    cases document with
    | mapping origin entries =>
      cases hp
      cases hgiven : (Entries.text? entries "paths").filter Value.isTrue with
      | none => exact .inr rfl
      | some given =>
        exact .inl (Part.refl.takenFrom.text? (Option.filter_eq_some_iff.mp hgiven).1)
    | _ => cases hp
  intro raw hraw
  unfold rawOperations at hr
  split at hr
  · next origin items =>
    cases hr
    obtain ⟨⟨path, item⟩, hitem, hraw⟩ := List.mem_flatMap.mp hraw
    rcases hpaths with htaken | hempty
    · have hpart := htaken.entry hitem
      cases item with
      | mapping itemOrigin pathItem =>
        obtain ⟨method, -, hraw⟩ := List.mem_filterMap.mp hraw
        split at hraw
        · next operationOrigin operation hmethod =>
          cases hraw
          exact ⟨⟨itemOrigin, hpart.part⟩, operationOrigin, (hpart.text? hmethod).part⟩
        · cases hraw
      | _ => cases hraw
    · cases hempty
      cases hitem
  · cases hr

/-! ### The steps of the collection -/

/-- The property of drafts is kept by the steps of which the collection of operations is made. -/
structure Invariant (document : Value) (I : Draft → Prop) : Prop where
  document_eq : ∀ d, I d → d.document = document
  /-- A schema is added. -/
  inline : ∀ (schema : Value) (name key : String), schema.TakenFrom document →
    FreeKeys.paths.Has key → (addInline schema name key).Keeps I fun _ => True
  /-- The record of parameters or of responses is declared. -/
  envelope : ∀ (fields : List (Field Shape)) (name key description : String),
    FreeKeys.paths.Has key →
      (addEnvelope name (.record fields none "" none) key description).Keeps I fun _ => True
  /-- It is looked up what a value stands for. -/
  lookup : ∀ v : Value, (onResolver (Resolver.resolveNode v)).Keeps I fun found =>
    found = v ∨ Part found document

variable {I : Draft → Prop}

namespace Invariant

variable (hI : Invariant document I)
include hI

theorem resolveNode (h : v.TakenFrom document) :
    (onResolver (Resolver.resolveNode v)).Keeps I fun found => found.TakenFrom document := by
  refine (hI.lookup v).imp ?_
  rintro found (rfl | hpart)
  · exact h
  · exact hpart.takenFrom

theorem mergeParameters {merged : List RawParameter} {raws : List Value}
    (hm : ∀ p ∈ merged, Described document p.entries) (hr : ∀ raw ∈ raws, raw.TakenFrom document) :
    (mergeParameters merged raws).Keeps I fun found =>
      ∀ p ∈ found, Described document p.entries := by
  have hput : ∀ (merged : List RawParameter) (p : RawParameter), Described document p.entries →
      (∀ q ∈ merged, Described document q.entries) →
        ∀ q ∈ putParameter merged p, Described document q.entries := by
    intro merged p hp hm
    induction merged with
    | nil => exact List.forall_mem_singleton.mpr hp
    | cons first rest ih =>
      obtain ⟨hfirst, hrest⟩ := List.forall_mem_cons.mp hm
      rw [putParameter]
      split
      · exact List.forall_mem_cons.mpr ⟨hp, hrest⟩
      · exact List.forall_mem_cons.mpr ⟨hfirst, ih hrest⟩
  induction raws generalizing merged with
  | nil => exact Step.keeps_pure hm
  | cons raw rest ih =>
    obtain ⟨hraw, hrest⟩ := List.forall_mem_cons.mp hr
    refine (hI.resolveNode hraw).bind fun found hfound => ?_
    split
    · next origin entries =>
      refine (Step.keeps_ofExcept _).bind fun p hp => ?_
      split
      · next p =>
        have hentries : p.entries = entries := by
          unfold rawParameter? at hp
          split at hp
          · cases hp
          · split at hp <;> cases hp
            rfl
        exact ih (hput merged p (hentries ▸ ⟨origin, hfound.part⟩) hm) hrest
      · exact ih hm hrest
    · exact ih hm hrest

theorem effectiveParameters {pathItem operation : Entries} (hp : Described document pathItem)
    (ho : Described document operation) :
    (effectiveParameters pathItem operation).Keeps I fun found =>
      ∀ p ∈ found, Described document p.entries := by
  refine (Step.keeps_ofExcept _).bind fun shared hshared => ?_
  refine (Step.keeps_ofExcept _).bind fun own hown => ?_
  refine hI.mergeParameters (List.forall_mem_nil _) fun raw hraw => ?_
  rcases List.mem_append.mp hraw with hraw | hraw
  · exact takenFrom_itemsOrNone (hp.getD "parameters") hshared raw hraw
  · exact takenFrom_itemsOrNone (ho.getD "parameters") hown raw hraw

theorem addParameters (hk : FreeKeys.paths.Has key) (typeName : String)
    {parameters : List RawParameter} (hp : ∀ p ∈ parameters, Described document p.entries) :
    (addParameters typeName key parameters).Keeps I fun _ => True := by
  induction parameters with
  | nil => exact Step.keeps_pure trivial
  | cons p rest ih =>
    obtain ⟨hfirst, hrest⟩ := List.forall_mem_cons.mp hp
    have hkey := FreeKeys.paths.append (FreeKeys.paths.append (FreeKeys.paths.append
      (FreeKeys.paths.append hk "/parameters/") p.location.display) "/") p.name
    refine (Step.keeps_ofExcept _).bind fun word _ => ?_
    refine (hI.inline _ _ _ (takenFrom_parameterSchema hfirst) hkey).bind fun node _ => ?_
    exact (Step.keeps_ofExcept _).bind fun _ _ => (ih hrest).bind fun _ _ =>
      Step.keeps_pure trivial

theorem addRequestBody (hk : FreeKeys.paths.Has key) {operation : Entries}
    (ho : Described document operation) (typeName : String) :
    (addRequestBody operation typeName key).Keeps I fun _ => True := by
  refine (hI.resolveNode (ho.getD "requestBody")).bind fun found hfound => ?_
  split
  · split
    · exact Step.keeps_pure trivial
    · refine (Step.keeps_ofExcept _).bind fun schema hschema => ?_
      have htaken := takenFrom_schemaOf (takenFrom_mediaType (hfound.getD "content")) hschema
      exact (hI.inline _ _ _ htaken (FreeKeys.paths.append hk _)).bind fun _ _ =>
        Step.keeps_pure trivial
  · exact Step.keeps_pure trivial

theorem addResponses (hk : FreeKeys.paths.Has key) (typeName : String)
    {responses : List (Scalar × Value)} (hr : ∀ r ∈ responses, r.2.TakenFrom document) :
    (addResponses typeName key responses).Keeps I fun _ => True := by
  induction responses with
  | nil => exact Step.keeps_pure trivial
  | cons entry rest ih =>
    obtain ⟨code, raw⟩ := entry
    obtain ⟨hraw, hothers⟩ := List.forall_mem_cons.mp hr
    refine (hI.resolveNode hraw).bind fun response hresponse => ?_
    have hrest : ∀ node : Option Shape, True → (do
        let others ← Collect.addResponses typeName key rest
        pure ((code.display, node) :: others) : Step Draft _).Keeps I fun _ => True := fun node _ =>
      (ih hothers).bind fun _ _ => Step.keeps_pure trivial
    have hkey := FreeKeys.paths.append (FreeKeys.paths.append hk "/responses/") code.display
    dsimp only
    split
    · exact (Step.keeps_pure (P := fun _ => True) trivial).bind hrest
    · refine (Step.keeps_ofExcept _).bind fun schema hschema => ?_
      have htaken := takenFrom_schemaOf
        (takenFrom_mediaType (takenFrom_memberOrNull hresponse "content")) hschema
      refine (Step.keeps_ofExcept _).bind fun word _ => ?_
      exact ((hI.inline _ _ _ htaken hkey).map (R := fun _ => True) fun _ _ => trivial).bind hrest

theorem addLabels (schemes : Value) (labels : List String) (names : List Scalar) :
    (addLabels schemes labels names).Keeps I fun _ => True := by
  induction names generalizing labels with
  | nil => exact Step.keeps_pure trivial
  | cons name rest ih =>
    exact (Step.keeps_ofExcept _).bind fun _ _ => (hI.lookup _).bind fun _ _ =>
      (Step.keeps_ofExcept _).bind fun _ _ => ih _

theorem securityLabels (operation : Entries) :
    (securityLabels operation).Keeps I fun _ => True :=
  Step.keeps_get.bind fun _ _ => (Step.keeps_ofExcept _).bind fun _ _ =>
    (Step.keeps_ofExcept _).bind fun _ _ => hI.addLabels _ _ _

omit hI in
theorem addIf {condition : Bool} {add : Step Draft String} (h : add.Keeps I fun _ => True) :
    (addIf condition add).Keeps I fun _ => True := by
  unfold Collect.addIf
  split
  · exact h.map fun _ _ => trivial
  · exact Step.keeps_pure trivial

theorem addOperation {raw : RawOperation} (hp : Described document raw.pathItem)
    (ho : Described document raw.entries) (operationId handler : String) :
    (addOperation raw operationId handler).Keeps I fun _ => True := by
  have hk : FreeKeys.paths.Has ("paths." ++ raw.path ++ "." ++ raw.method) :=
    ⟨raw.path ++ "." ++ raw.method, by simp only [String.append_assoc]⟩
  refine (Step.keeps_ofExcept _).bind fun typeName _ => ?_
  refine (hI.effectiveParameters hp ho).bind fun rawParameters hparameters => ?_
  refine (hI.addParameters hk typeName hparameters).bind fun parameters _ => ?_
  refine (hI.addRequestBody hk ho typeName).bind fun body _ => ?_
  refine (Step.keeps_ofExcept _).bind fun rawResponses hresponses => ?_
  refine (hI.addResponses hk typeName (takenFrom_responsesOf ho hresponses)).bind
    fun responses _ => ?_
  refine (addIf (hI.envelope _ _ _ _ (FreeKeys.paths.append hk _))).bind fun _ _ => ?_
  refine (addIf (hI.envelope _ _ _ _ (FreeKeys.paths.append hk _))).bind fun _ _ => ?_
  exact (Step.keeps_ofExcept _).bind fun _ _ => (Step.keeps_ofExcept _).bind fun _ _ =>
    (Step.keeps_ofExcept _).bind fun _ _ => (hI.securityLabels _).bind fun _ _ =>
      Step.keeps_pure trivial

/-- What the steps keep is kept while all operations of the document are collected. -/
theorem operations : operations.Keeps I fun _ => True := by
  have hall : ∀ raws : List (RawOperation × String × String),
      (∀ raw ∈ raws, Described document raw.1.pathItem ∧ Described document raw.1.entries) →
        (addOperations raws).Keeps I fun _ => True := by
    intro raws
    induction raws with
    | nil => exact fun _ => Step.keeps_pure trivial
    | cons raw rest ih =>
      intro hraws
      obtain ⟨⟨hp, ho⟩, hrest⟩ := List.forall_mem_cons.mp hraws
      exact (hI.addOperation hp ho _ _).bind fun _ _ => (ih hrest).bind fun _ _ =>
        Step.keeps_pure trivial
  refine Step.keeps_get.bind fun d hd => ?_
  refine (Step.keeps_ofExcept _).bind fun paths hpaths => ?_
  refine (Step.keeps_ofExcept _).bind fun raws hraws => ?_
  refine (Step.keeps_ofExcept _).bind fun names _ => ?_
  rw [hI.document_eq d hd] at hpaths
  refine hall _ fun raw hraw => ?_
  exact described_of_rawOperations hpaths hraws raw.1 (List.of_mem_zip hraw).1

end Invariant

end Collect

end RouteStubs
