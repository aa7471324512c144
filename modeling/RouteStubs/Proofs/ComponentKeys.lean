import RouteStubs.Proofs.Draft.Arising
import RouteStubs.Proofs.Draft.Registered
import RouteStubs.Proofs.Pointer

/-!
# References to components keep their names

A record inside a shape gets a name for the place where it stands, and if that place has a name already
the name is lost. This does not happen to components. The place of a record spells the reference to one
only where something refers to the mapping of all components as if that were a schema: to a component
that is called `items` or `additionalProperties`, which the mapping is then read with. That record is
what the component is read as, so something has been declared for it by then.

## Main definitions

* `Canon.OnlyMappings`, `Canon.ReadsParts`: a schema that is a mapping of mappings, and what it is read from.
* `Draft.EachNamed`: each of several references was given a name, for which something holds.

## Main statements

* `Shape.At.of_componentRef`: the places that spell the reference to a component.
* `Canon.ReadsEntries.of_mappings`: what a mapping of mappings is read as.
* `Draft.Drafted.not_arises`: no record inside a definition gets a name for the reference to a component.
* `Draft.addComponents_leaves`: so it is when components are added.
-/

namespace RouteStubs

open Text

/-! ### Places -/

namespace Shape

open Registry Pointer

variable {root node record : Shape} {top key name : String}

/-- A piece that is not the first one is among those after the first. -/
theorem mem_of_append_cons {α : Type} {before after rest : List α} {word first : α}
    (hne : before ≠ []) (h : before ++ word :: after = first :: rest) : word ∈ rest := by
  obtain ⟨_, before, rfl⟩ := List.exists_cons_of_ne_nil hne
  rw [List.cons_append, List.cons.injEq] at h
  exact h.2 ▸ List.mem_append_right _ List.mem_cons_self

/-- The step into a shape that leads to a part, and the pieces that it adds to the place. -/
theorem At.exists_step (h : root.At top node key) : (key = top ∧ node = root) ∨
    ∃ outer place, root.At top outer place ∧
      ((∃ word after, word ∈ ["properties".toList, "oneOf".toList] ∧ after ≠ [] ∧
          pieces '/' key.toList = pieces '/' place.toList ++ word :: after) ∨
        (outer = .array node ∧ key = place ++ "/items") ∨
        ((∃ fields description source, outer = .record fields (some node) description source) ∧
          key = place ++ "/additionalProperties")) := by
  have hpieces : ∀ (place after : String) (word : List Char), '/' ∉ word →
      pieces '/' (place.toList ++ '/' :: (word ++ '/' :: after.toList)) =
        pieces '/' place.toList ++ word :: pieces '/' after.toList := by
    intro place after word hw
    rw [pieces_append_sep, pieces_append_sep, pieces_of_notMem hw, List.singleton_append]
  cases h with
  | here => exact .inl ⟨rfl, rfl⟩
  | @field _ _ _ place _ f h _ =>
    refine .inr ⟨_, place, h, .inl ⟨"properties".toList, _, by simp,
      pieces_ne_nil '/' f.name.toList, ?_⟩⟩
    rw [← hpieces _ _ _ (by decide)]
    simp [String.toList_append]
  | further h => exact .inr ⟨_, _, h, .inr (.inr ⟨⟨_, _, _, rfl⟩, rfl⟩)⟩
  | element h => exact .inr ⟨_, _, h, .inr (.inl ⟨rfl, rfl⟩)⟩
  | @variant _ _ place _ index h _ =>
    refine .inr ⟨_, place, h, .inl ⟨"oneOf".toList, _, by simp,
      pieces_ne_nil '/' (toString index).toList, ?_⟩⟩
    rw [← hpieces _ _ _ (by decide)]
    simp [String.toList_append]

theorem pieces_append_word (place word : String) (hw : '/' ∉ word.toList) :
    pieces '/' (place ++ ("/" ++ word)).toList = pieces '/' place.toList ++ [word.toList] := by
  have hl : (place ++ ("/" ++ word)).toList = place.toList ++ '/' :: word.toList := by
    simp [String.toList_append]
  rw [hl, pieces_append_sep, pieces_of_notMem hw]

/-- The words between the name of a shape and that of a part are none of those in a reference to a
component. -/
theorem word_notMem {word : List Char} (h : word ∈ ["properties".toList, "oneOf".toList,
    "items".toList, "additionalProperties".toList]) :
    word ∉ ["components".toList, "schemas".toList] := by
  revert word
  decide

theorem append_word_ne (place word : String) (hw : '/' ∉ word.toList)
    (hm : word.toList ∈ ["properties".toList, "oneOf".toList, "items".toList,
      "additionalProperties".toList]) : place ++ ("/" ++ word) ≠ componentsRef := by
  intro heq
  have hp := pieces_append_word place word hw
  rw [heq, pieces_componentsRef] at hp
  exact word_notMem hm (mem_of_append_cons (pieces_ne_nil '/' place.toList) hp.symm)

/-- No part of a shape stands at the place of the mapping of all components. -/
theorem At.of_componentsRef (h : root.At top node componentsRef) :
    top = componentsRef ∧ node = root := by
  rcases h.exists_step with
    ⟨htop, hnode⟩ | ⟨_, place, -, ⟨word, after, hw, -, hp⟩ | ⟨-, hkey⟩ | ⟨-, hkey⟩⟩
  · exact ⟨htop.symm, hnode⟩
  · rw [pieces_componentsRef] at hp
    exact absurd (mem_of_append_cons (pieces_ne_nil '/' place.toList) hp.symm)
      (word_notMem (List.mem_append_left _ hw))
  · exact absurd hkey.symm (append_word_ne place "items" (by decide) (by decide))
  · exact absurd hkey.symm
      (append_word_ne place "additionalProperties" (by decide) (by decide))

theorem eq_of_append_word (word : String) {place : String} (hw : '/' ∉ word.toList)
    (he : escapeChars word.toList = word.toList) (h : componentRef name = place ++ ("/" ++ word)) :
    place = componentsRef ∧ name = word := by
  have hp : ["#".toList, "components".toList, "schemas".toList] ++ [escapeChars name.toList] =
      pieces '/' place.toList ++ [word.toList] := by
    rw [← pieces_append_word _ _ hw, ← h, pieces_componentRef]
    rfl
  have hescaped : escapeChars name.toList = escapeChars word.toList := by
    rw [he]
    exact (List.cons.inj (List.append_inj' hp rfl).2).1
  have hname : name = word := String.toList_inj.mp (escapeChars_injective hescaped)
  refine ⟨?_, hname⟩
  subst hname
  have hl := congrArg String.toList h
  rw [toList_componentRef, he, String.toList_append, String.toList_append] at hl
  exact (String.toList_inj.mp (List.append_cancel_right hl)).symm

/-- A part of a shape stands at the place of a component only if it is the whole shape, or the elements
or the further values of what stands at the place of the mapping of all components. -/
theorem At.of_componentRef (h : root.At top record (componentRef name)) :
    (top = componentRef name ∧ record = root) ∨
      (top = componentsRef ∧ ((name = "items" ∧ root = .array record) ∨
        (name = "additionalProperties" ∧ ∃ fields description source,
          root = .record fields (some record) description source))) := by
  rcases h.exists_step with
    ⟨htop, hnode⟩ | ⟨_, place, hat, ⟨word, after, hw, hne, hp⟩ | ⟨rfl, hkey⟩ |
      ⟨⟨fields, description, source, rfl⟩, hkey⟩⟩
  · exact .inl ⟨htop.symm, hnode⟩
  · -- something follows the word, so it would stand before the name of the component
    obtain ⟨after, last, rfl⟩ := List.eq_nil_or_concat after |>.resolve_left hne
    rw [pieces_componentRef, List.concat_eq_append, ← List.cons_append, ← List.append_assoc] at hp
    have hfront := congrArg List.dropLast hp
    rw [List.dropLast_concat] at hfront
    exact absurd (mem_of_append_cons (pieces_ne_nil '/' place.toList) hfront.symm)
      (word_notMem (List.mem_append_left _ hw))
  · obtain ⟨rfl, hname⟩ := eq_of_append_word "items" (by decide) (by decide) hkey
    obtain ⟨htop, hroot⟩ := hat.of_componentsRef
    exact .inr ⟨htop, .inl ⟨hname, hroot.symm⟩⟩
  · obtain ⟨rfl, hname⟩ :=
      eq_of_append_word "additionalProperties" (by decide) (by decide) hkey
    obtain ⟨htop, hroot⟩ := hat.of_componentsRef
    exact .inr ⟨htop, .inr ⟨hname, _, _, _, hroot.symm⟩⟩

end Shape

/-! ### Mappings of mappings -/

namespace Canon

variable {points : String → String → Prop} {definitions : Definitions} {sub : Value → Shape → Prop}
  {origin depth : Nat} {entries : Entries} {node : Shape}

/-- Whatever stands at a text key is a mapping. -/
def OnlyMappings (entries : Entries) : Prop :=
  ∀ key v, entries.text? key = some v → v.isMapping = true

/-- The elements of a list are read from what stands under `items`, and the further values of a record
from what stands under `additionalProperties`. -/
structure ReadsParts (sub : Value → Shape → Prop) (entries : Entries) (node : Shape) : Prop where
  element : ∀ {element}, node = .array element → sub (itemsOf entries) element
  further : ∀ {fields tail description source}, node = .record fields (some tail) description source →
    ∃ v, entries.text? "additionalProperties" = some v ∧ sub v tail

theorem readsParts_of_isLeaf (hl : node.IsLeaf) : ReadsParts sub entries node where
  element he := by
    subst he
    cases hl
  further hr := by
    subst hr
    cases hl

theorem ReadsTrailer.of_mappings (hm : OnlyMappings entries) {tail : Shape}
    (h : ReadsTrailer sub entries (some tail)) :
    ∃ v, entries.text? "additionalProperties" = some v ∧ sub v tail := by
  unfold ReadsTrailer at h
  split at h
  · next hfree => cases hm _ _ hfree
  · next hmore =>
    obtain ⟨_, hsub, heq⟩ := h
    cases heq
    exact ⟨_, hmore, hsub⟩
  · cases h

theorem ReadsType.of_mappings (hm : OnlyMappings entries) {source : Source} {type : Scalar}
    (h : ReadsType sub entries source type node) : ReadsParts sub entries node := by
  unfold ReadsType at h
  split at h
  · obtain ⟨element, helement, rfl⟩ := h
    constructor
    · rintro _ ⟨⟩
      exact helement
    · rintro _ _ _ _ ⟨⟩
  · obtain ⟨-, -, further, -⟩ := h
    constructor
    · rintro _ ⟨⟩
    · rintro _ _ _ _ ⟨⟩
      exact further.of_mappings hm
  · rw [h]
    exact readsParts_of_isLeaf trivial
  · rw [h]
    exact readsParts_of_isLeaf trivial

/-- A schema in which there are only mappings is read as a list of what stands under `items`, or as a
record with what stands under `additionalProperties`, if it is read as a list or as a record. -/
theorem ReadsEntries.of_mappings (hm : OnlyMappings entries)
    (h : ReadsEntries points definitions sub origin entries node) : ReadsParts sub entries node := by
  have hkey := key_of_ruleOf entries
  unfold ReadsEntries at h
  split at h
  · obtain ⟨r, name, -, -, rfl⟩ := h
    exact readsParts_of_isLeaf trivial
  · next hrule =>
    obtain ⟨listed, rfl, -⟩ := h
    rw [hrule] at hkey
    cases hm _ _ hkey
  · next members hrule =>
    rw [hrule] at hkey
    have hmapping : members.isMapping = true := hkey.elim (hm _ _) (hm _ _)
    cases members with
    | mapping _ _ =>
      rw [show node = .unknown from h]
      exact readsParts_of_isLeaf trivial
    | _ => cases hmapping
  · next listed hrule =>
    rw [show node = enumeration listed from h]
    rcases enumeration_cases listed with he | ⟨_, he⟩ <;> rw [he] <;>
      exact readsParts_of_isLeaf trivial
  · next type hrule =>
    rw [hrule] at hkey
    cases htype : entries.text? "type" with
    | some v =>
      rw [htype, Option.getD_some] at hkey
      subst hkey
      cases type with
      | mapping _ _ =>
        rw [show node = .unknown from h]
        exact readsParts_of_isLeaf trivial
      | _ => cases hm _ _ htype
    | none =>
      rw [htype, Option.getD_none] at hkey
      subst hkey
      exact ReadsType.of_mappings hm h

/-- With null added it is read as neither. -/
theorem Reads.of_mappings (hm : OnlyMappings entries)
    (h : Reads points definitions depth (.mapping origin entries) node) :
    ∃ depth, ReadsParts (Reads points definitions depth) entries node := by
  cases depth with
  | zero => cases h
  | succ depth =>
    obtain ⟨plain, hplain, hnode⟩ := h
    split at hnode
    · subst hnode
      exact ⟨depth, fun he => absurd he Shape.orNull_ne_array,
        fun hr => absurd hr Shape.orNull_ne_record⟩
    · subst hnode
      exact ⟨depth, hplain.of_mappings hm⟩

end Canon

/-! ### Records inside definitions -/

namespace Draft

open Registry Shape Value

variable {document : Value} {roots : Value → Prop} {reserved : List String} {d d' : Draft}
  {origin : Nat} {entries : Entries} {refs : List String} {P Q : String → Prop} {id name : String}
  {root node : Shape} {g g' : Given}

/-- Each of these references was given a name, for which this holds. -/
def EachNamed (d : Draft) (refs : List String) (P : String → Prop) : Prop :=
  ∀ ref ∈ refs, ∃ g ∈ d.registry.given, g.origin = .schema ∧ g.key = ref ∧ P g.id

theorem mem_componentRefs {v : Value} (h : (.text name, v) ∈ entries) :
    componentRef name ∈ componentRefs entries :=
  List.mem_map.mpr ⟨(.text name, v), h, by rw [Scalar.display]⟩

/-- A record with fields in a definition is of a mapping. -/
theorem Sprung.exists_source (h : d.Sprung roots node) (hf : ¬ node.Flat) :
    ∃ s, node.source? = some s := by
  obtain ⟨_, _, _, _, _, rfl⟩ := not_flat_iff.mp hf
  obtain ⟨s, rfl, -⟩ := h _ _ _ _ rfl
  exact ⟨s, rfl⟩

/-- A component is defined as what its entry reads as. -/
theorem EachNamed.exists_entry (h : d.EachNamed (componentRefs entries) P)
    (hP : ∀ id, P id → (d.progress.definitions.find? id).isSome) (hd : d.Drafted .all document)
    (hs : Document.schemas document = .ok (.mapping origin entries))
    (hm : componentRef name ∈ componentRefs entries) :
    ∃ v depth id node, entries.text? name = some v ∧ v.isMapping = true ∧ P id ∧
      d.progress.definitions.find? id = some node ∧
        Canon.Reads (naming.Points d.progress) d.progress.definitions depth v node := by
  have hne : entries ≠ [] := by
    rintro rfl
    cases hm
  obtain ⟨g, hg, -, hkey, hp⟩ := h _ hm
  obtain ⟨node, hnode⟩ := Option.isSome_iff_exists.mp (hP g.id hp)
  obtain ⟨g', hg', hid, v, depth, ht, hr⟩ := hd.exists_given hnode
  obtain rfl := hd.sound.eq_of_id hg' hg hid
  rw [hkey] at ht
  obtain ⟨hv, hmapping⟩ := Document.target_componentRef hs hne ht
  exact ⟨v, depth, g'.id, node, hv, hmapping, hp, hnode, hr⟩

/-- All components are mappings. -/
theorem EachNamed.onlyMappings (h : d.EachNamed (componentRefs entries) P)
    (hP : ∀ id, P id → (d.progress.definitions.find? id).isSome) (hd : d.Drafted .all document)
    (hs : Document.schemas document = .ok (.mapping origin entries)) :
    Canon.OnlyMappings entries := by
  intro key v hv
  obtain ⟨v', _, _, _, hv', hmapping, -⟩ :=
    h.exists_entry hP hd hs (mem_componentRefs (mem_of_text? hv))
  cases hv.symm.trans hv'
  exact hmapping

theorem Registered.isSome_find? (h : d.Registered id) : (d.progress.definitions.find? id).isSome := by
  obtain ⟨node, hnode, -⟩ := h
  exact Option.isSome_iff_exists.mpr ⟨node, hnode⟩

theorem Preempts.isSome_find? (h : d.Preempts id) : (d.progress.definitions.find? id).isSome := by
  obtain ⟨node, hnode, -⟩ := h
  exact Option.isSome_iff_exists.mpr ⟨node, hnode⟩

/-- The record that a definition reads a component as has a declaration. -/
theorem EachNamed.isSome_ofSource? (h : d.EachNamed (componentRefs entries) d.Preempts)
    (hd : d.Drafted .all document) (hs : Document.schemas document = .ok (.mapping origin entries))
    (hm : componentRef name ∈ componentRefs entries) {v : Value} {depth : Nat}
    (hv : entries.text? name = some v)
    (hr : Canon.Reads (naming.Points d.progress) d.progress.definitions depth v node)
    (hsprung : d.Sprung roots node) (hflat : ¬ node.Flat) : (d.ofSource? node.source?).isSome := by
  obtain ⟨s, hsource⟩ := hsprung.exists_source hflat
  obtain ⟨v', _, id, other, hv', -, ⟨_, hother, hpreempts⟩, hother', hr'⟩ :=
    h.exists_entry (fun _ => Preempts.isSome_find?) hd hs hm
  cases hv.symm.trans hv'
  cases hother.symm.trans hother'
  -- what the two readings have come first is of the same mapping
  have halike := hd.walked.alike (List.prefix_refl _) (List.prefix_refl _) hr hr'
  obtain ⟨_, _, _, _, _, rfl⟩ := not_flat_iff.mp hflat
  obtain ⟨record, hfirst, hfields, hsame⟩ := halike.exists_foremost (List.cons_ne_nil _ _)
  rw [hsource]
  exact hpreempts record s hfirst hfields (hsame.trans hsource)

/-- No record inside a definition gets a name for the reference to a component. -/
theorem Drafted.not_arises (hdoc : roots document) (hd : d.Drafted .all document)
    (hnames : (empty reserved).Grows (fun _ => True) d.registry)
    (hs : Document.schemas document = .ok (.mapping origin entries))
    (hregistered : d.EachNamed (componentRefs entries) d.Registered)
    (hpreempts : g.key = componentsRef → d.EachNamed (componentRefs entries) d.Preempts)
    (hg : g ∈ d.registry.given) (ho : g.origin = .schema)
    (hroot : d.progress.definitions.find? g.id = some root) (hk : g'.key ∈ componentRefs entries) :
    ¬ d.Arises root g.key g' := by
  rintro ⟨record, hat, hflat, hnone⟩
  have hsprung := sprung_definition hdoc hd.walked hroot
  obtain ⟨⟨scalar, _⟩, he, hkey⟩ := List.mem_map.mp hk
  have hm : componentRef scalar.display ∈ componentRefs entries := hkey ▸ hk
  rw [← hkey] at hat
  rcases hat.of_componentRef with ⟨htop, rfl⟩ | ⟨htop, hpart⟩
  · -- the definition is that of the component
    obtain ⟨g₀, hg₀, ho₀, hkey₀, node, hnode, hclaimed⟩ := hregistered _ hm
    obtain rfl := hnames.eq_of_key hg hg₀ ho ho₀ (htop.trans hkey₀.symm)
    cases hroot.symm.trans hnode
    obtain ⟨s, hsource⟩ := hsprung.self.exists_source hflat
    rw [hsource] at hnone
    have hsome := hclaimed s hsource
    rw [show d.bySource.lookup s = none from hnone] at hsome
    cases hsome
  · -- the definition is what the mapping of all components reads as
    have hpre := hpreempts htop
    have hentries : entries ≠ [] := List.ne_nil_of_mem he
    obtain ⟨g₁, hg₁, hid, found, depth, ht, hread⟩ := hd.exists_given hroot
    obtain rfl := hd.sound.eq_of_id hg₁ hg hid
    rw [htop, Document.target_componentsRef hs hentries] at ht
    cases ht
    have hmappings := hpre.onlyMappings (fun _ => Preempts.isSome_find?) hd hs
    obtain ⟨v, _, _, _, hv, -⟩ := hpre.exists_entry (fun _ => Preempts.isSome_find?) hd hs hm
    obtain ⟨depth', hparts⟩ := hread.of_mappings hmappings
    rcases hpart with ⟨hname, rfl⟩ | ⟨hname, fields, description, source, rfl⟩
    · -- it is a list, and the record is read from its items
      have hitems : Canon.itemsOf entries = v := by rw [Canon.itemsOf, ← hname, hv, Option.getD_some]
      have hsome := hpre.isSome_ofSource? hd hs hm hv (hitems ▸ hparts.element rfl)
        (hsprung.child .element).self hflat
      rw [hnone] at hsome
      cases hsome
    · -- it is a record, and the record inside is read from its further values
      obtain ⟨w, hw, hread'⟩ := hparts.further rfl
      rw [← hname, hv] at hw
      cases hw
      have hsome := hpre.isSome_ofSource? hd hs hm hv hread' (hsprung.child .further).self hflat
      rw [hnone] at hsome
      cases hsome

/-! ### Filling components in -/

theorem EachNamed.mono (hg : d.Grows d') (h : d.EachNamed refs P) (hP : ∀ id, P id → Q id) :
    d'.EachNamed refs Q := by
  intro ref href
  obtain ⟨g, hgm, ho, hkey, hp⟩ := h ref href
  exact ⟨g, hg.given hgm, ho, hkey, hP g.id hp⟩

/-- While only references have names, a reference that has a name was given it. -/
theorem OnlyReferences.eachNamed (ho : d.OnlyReferences) (hd : d.Drafted .all document)
    (hn : ∀ ref ∈ refs, ∃ id, d.registry.index.lookup ref = some id ∧ P id) : d.EachNamed refs P := by
  intro ref href
  obtain ⟨id, hid, hp⟩ := hn ref href
  obtain ⟨g, hg, rfl, hkey⟩ := exists_of_keyOf? (hd.sound.keyOf?_of_lookup hid)
  exact ⟨g, hg, ho g hg, hkey, hp⟩

theorem OnlyReferences.leaves (ho : d.OnlyReferences) (refs : List String) : d.Leaves refs :=
  fun g hg _ => ho g hg

theorem Leaves.of_arising {names : List Given} (h : d.Leaves refs)
    (hnew : ∀ g ∈ d'.registry.given, g ∈ d.registry.given ∨ d.ArisesFrom names g)
    (hno : ∀ g₀ ∈ names, ∀ root, d.progress.definitions.find? g₀.id = some root →
      ∀ g, g₀.origin = .schema → g.key ∈ refs → ¬ d.Arises root g₀.key g) : d'.Leaves refs := by
  intro g hg hk
  rcases hnew g hg with hg | ⟨g₀, hg₀, ho, root, hroot, ha⟩
  · exact h g hg hk
  · exact absurd ha (hno g₀ hg₀ root hroot g ho hk)

theorem fillPending_append (names more : List Given) :
    fillPending (names ++ more) =
      (fillPending names >>= fun _ => fillPending more : Step Draft Unit) := by
  induction names with
  | nil => rfl
  | cons g rest ih =>
    simp only [List.cons_append, fillPending, ih, bind_assoc]
    refine bind_congr fun d => ?_
    split
    · simp only [bind_assoc]
      refine bind_congr fun node => bind_congr fun _ => ?_
      split
      · simp only [bind_assoc]
      · rfl
    · rfl

/-- Components are filled in before other references, so none of the names that are given meanwhile is for
the reference to a component. -/
theorem fillAll_leaves (hdoc : roots document) (hd : d.Drafted .all document) (hshared : d.Shared roots)
    (ho : d.OnlyReferences) (hnames : (empty reserved).Grows (fun _ => True) d.registry)
    (hs : Document.schemas document = .ok (.mapping origin entries))
    (hregistered : d.EachNamed (componentRefs entries) d.Registered) {first others : List Given}
    (hgiven : d.registry.given = first ++ others)
    (hfirst : ∀ g ∈ d.registry.given, g ∈ first ↔ g.key ∈ componentRefs entries) :
    fillAll.Ends d (fun _ d' => d.Grows d' ∧ d'.Leaves (componentRefs entries)) fun _ _ => True := by
  have hsub : first ⊆ d.registry.given := hgiven ▸ List.subset_append_left _ _
  have hsub' : others ⊆ d.registry.given := hgiven ▸ List.subset_append_right _ _
  simp only [fillAll, Step.ends_bind, Step.ends_get]
  rw [hgiven, fillPending_append, Step.ends_bind]
  apply ((fillPending_ends first hd ho.full hsub).and
    ((fillPending_shares hdoc first hd hshared ho.full hsub).and
      (fillPending_arising first hd ho.full hsub))).forget
  rintro _ d₁ ⟨⟨hfills, hd₁, -, hfilled⟩, ⟨hshared₁, -⟩, harising⟩
  have hleaves₁ : d₁.Leaves (componentRefs entries) := by
    refine (ho.leaves _).of_arising harising fun g₀ hg₀ root hroot g ho₀ hk => ?_
    refine hd.not_arises hdoc hnames hs hregistered (fun hkey => ?_) (hsub hg₀) ho₀ hroot hk
    obtain ⟨e, -, he⟩ := List.mem_map.mp ((hfirst g₀ (hsub hg₀)).mp hg₀)
    exact absurd (he.trans hkey) (componentRef_ne_componentsRef _)
  have hregistered₁ : d₁.EachNamed (componentRefs entries) d₁.Registered :=
    hregistered.mono hfills.grows fun _ => Registered.mono hfills.grows
  have hpreempts₁ : d₁.EachNamed (componentRefs entries) d₁.Preempts := by
    intro ref href
    obtain ⟨g, hg, ho, hkey, hr⟩ := hregistered ref href
    have hg₁ := hfills.grows.given hg
    refine ⟨g, hg₁, ho, hkey, hshared₁.preempts hg₁ ho ?_ (hr.mono hfills.grows)⟩
    exact hfilled g ((hfirst g hg).mpr (hkey ▸ href)) hr.isSome_find?
  have hnames₁ := hnames.trans hfills.grows.registry
  have hsub₁ : ∀ g ∈ others, g ∈ d₁.registry.given := fun g hg => hfills.grows.given (hsub' hg)
  apply ((fillPending_ends others hd₁ (hfills.full ho.full) hsub₁).and
    (fillPending_arising others hd₁ (hfills.full ho.full) hsub₁)).forget
  rintro _ d₂ ⟨⟨hfills₂, -⟩, harising₂⟩
  refine ⟨hfills.grows.trans hfills₂.grows, hleaves₁.of_arising harising₂ ?_⟩
  intro g₀ hg₀ root hroot g ho₀ hk
  exact hd₁.not_arises hdoc hnames₁ hs hregistered₁ (fun _ => hpreempts₁) (hsub₁ g₀ hg₀) ho₀ hroot hk

/-- If only these references have names, then they are what was given a name when names are given to more
references. -/
theorem OnlyReferences.mem_given_iff (ho : d.OnlyReferences) (hd : d.Drafted .all document)
    (hnamed : ∀ ref ∈ refs, ∃ id, d.registry.index.lookup ref = some id)
    (hkeys : ∀ g ∈ d.registry.given, g.key ∈ refs) (hr : References .all document d d')
    (hnames : (empty reserved).Grows (fun _ => True) d'.registry) (hg : g ∈ d'.registry.given) :
    g ∈ d.registry.given ↔ g.key ∈ refs := by
  refine ⟨hkeys g, fun hk => ?_⟩
  obtain ⟨id, hid⟩ := hnamed g.key hk
  obtain ⟨g', hg', -, hkey⟩ := exists_of_keyOf? (hd.sound.keyOf?_of_lookup hid)
  rwa [← hnames.eq_of_key (hr.grows.given hg') hg (ho g' hg') (ho.of_grows hr.names g hg) hkey]

/-- Adding components gives names to them first, and later no record inside a shape gets a name for the
reference to one of them. -/
theorem addComponents_leaves (document : Value) (reserved : List String) :
    addComponents.Ends (start document reserved)
      (fun _ d' => ∃ origin entries d₁,
        Document.schemas document = .ok (.mapping origin entries) ∧
          (nameComponents (entries.map fun e => e.1.display)).runFrom (start document reserved) =
            (.ok (), d₁) ∧ d₁.Grows d' ∧ d'.Leaves (componentRefs entries))
      fun _ _ => True := by
  let roots : Value → Prop := (· = document)
  have hdoc : roots document := rfl
  have hshared := shared_start roots document reserved
  have hd := drafted_start .all document reserved
  have ho := onlyReferences_start document reserved
  simp only [addComponents]
  rw [Step.ends_bind, Step.ends_get, Step.ends_bind, Step.ends_ofExcept]
  refine ⟨fun schemas hs => ?_, fun _ _ => trivial⟩
  split
  · next origin entries =>
    rw [Step.ends_bind]
    apply ((Step.ends_self _ _).and ((nameComponents_shares _ hd hshared).and
      (nameComponents_refers (C := course document) [] _ _ hd ho trivial))).forget
    rintro _ d₁ ⟨hrun, ⟨hp₁, hnamed⟩, hr₁, -, hkeys₁⟩
    rw [map_componentRef] at hkeys₁
    have href₁ := hp₁.references
    have ho₁ := ho.of_grows href₁.names
    have hnames₁ : (empty reserved).Grows (fun _ => True) d₁.registry := href₁.grows.registry
    have hnamed₁ : ∀ ref ∈ componentRefs entries, ∃ id, d₁.registry.index.lookup ref = some id :=
      forall_componentRefs.mpr hnamed
    rw [Step.ends_bind]
    apply ((addSchemas_shares entries href₁.drafted hp₁.shared hnamed₁ (ho₁.leaves _)).and
      (addSchemas_registers (C := course document) entries (fun _ h => h) d₁ hnames₁ hnamed₁
        href₁.drafted ho₁ trivial)).forget
    rintro _ d₂ ⟨hp₂, -, hregisters⟩
    have href₂ := hp₂.references
    have ho₂ := ho₁.of_grows href₂.names
    have hnames₂ : (empty reserved).Grows (fun _ => True) d₂.registry :=
      hnames₁.trans href₂.grows.registry
    have hregistered : d₂.EachNamed (componentRefs entries) d₂.Registered := by
      refine ho₂.eachNamed href₂.drafted fun ref href => ?_
      obtain ⟨id, hid⟩ := hnamed₁ ref href
      have hid₂ := href₂.names.lookup_index hid
      exact ⟨id, hid₂, hregisters ref href id hid₂⟩
    obtain ⟨others, hgiven⟩ := href₂.grows.registry.given_mono
    apply (fillAll_leaves hdoc href₂.drafted hp₂.shared ho₂ hnames₂ hs hregistered hgiven.symm
      fun g hg => ?_).forget
    · rintro _ d₃ ⟨hgrows, hleaves⟩
      exact ⟨origin, entries, d₁, hs, hrun, href₂.grows.trans hgrows, hleaves⟩
    · refine ho₁.mem_given_iff href₁.drafted hnamed₁ (fun g hg => ?_) href₂ hnames₂ hg
      exact ((hkeys₁ g hg).resolve_left List.not_mem_nil).2
  · exact Step.ends_bind_throw _ fun _ _ => trivial
  · exact Step.ends_bind_throw _ fun _ _ => trivial
  · trivial

end Draft

end RouteStubs
