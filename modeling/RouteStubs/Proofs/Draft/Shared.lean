import RouteStubs.Proofs.Draft.Calls
import RouteStubs.Proofs.Draft.Mirrored
import RouteStubs.Proofs.Schema.Again

/-!
# Shared declarations

Each record with fields that stands inside another shape is replaced by the handle of the declaration
of its mapping. The first record that is read from the mapping makes the declaration, and the ones that
are read from it later share it. A record remembers the mapping that it was read from, so what is
declared for a mapping is alike to each record that has its identity.

## Main definitions

* `Value.Identified`: identities tell mappings apart, which `Value.mappings` lists.
* `Draft.Springs`: a record is read from the mapping whose identity it has.
* `Draft.Renders`: a shape with the handles of the declarations of mappings for the records in it.
* `Draft.Shared`: the declaration of a mapping renders a record of the mapping.

## Main statements

* `Draft.alike_of_springs`: the records of one mapping are alike.
* `Draft.Shared.of_fill`, `Draft.Shared.of_opened`, `Draft.Shared.of_closed`: declarations are added.
-/

namespace RouteStubs

namespace Value

variable (roots : Value → Prop)

/-- Identities tell mappings apart: two mappings in the values that have one identity have the same
entries. -/
def Identified : Prop :=
  ∀ origin entries entries' root root', roots root → roots root' →
    Part (.mapping origin entries) root → Part (.mapping origin entries') root' → entries = entries'

/-- The schema is a part of one of the values, or null, which stands for what is not given. -/
def Within (v : Value) : Prop := v = .null ∨ ∃ root, roots root ∧ Part v root

variable {roots}

theorem Within.part {v w : Value} (h : Within roots w) (hp : v = .null ∨ Part v w) :
    Within roots v := by
  rcases hp with rfl | hp
  · exact .inl rfl
  · rcases h with rfl | ⟨root, hr, hw⟩
    · cases hp
      exact .inl rfl
    · exact .inr ⟨root, hr, hp.trans hw⟩

theorem Identified.eq (hi : Identified roots) {origin : Nat} {entries entries' : Entries}
    (h : Within roots (.mapping origin entries)) (h' : Within roots (.mapping origin entries')) :
    entries = entries' := by
  obtain ⟨root, hr, hp⟩ := h.resolve_left nofun
  obtain ⟨root', hr', hp'⟩ := h'.resolve_left nofun
  exact hi origin entries entries' root root' hr hr' hp hp'

mutual

/-- The mappings in the value, with their identities. -/
def mappings : Value → List (Nat × Entries)
  | .scalar _ => []
  | .list items => mappingsOfItems items
  | .mapping origin entries => (origin, entries) :: mappingsOfEntries entries

/-- The mappings in the items of a list. -/
def mappingsOfItems : List Value → List (Nat × Entries)
  | [] => []
  | v :: rest => mappings v ++ mappingsOfItems rest

/-- The mappings in the entries of a mapping. -/
def mappingsOfEntries : List (Scalar × Value) → List (Nat × Entries)
  | [] => []
  | (_, v) :: rest => mappings v ++ mappingsOfEntries rest

end

theorem mappings_of_item {v : Value} {items : List Value} (h : v ∈ items) :
    v.mappings ⊆ mappingsOfItems items := by
  induction items with
  | nil => cases h
  | cons first rest ih =>
    rw [mappingsOfItems]
    rcases List.mem_cons.mp h with rfl | h
    · exact List.subset_append_left _ _
    · exact List.subset_append_of_subset_right _ (ih h)

theorem mappings_of_entry {key : Scalar} {v : Value} {entries : Entries} (h : (key, v) ∈ entries) :
    v.mappings ⊆ mappingsOfEntries entries := by
  induction entries with
  | nil => cases h
  | cons first rest ih =>
    obtain ⟨k, w⟩ := first
    rw [mappingsOfEntries]
    rcases List.mem_cons.mp h with heq | h
    · cases heq
      exact List.subset_append_left _ _
    · exact List.subset_append_of_subset_right _ (ih h)

/-- The mappings of a part are mappings of the whole. -/
theorem Part.mappings {v w : Value} (h : Part v w) : v.mappings ⊆ w.mappings := by
  induction h with
  | refl => exact List.Subset.refl _
  | item _ hm ih =>
    rw [Value.mappings]
    exact List.Subset.trans ih (mappings_of_item hm)
  | entry _ hm ih =>
    rw [Value.mappings]
    exact List.Subset.trans ih (List.subset_cons_of_subset _ (mappings_of_entry hm))

/-- Identities tell the mappings in a value apart if each is found again by its identity. -/
theorem identified_of_mappings {root : Value}
    (h : (root.mappings.map fun m => root.mappings.lookup m.1) =
      root.mappings.map fun m => some m.2) : Identified (Part · root) := by
  have hfound : ∀ origin entries v, Part v root → Part (.mapping origin entries) v →
      root.mappings.lookup origin = some entries := fun origin entries v hv hm =>
    List.map_inj_left.mp h (origin, entries) ((hm.trans hv).mappings List.mem_cons_self)
  intro origin entries entries' v v' hv hv' hm hm'
  have heq := (hfound origin entries v hv hm).symm.trans (hfound origin entries' v' hv' hm')
  exact Option.some.inj heq

end Value

namespace Draft

open Registry Shape Value

variable {free : FreeKeys} {document : Value} {roots : Value → Prop} {d d' : Draft}
  {id key : String} {s : Source} {node other record found : Shape}

/-! ### Where records come from -/

/-- The record is what a mapping of its identity, inside the values, reads as. -/
def Springs (roots : Value → Prop) (d : Draft) (s : Source) (record : Shape) : Prop :=
  ∃ depth entries, Within roots (.mapping s.origin entries) ∧
    Canon.ReadsSource d.progress.definitions
      (Canon.Reads (naming.Points d.progress) d.progress.definitions depth) s.origin entries s record

/-- If the shape is a record, then it has an identity and springs from a mapping. -/
def Sprung (roots : Value → Prop) (d : Draft) (node : Shape) : Prop :=
  ∀ fields trailer description source, node = .record fields trailer description source →
    ∃ s, source = some s ∧ d.Springs roots s node

theorem Springs.mono (hg : d.Grows d') (hc : d.progress.resolver.chain = [])
    (h : d.Springs roots s record) : d'.Springs roots s record := by
  obtain ⟨depth, entries, hw, hr⟩ := h
  exact ⟨depth, entries, hw, hr.mono hg.definitions fun _ _ hv =>
    hv.mono (fun _ _ => hg.points hc) hg.definitions⟩

theorem Sprung.mono (hg : d.Grows d') (hc : d.progress.resolver.chain = [])
    (h : d.Sprung roots node) : d'.Sprung roots node := by
  intro fields trailer description source hn
  obtain ⟨s, hs, hspring⟩ := h _ _ _ _ hn
  exact ⟨s, hs, hspring.mono hg hc⟩

/-- A shape that springs from a mapping and has its identity. -/
theorem Sprung.springs (h : d.Sprung roots record) (hs : record.source? = some s) :
    d.Springs roots s record := by
  cases record with
  | record fields trailer description source =>
    obtain ⟨t, rfl, hspring⟩ := h _ _ _ _ rfl
    cases hs
    exact hspring
  | _ => cases hs

/-- The records that spring from one mapping are alike. -/
theorem alike_of_springs (hi : Identified roots) (hw : naming.Walked document d.progress)
    (h : d.Springs roots s record) (h' : d.Springs roots s found) :
    record.Alike (naming.stands d.registry) found := by
  obtain ⟨depth, entries, hin, hr⟩ := h
  obtain ⟨depth', entries', hin', hr'⟩ := h'
  obtain rfl := hi.eq hin hin'
  exact hw.alike_source hr hr'

section Reading

theorem sprung_of_ne_record
    (h : ∀ fields trailer description source, node ≠ .record fields trailer description source) :
    d.Sprung roots node := fun _ _ _ _ hn => absurd hn (h _ _ _ _)

theorem sprung_of_isBasic (h : node.IsBasic) : d.Sprung roots node := by
  apply sprung_of_ne_record
  rintro _ _ _ _ rfl
  cases h

theorem sprung_enumeration (listed : Value) : d.Sprung roots (Canon.enumeration listed) := by
  rcases Canon.enumeration_cases listed with he | ⟨_, he⟩ <;> rw [he] <;>
    exact sprung_of_ne_record nofun

theorem sprung_of_readsSource {depth origin : Nat} {entries : Entries}
    (hin : Within roots (.mapping origin entries))
    (hr : Canon.ReadsSource d.progress.definitions
      (Canon.Reads (naming.Points d.progress) d.progress.definitions depth) origin entries s record) :
    d.Sprung roots record := by
  obtain ⟨_, _, _, rfl⟩ := hr.exists_record
  cases hr.origin_eq
  rintro _ _ _ _ ⟨⟩
  exact ⟨s, rfl, depth, entries, hin, hr⟩

variable (roots d) in
/-- What the rules make of what is inside the values springs from mappings. -/
theorem ruleClosed_sprung (tie : Canon.Tie) (depth : Nat) :
    Canon.RuleClosed tie (naming.Points d.progress) d.progress.definitions
      (Canon.Reads (naming.Points d.progress) d.progress.definitions depth) (Within roots)
      (d.Sprung roots) where
  basic _ := sprung_of_isBasic
  record := sprung_of_readsSource
  union _ _ := sprung_of_ne_record nofun
  untold _ := sprung_of_ne_record nofun
  orNull _ := sprung_of_ne_record nofun
  values _ _ := sprung_enumeration _
  handle _ := sprung_of_ne_record nofun
  parts hin _ hv := hin.part (Canon.part_of_mem_parts hv)

variable (hdoc : roots document)
include hdoc

/-- The records in definitions spring from mappings of the document. -/
theorem sprung_definition (hw : naming.Walked document d.progress)
    (hf : d.progress.definitions.find? id = some node) : node.Throughout (d.Sprung roots) :=
  hw.throughout (ruleClosed_sprung roots d _)
    (fun ht => .inr ⟨document, hdoc, (Resolver.part_of_target ht).1⟩) id node hf

/-- The records in what a schema reads as spring from mappings. -/
theorem sprung_reads (hw : naming.Walked document d.progress) {depth : Nat} {schema : Value}
    (hin : Within roots schema)
    (hr : Canon.Reads (naming.Points d.progress) d.progress.definitions depth schema node) :
    node.Throughout (d.Sprung roots) :=
  hr.throughout (ruleClosed_sprung roots d _) (fun _ _ hn => sprung_definition hdoc hw hn) hin

end Reading

/-! ### Rendered shapes -/

/-- The handle is that of the declaration of the mapping that the record was read from. -/
def Claims (d : Draft) (record : Shape) (id : String) : Prop := d.ofSource? record.source? = some id

/-- The shape with the handles of the declarations of mappings for the records inside it. -/
def Renders (d : Draft) (node other : Shape) : Prop := node.Mirrors d.Claims d.Settles other

/-- What takes the place of the shape inside another one. -/
def RendersInside (d : Draft) (node placed : Shape) : Prop :=
  node.MirrorsInside d.Claims d.Settles placed

theorem Renders.mono (hg : d.Grows d') (h : d.Renders node other) : d'.Renders node other :=
  Mirrors.imp (fun _ _ _ => Settles.mono hg) node (fun _ _ _ => hg.ofSource?) h

theorem RendersInside.mono (hg : d.Grows d') (h : d.RendersInside node other) :
    d'.RendersInside node other :=
  MirrorsInside.imp (fun _ _ _ => Settles.mono hg) (fun _ _ _ => hg.ofSource?) h

theorem mirrorsFields_mono (hg : d.Grows d') {fields others : List (Field Shape)}
    (h : MirrorsFields d.Claims d.Settles fields others) :
    MirrorsFields d'.Claims d'.Settles fields others :=
  MirrorsFields.imp (fun _ _ _ => Settles.mono hg) fields (fun _ _ _ _ _ => hg.ofSource?) h

/-! ### Declarations of mappings -/

/-- The name is the declaration of the mapping: it was given to a reference that is defined as a record
of the mapping, or to such a record inside a shape, which it renders once it is filled in. -/
def Declared (roots : Value → Prop) (d : Draft) (s : Source) (id : String) : Prop :=
  ∃ g ∈ d.registry.given, g.id = id ∧
    ((g.origin = .schema ∧ ∃ record, d.progress.definitions.find? id = some record ∧
        record.source? = some s) ∨
      (g.origin = .inline ∧ ∀ filled, d.nodes.lookup id = some filled →
        ∃ record, record.source? = some s ∧ record.Throughout (d.Sprung roots) ∧
          d.Renders record filled))

/-- What holds of the declarations of mappings at any time: they render records of the mappings, what
is filled in for a reference renders its definition, and each record that is declared inside a shape is
declared for a mapping. -/
structure Shared (roots : Value → Prop) (d : Draft) : Prop where
  declared : ∀ s id, d.bySource.lookup s = some id → d.Declared roots s id
  rendered : ∀ g ∈ d.registry.given, g.origin = .schema → ∀ filled,
    d.nodes.lookup g.id = some filled →
      ∃ node, d.progress.definitions.find? g.id = some node ∧ d.Renders node filled
  claimed : ∀ g ∈ d.registry.given, g.origin = .inline → ∃ s, d.bySource.lookup s = some g.id

theorem shared_start (roots : Value → Prop) (document : Value) (reserved : List String) :
    (start document reserved).Shared roots where
  declared _ _ hl := by cases hl
  rendered _ hg := by cases hg
  claimed _ hg := by cases hg

theorem Declared.mono (hg : d.Grows d') (hc : d.progress.resolver.chain = [])
    (hn : d'.nodes.lookup id = d.nodes.lookup id) (h : d.Declared roots s id) :
    d'.Declared roots s id := by
  obtain ⟨g, hgm, hid, h⟩ := h
  refine ⟨g, hg.given hgm, hid, h.imp ?_ ?_⟩
  · rintro ⟨ho, record, hf, hs⟩
    exact ⟨ho, record, Definitions.find?_mono hg.definitions hf, hs⟩
  · rintro ⟨ho, hall⟩
    refine ⟨ho, fun filled hf => ?_⟩
    obtain ⟨record, hs, hsprung, hr⟩ := hall filled (hn ▸ hf)
    exact ⟨record, hs, hsprung.imp fun _ => Sprung.mono hg hc, hr.mono hg⟩

/-- Names are given to references, and nothing is filled in or declared. -/
theorem Shared.of_names (h : d.Shared roots) (hd : d.Drafted free document)
    (hd' : d'.Drafted free document) (hg : d.Grows d')
    (hr : d.registry.Grows (·.origin = .schema) d'.registry) (hn : d'.nodes = d.nodes)
    (hb : d'.bySource = d.bySource) : d'.Shared roots where
  declared s id hl := (h.declared s id (hb ▸ hl)).mono hg hd.chain (by rw [hn])
  rendered g hgm ho filled hf := by
    -- what is filled in has been given before
    rw [hn] at hf
    obtain ⟨g', hgm', hid, -⟩ := hd.filled g.id filled hf
    obtain rfl := hd'.sound.eq_of_id (hg.given hgm') hgm hid
    obtain ⟨node, hnode, hrenders⟩ := h.rendered g' hgm' ho filled hf
    exact ⟨node, Definitions.find?_mono hg.definitions hnode, hrenders.mono hg⟩
  claimed g hgm ho := by
    rw [hb]
    rcases hr.mem_or_allowed hgm with hgm | hschema
    · exact h.claimed g hgm ho
    · cases ho.symm.trans hschema

theorem Shared.of_describe (h : d.Shared roots) (id description : String) :
    (d.describe id description).Shared roots :=
  ⟨h.declared, h.rendered, h.claimed⟩

/-- The definition of a reference is rendered, and the name of the reference is filled in with it. -/
theorem Shared.of_fill (h : d.Shared roots) (hd : d.Drafted free document) {g : Given}
    (hgm : g ∈ d.registry.given) (ho : g.origin = .schema) (hnone : d.nodes.lookup g.id = none)
    (hf : d.progress.definitions.find? g.id = some node) (hr : d.Renders node other) :
    (fill g.id other d).Shared roots := by
  have hg := grows_fill hnone other
  refine ⟨fun s id hl => ?_, fun g' hgm' ho' filled hl => ?_, h.claimed⟩
  · by_cases hid : id = g.id
    · subst hid
      obtain ⟨g', hgm', hid', hdeclared⟩ := h.declared s g.id hl
      obtain rfl := hd.sound.eq_of_id hgm' hgm hid'
      refine ⟨g', hgm', rfl, .inl (hdeclared.resolve_right ?_)⟩
      rintro ⟨hinline, -⟩
      cases ho.symm.trans hinline
    · exact (h.declared s id hl).mono hg hd.chain (lookup_nodes_fill_of_ne hid other d)
  · by_cases hid : g'.id = g.id
    · obtain rfl := hd.sound.eq_of_id hgm' hgm hid
      rw [lookup_nodes_fill] at hl
      cases hl
      exact ⟨node, hf, hr.mono hg⟩
    · rw [lookup_nodes_fill_of_ne hid] at hl
      obtain ⟨node', hnode, hrenders⟩ := h.rendered g' hgm' ho' filled hl
      exact ⟨node', hnode, hrenders.mono hg⟩

/-! ### A declaration of its own -/

section Opened

variable {description : String} {source : Option Source}

theorem Shared.of_opened (h : d.Shared roots) (hd : d.Drafted free document)
    (fresh : id ∉ d.registry.taken) (hs : d.ofSource? (some s) = none) (key description : String) :
    (d.opened id key description (some s)).Shared roots := by
  have hg := grows_opened fresh hs key description
  refine ⟨fun t id' hl => ?_, fun g hgm ho filled hf => ?_, fun g hgm ho => ?_⟩
  · rw [bySource_opened hs] at hl
    split at hl
    · cases hl
      refine ⟨⟨id, key, .inline⟩, by simp, rfl, .inr ⟨rfl, fun filled hf => ?_⟩⟩
      rw [nodes_opened, lookup_nodes_of_fresh hd fresh] at hf
      cases hf
    · exact (h.declared t id' hl).mono hg hd.chain (by rw [nodes_opened])
  all_goals
    rw [registry_opened, given_add, List.mem_append, List.mem_singleton] at hgm
  · rw [nodes_opened] at hf
    rcases hgm with hgm | rfl
    · obtain ⟨node, hnode, hr⟩ := h.rendered g hgm ho filled hf
      exact ⟨node, Definitions.find?_mono hg.definitions hnode, hr.mono hg⟩
    · cases ho
  · rcases hgm with hgm | rfl
    · obtain ⟨t, ht⟩ := h.claimed g hgm ho
      exact ⟨t, hg.sources t g.id ht⟩
    · exact ⟨s, by rw [bySource_opened hs, if_pos rfl]⟩

/-- The declaration that was opened for a record is filled in with what renders the record. -/
theorem Shared.of_closed (hd : d.Drafted free document) (fresh : id ∉ d.registry.taken)
    (hs : d.ofSource? (some s) = none) (hh : (d.opened id key description (some s)).Hoists d')
    (hd' : d'.Drafted free document) (h : d'.Shared roots) (hsource : record.source? = some s)
    (hsprung : record.Throughout (d'.Sprung roots)) (hr : d'.Renders record other) :
    (fill id other d').Shared roots := by
  let g : Given := ⟨id, key, .inline⟩
  have hg₁ : g ∈ (d.opened id key description (some s)).registry.given := by simp [g]
  have hnone : d'.nodes.lookup g.id = none := by
    rw [hh.nodes g hg₁, nodes_opened, lookup_nodes_of_fresh hd fresh]
  have hg := grows_fill hnone other
  refine ⟨fun t id' hl => ?_, fun g' hgm ho filled hf => ?_, h.claimed⟩
  · by_cases hid : id' = id
    · subst hid
      -- only this record can have claimed a mapping for a name that was not taken before
      have hl₁ := hh.earlier t g hg₁ hl
      rw [bySource_opened hs] at hl₁
      split at hl₁
      · next heq =>
        cases heq
        refine ⟨g, hh.given hg₁, rfl, .inr ⟨rfl, fun filled hf => ?_⟩⟩
        rw [lookup_nodes_fill] at hf
        cases hf
        exact ⟨record, hsource, hsprung.imp fun _ => Sprung.mono hg hd'.chain, hr.mono hg⟩
      · exact absurd hl₁ (lookup_bySource_of_fresh hd fresh t)
    · exact (h.declared t id' hl).mono hg hd'.chain (lookup_nodes_fill_of_ne hid other d')
  · by_cases hid : g'.id = id
    · obtain rfl := hd'.sound.eq_of_id hgm (hh.given hg₁) hid
      cases ho
    · rw [lookup_nodes_fill_of_ne hid] at hf
      obtain ⟨node, hnode, hrenders⟩ := h.rendered g' hgm ho filled hf
      exact ⟨node, hnode, hrenders.mono hg⟩

end Opened

end Draft

end RouteStubs
