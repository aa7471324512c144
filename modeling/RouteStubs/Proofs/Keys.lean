import Mathlib.Data.List.Induction
import RouteStubs.Proofs.Draft.Run

/-!
# One declaration for each key

A reference is given a name once, when it has none. A record inside a shape and the declarations of
an operation are given a name for their place without a look at the index, and when the place had a
name before, its key has two declarations and a new name. This is the only way in which a key can
lose its name, and the only one in which two declarations can share a key.

The names that were given, in their order, are the history of the index: the name of a key at any
moment is the last one that had been given for it by then, and each beginning of the history was the
whole of it at some moment.

## Main definitions

* `Registry.KeepsNames`: a key that has a name has it from then on.
* `Registry.TakesOver`: a name was given for a place that had one.

## Main statements

* `Draft.Collected.keys_unique_iff`: keys keep their names, and have one declaration each, if and
  only if no place that had a name was given another one.
-/

namespace RouteStubs

namespace Registry

variable {r : Registry} {reserved : List String} {allowed : Given → Prop} {key id : String}

/-- The registry before a name has been given. -/
abbrev empty (reserved : List String) : Registry := ⟨reserved, [], []⟩

/-- Of two moments on the way to the registry, a key that has a name at the earlier one has it at the
later one. -/
def KeepsNames (r : Registry) : Prop :=
  ∀ r₀ r₁, Grows (fun _ => True) (empty r.reserved) r₀ → Grows (fun _ => True) r₀ r₁ →
    Grows (fun _ => True) r₁ r → ∀ key id, r₀.index.lookup key = some id →
      r₁.index.lookup key = some id

/-- A name for a place, and not for a reference, was given when the key of the place had one. -/
def TakesOver (r : Registry) : Prop :=
  ∃ before g after, r.given = before ++ g :: after ∧ g.origin ≠ .schema ∧
    g.key ∈ before.map (·.key)

theorem lastFor_append (given more : List Given) (key : String) :
    lastFor (given ++ more) key = (lastFor more key).or (lastFor given key) := by
  simp [lastFor, List.find?_append, Option.map_or]

theorem lastFor_eq_none_iff {given : List Given} :
    lastFor given key = none ↔ key ∉ given.map (·.key) := by
  simp only [lastFor, Option.map_eq_none_iff, List.find?_eq_none, List.mem_reverse, beq_iff_eq,
    List.mem_map, not_exists, not_and]

/-- A reference is given a name only when its key has none. -/
theorem Grows.new_schema (h : Grows allowed (empty reserved) r) {before after : List Given}
    {g : Given} (hs : r.given = before ++ g :: after) (ho : g.origin = .schema) :
    g.key ∉ before.map (·.key) := by
  induction h generalizing after with
  | refl => cases before <;> cases hs
  | @add r' g' h' _ _ new ih =>
    rw [given_add] at hs
    rcases Keyed.split_concat hs with ⟨rfl, rfl⟩ | ⟨after', hs'⟩
    · -- the index holds a name for each key that was given one
      rw [← lastFor_eq_none_iff, ← ((sound_start reserved).of_grows h').index]
      exact new ho
    · exact ih hs'

/-- Two names that were given to references are for different references. -/
theorem Grows.eq_of_key (h : Grows allowed (empty reserved) r) {g g' : Given} (hg : g ∈ r.given)
    (hg' : g' ∈ r.given) (ho : g.origin = .schema) (ho' : g'.origin = .schema)
    (hk : g.key = g'.key) : g = g' := by
  -- otherwise the later one was given when the key had a name
  obtain ⟨before, after, hs⟩ := List.append_of_mem hg
  rw [hs, List.mem_append, List.mem_cons] at hg'
  rcases hg' with hbefore | rfl | hafter
  · exact absurd (hk ▸ List.mem_map_of_mem hbefore) (h.new_schema hs ho)
  · rfl
  · obtain ⟨between, rest, rfl⟩ := List.append_of_mem hafter
    have hsplit : r.given = (before ++ g :: between) ++ g' :: rest := by simp [hs]
    have hnew := h.new_schema hsplit ho'
    exact absurd (List.mem_map.mpr ⟨g, by simp, hk⟩) hnew

/-- Keys are different if and only if each is new when it is met. -/
theorem nodup_keys_iff {given : List Given} :
    (given.map (·.key)).Nodup ↔ ∀ before g after, given = before ++ g :: after →
      g.key ∉ before.map (·.key) := by
  induction given using List.reverseRecOn with
  | nil => exact ⟨fun _ before _ _ h => by (cases before <;> cases h), fun _ => List.nodup_nil⟩
  | append_singleton given last ih =>
    rw [List.map_append, List.map_singleton, List.nodup_append, ih]
    constructor
    · rintro ⟨hnew, -, hlast⟩ before g after hs
      rcases Keyed.split_concat hs with ⟨rfl, rfl⟩ | ⟨after', hs'⟩
      · exact fun hm => hlast _ hm _ (List.mem_singleton_self _) rfl
      · exact hnew before g after' hs'
    · intro hnew
      refine ⟨fun before g after hs => hnew before g (after ++ [last]) (by simp [hs]),
        List.nodup_singleton _, fun a ha b hb hab => ?_⟩
      rw [List.mem_singleton] at hb
      subst hb hab
      exact hnew given last [] rfl ha

/-- Keys are different if and only if no name took a key over. -/
theorem nodup_keys_iff_not_takesOver (h : Grows allowed (empty reserved) r) :
    (r.given.map (·.key)).Nodup ↔ ¬ r.TakesOver := by
  rw [nodup_keys_iff]
  constructor
  · rintro hnew ⟨before, g, after, hs, -, hm⟩
    exact hnew before g after hs hm
  · intro hno before g after hs hm
    by_cases ho : g.origin = .schema
    · exact h.new_schema hs ho hm
    · exact hno ⟨before, g, after, hs, ho, hm⟩

theorem exists_lastFor {given : List Given} (h : key ∈ given.map (·.key)) :
    ∃ id, lastFor given key = some id := by
  rw [← Option.ne_none_iff_exists']
  exact fun hn => lastFor_eq_none_iff.mp hn h

/-- Each beginning of the history was the whole of it at some moment. -/
theorem Grows.exists_moment (h : Grows allowed (empty reserved) r) {before after : List Given}
    (hs : r.given = before ++ after) :
    ∃ r₀, Grows allowed (empty reserved) r₀ ∧ r₀.given = before ∧ Grows allowed r₀ r := by
  induction h generalizing after with
  | refl =>
    obtain ⟨rfl, rfl⟩ := List.append_eq_nil_iff.mp hs.symm
    exact ⟨_, .refl, rfl, .refl⟩
  | @add r' g h' fresh ok new ih =>
    rw [given_add] at hs
    rcases List.eq_nil_or_concat after with rfl | ⟨after', last, rfl⟩
    · exact ⟨_, h'.add fresh ok new, by rw [given_add, hs, List.append_nil], .refl⟩
    · rw [List.concat_eq_append, ← List.append_assoc] at hs
      obtain ⟨r₀, h₀, hb, hr⟩ := ih (List.append_inj' hs rfl).1
      exact ⟨r₀, h₀, hb, hr.add fresh ok new⟩

/-- Keys keep their names if and only if no name took a key over. -/
theorem keepsNames_iff_not_takesOver (h : Grows (fun _ => True) (empty r.reserved) r) :
    r.KeepsNames ↔ ¬ r.TakesOver := by
  constructor
  · rintro hkeeps ⟨before, g, after, hs, -, hm⟩
    -- the moments before and after the name took the key over
    obtain ⟨r₁, h₁, hb₁, hr₁⟩ := h.exists_moment
      (show r.given = (before ++ [g]) ++ after by simp [hs])
    obtain ⟨r₀, h₀, hb₀, hr₀⟩ := h₁.exists_moment hb₁
    have hsound := (sound_start r.reserved).of_grows h₁
    obtain ⟨id, hid⟩ := exists_lastFor hm
    have hlast := hkeeps r₀ r₁ h₀ hr₀ hr₁ g.key id
      (by rw [((sound_start r.reserved).of_grows h₀).index, hb₀, hid])
    rw [hsound.index, hb₁, lastFor_append_singleton, if_pos rfl, Option.some_inj] at hlast
    obtain ⟨g', hg', -, hid'⟩ := mem_of_lastFor hid
    have hnodup := hsound.nodup
    rw [hb₁, List.map_append, List.nodup_append] at hnodup
    exact hnodup.2.2 g'.id (List.mem_map_of_mem hg') g.id (by simp) (hid'.trans hlast.symm)
  · intro hno r₀ r₁ h₀ h₁ hr key id hid
    -- the index holds the last name for the key, and none of the later names is for it
    have hnew := nodup_keys_iff.mp ((nodup_keys_iff_not_takesOver h).mpr hno)
    obtain ⟨more, hmore⟩ := h₁.given_mono
    obtain ⟨after, hafter⟩ := hr.given_mono
    have hsound := (sound_start r.reserved).of_grows h₀
    rw [hsound.index] at hid
    rw [(hsound.of_grows h₁).index, ← hmore, lastFor_append, hid]
    obtain ⟨g, hg, hkey, -⟩ := mem_of_lastFor hid
    have hnone : lastFor more key = none := by
      rw [lastFor_eq_none_iff]
      intro hmem
      obtain ⟨g', hg', hkey'⟩ := List.mem_map.mp hmem
      obtain ⟨between, rest, rfl⟩ := List.append_of_mem hg'
      refine hnew (r₀.given ++ between) g' (rest ++ after) (by simp [← hafter, ← hmore]) ?_
      rw [hkey', ← hkey]
      exact List.mem_map_of_mem (List.mem_append_left _ hg)
    rw [hnone, Option.none_or]

end Registry

namespace Draft

open Registry

/-- If keys are different, each of them has one name. -/
theorem name_unique_of_nodup {d : Draft} (hn : (d.registry.given.map (·.key)).Nodup)
    {key name name' : String} (hs : naming.stands d.progress.names name = some key)
    (hs' : naming.stands d.progress.names name' = some key) : name = name' := by
  obtain ⟨g, hg, rfl, hkey⟩ := exists_of_keyOf? hs
  obtain ⟨g', hg', rfl, hkey'⟩ := exists_of_keyOf? hs'
  rw [List.inj_on_of_nodup_map hn hg hg' (hkey.trans hkey'.symm)]

variable {free : FreeKeys} {document : Value} {reserved : List String} {d d' : Draft}
  {table : Declarations}

/-- While only references have names, each has one. -/
theorem OnlyReferences.name_unique (ho : d.OnlyReferences)
    (hg : (empty reserved).Grows (fun _ => True) d.registry) {key name name' : String}
    (hs : naming.stands d.progress.names name = some key)
    (hs' : naming.stands d.progress.names name' = some key) : name = name' := by
  refine name_unique_of_nodup ((nodup_keys_iff_not_takesOver hg).mpr ?_) hs hs'
  rintro ⟨before, g, after, hgiven, hne, -⟩
  exact hne (ho g (by simp [hgiven]))

theorem OnlyReferences.points_unique (ho : d.OnlyReferences) (hg : (start document reserved).Grows d)
    (name name' ref : String) (hp : naming.Points d.progress name ref)
    (hp' : naming.Points d.progress name' ref) : name = name' :=
  ho.name_unique hg.registry hp.1 hp'.1

/-- What a table is built from: the registry at the end of the run. -/
theorem Collected.registry_of_build (h : Collected free document reserved d)
    (hb : build.runFrom d = (.ok table, d')) :
    Registry.Grows (fun _ => True) (empty d'.registry.reserved) d'.registry ∧
      table.types.map (·.key) = d'.registry.given.map (·.key) := by
  obtain ⟨hg, hd⟩ := h.ready
  obtain ⟨hfills, -, rfl⟩ := (build_ends hd).of_ok hb
  have hgrows : Registry.Grows (fun _ => True) (empty reserved) d'.registry :=
    hg.registry.trans hfills.grows.registry
  have hreserved : d'.registry.reserved = reserved := hgrows.reserved_eq
  refine ⟨hreserved ▸ hgrows, ?_⟩
  rw [List.map_map]
  rfl

/-- Over every run: keys keep their names, and no two declarations have the same key, if and only if
no place that had a name was given another one; then all handles for one reference have the same
target. -/
theorem Collected.keys_unique_iff (h : Collected free document reserved d)
    (hb : build.runFrom d = (.ok table, d')) :
    (d'.registry.KeepsNames ∧ (table.types.map (·.key)).Nodup ↔ ¬ d'.registry.TakesOver) ∧
      (¬ d'.registry.TakesOver → ∀ ref name name', naming.Points d'.progress name ref →
        naming.Points d'.progress name' ref → name = name') := by
  obtain ⟨hgrows, hkeys⟩ := h.registry_of_build hb
  have hnodup := nodup_keys_iff_not_takesOver hgrows
  rw [hkeys, keepsNames_iff_not_takesOver hgrows, hnodup, and_self]
  exact ⟨Iff.rfl, fun hno _ _ _ hp hp' => name_unique_of_nodup (hnodup.mpr hno) hp.1 hp'.1⟩

/-! ### A record inside a record -/

/-- A document with a record inside a record, and a component that refers to something. -/
def nested (ref : String) : Value :=
  .mapping 1 [(.text "components", .mapping 2 [(.text "schemas", .mapping 3
    [(.text "A", .mapping 4 [(.text "type", .text "object"), (.text "properties", .mapping 5
      [(.text "p", .mapping 6 [(.text "type", .text "object"), (.text "properties", .mapping 7
        [(.text "x", .mapping 8 [(.text "type", .text "string")])])])])]),
    (.text "B", refSchema ref)])])]

/-- The components of the document, collected. -/
def nestedDraft (ref : String) : Draft := (addComponents.runFrom (start (nested ref) [])).2

theorem collected_nested (ref : String)
    (h : (addComponents.runFrom (start (nested ref) [])).1.isOk = true) :
    Collected .paths (nested ref) [] (nestedDraft ref) := by
  obtain ⟨_, _, hr⟩ := Step.exists_of_isOk h
  refine ⟨_, Prod.ext ?_ rfl, .refl⟩
  rw [hr]

/-- When a component refers to the outer record, keys keep their names. -/
theorem keys_unique_outer : ∃ d table d', Collected .paths (nested "#/components/schemas/A") [] d ∧
    build.runFrom d = (.ok table, d') ∧ d'.registry.KeepsNames ∧
      (table.types.map (·.key)).Nodup := by
  have hc := collected_nested "#/components/schemas/A" (by decide +kernel)
  obtain ⟨table, d', hb⟩ := Step.exists_of_isOk
    (show (build.runFrom (nestedDraft "#/components/schemas/A")).1.isOk = true by decide +kernel)
  have hno : ¬ d'.registry.TakesOver := by
    rw [← nodup_keys_iff_not_takesOver (hc.registry_of_build hb).1,
      show d' = (build.runFrom (nestedDraft "#/components/schemas/A")).2 by rw [hb]]
    decide +kernel
  exact ⟨_, table, d', hc, hb, (hc.keys_unique_iff hb).1.mpr hno⟩

/-- When a component refers to the inner record, which is then declared for its place as well, its key
gets another name and has two declarations. -/
theorem keys_not_unique_inner : ∃ d table d',
    Collected .paths (nested "#/components/schemas/A/properties/p") [] d ∧
      build.runFrom d = (.ok table, d') ∧ ¬ d'.registry.KeepsNames ∧
        ¬ (table.types.map (·.key)).Nodup := by
  have hc := collected_nested "#/components/schemas/A/properties/p" (by decide +kernel)
  obtain ⟨table, d', hb⟩ := Step.exists_of_isOk
    (show (build.runFrom (nestedDraft "#/components/schemas/A/properties/p")).1.isOk = true by
      decide +kernel)
  obtain ⟨hgrows, hkeys⟩ := hc.registry_of_build hb
  have hdup : ¬ (d'.registry.given.map (·.key)).Nodup := by
    rw [show d' = (build.runFrom (nestedDraft "#/components/schemas/A/properties/p")).2 by rw [hb]]
    decide +kernel
  refine ⟨_, table, d', hc, hb, ?_, hkeys ▸ hdup⟩
  rwa [keepsNames_iff_not_takesOver hgrows, ← nodup_keys_iff_not_takesOver hgrows]

end Draft

end RouteStubs
