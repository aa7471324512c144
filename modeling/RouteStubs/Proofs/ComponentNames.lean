import RouteStubs.Proofs.ComponentKeys

/-!
# Names of components

A component is declared under its own name in the style of declarations, with a number if that is reserved
or an earlier component has it. Nothing else in the document has a part in it: the names are given before
any schema is read, and none of the names that are given later takes the reference to a component over.

## Main definitions

* `Registry.componentIds`: the names of the declarations, from the names of the components.

## Main statements

* `Registry.exists_componentIds`: each component gets a name, and these names are different.
* `Draft.nameComponents_ids`: giving names to components.
* `Draft.addComponents_ids`: adding components.
-/

namespace RouteStubs

namespace Registry

variable {r : Registry} {taken names ids : List String} {name id : String}

/-- The names of the declarations of components when these names are taken: each the name of its component
in the style of declarations, with a number if it is taken or an earlier component has it. -/
def componentIds (taken : List String) : List String → Except Fault (List String)
  | [] => .ok []
  | name :: rest => do
    let style ← Name.typeStyle name "Model"
    let id := Name.fresh style taken
    let ids ← componentIds (taken ++ [id]) rest
    pure (id :: ids)

theorem componentIds_cons {style : String} (hs : Name.typeStyle name "Model" = .ok style)
    (h : componentIds (taken ++ [Name.fresh style taken]) names = .ok ids) :
    componentIds taken (name :: names) = .ok (Name.fresh style taken :: ids) := by
  simp only [componentIds, hs, h, bind, Except.bind]
  rfl

/-- Each component gets a name that is not taken. These names are different, and each is the fresh one for
its component after those before it. -/
theorem exists_componentIds (taken names : List String) : ∃ ids, componentIds taken names = .ok ids ∧
    ids.length = names.length ∧ ids.Nodup ∧ (∀ id ∈ ids, id ∉ taken) ∧
      ∀ i name, names[i]? = some name → ∃ style, Name.typeStyle name "Model" = .ok style ∧
        ids[i]? = some (Name.fresh style (taken ++ ids.take i)) := by
  induction names generalizing taken with
  | nil => exact ⟨[], rfl, rfl, .nil, nofun, fun i name h => by simp at h⟩
  | cons first rest ih =>
    have hmodel : "Model".toList ≠ [] := by decide
    obtain ⟨style, hstyle⟩ := Name.exists_typeStyle first hmodel
    have hfresh := Name.fresh_notMem style taken
    obtain ⟨ids, hids, hlength, hnodup, hnot, hall⟩ := ih (taken ++ [Name.fresh style taken])
    have hnot' : ∀ id ∈ ids, id ∉ taken ∧ id ≠ Name.fresh style taken := by
      intro id hid
      simpa using hnot id hid
    refine ⟨_, componentIds_cons hstyle hids, by simp [hlength],
      List.nodup_cons.mpr ⟨fun hm => (hnot' _ hm).2 rfl, hnodup⟩,
      List.forall_mem_cons.mpr ⟨hfresh, fun id hid => (hnot' id hid).1⟩, fun i name hname => ?_⟩
    cases i with
    | zero =>
      cases hname
      exact ⟨style, hstyle, by simp⟩
    | succ i =>
      obtain ⟨style', hstyle', hid⟩ := hall i name hname
      exact ⟨style', hstyle', by simpa using hid⟩

/-- A component that has no name gets its own in the style of declarations. -/
theorem nameFor_component (hne : name ≠ "") (hnone : r.index.lookup (componentRef name) = none) :
    (nameFor (componentRef name)).Ends r
      (fun _ r' => ∃ style, Name.typeStyle name "Model" = .ok style ∧
        r' = r.add ⟨Name.fresh style r.taken, componentRef name, .schema⟩) fun _ _ => True := by
  simp only [nameFor, Step.ends_bind, Step.ends_get, hnone, componentName?_componentRef hne, reserve,
    Step.ends_ofExcept, Step.ends_set, Step.ends_pure]
  refine ⟨fun base hbase => ⟨fun style hstyle => ?_, fun _ _ => trivial⟩, fun _ _ => trivial⟩
  cases hbase
  exact ⟨style, hstyle, rfl⟩

theorem taken_add (r : Registry) (g : Given) : (r.add g).taken = r.taken ++ [g.id] := by
  simp [taken]

end Registry

namespace Draft

open Registry

variable {document : Value} {reserved : List String} {d d' : Draft} {origin : Nat} {entries : Entries}
  {names : List String}

/-- Giving names to components that have none gives each of them the fresh one. -/
theorem nameComponents_ids (names : List String) (hne : ∀ name ∈ names, name ≠ "")
    (hnodup : names.Nodup)
    (hnew : ∀ name ∈ names, d.registry.index.lookup (componentRef name) = none) :
    (nameComponents names).Ends d
      (fun _ d' => ∃ ids, componentIds d.registry.taken names = .ok ids ∧
        d'.registry.given = d.registry.given ++
          List.zipWith (fun name id => ⟨id, componentRef name, .schema⟩) names ids)
      fun _ _ => True := by
  induction names generalizing d with
  | nil => exact ⟨[], rfl, (List.append_nil _).symm⟩
  | cons name rest ih =>
    obtain ⟨hname, hrest⟩ := List.forall_mem_cons.mp hne
    obtain ⟨hnew₀, hnews⟩ := List.forall_mem_cons.mp hnew
    obtain ⟨hnotMem, hnodup⟩ := List.nodup_cons.mp hnodup
    simp only [nameComponents, onRegistry, onProgress, Progress.onNames, Step.ends_bind,
      Step.ends_within]
    apply (nameFor_component hname hnew₀).forget
    rintro _ _ ⟨style, hstyle, rfl⟩
    let named := d.registry.add ⟨Name.fresh style d.registry.taken, componentRef name, .schema⟩
    -- the others have no name yet
    have hnews' : ∀ other ∈ rest, named.index.lookup (componentRef other) = none := by
      intro other hother
      have hother_ne : componentRef name ≠ componentRef other := by
        intro heq
        rw [componentRef_injective heq] at hnotMem
        exact hnotMem hother
      rw [lookup_index_add, if_neg hother_ne]
      exact hnews other hother
    apply (ih (d := { d with progress := { d.progress with names := named } }) hrest hnodup
      hnews').forget
    rintro _ d' ⟨ids, hids, hgiven⟩
    have htaken : named.taken = d.registry.taken ++ [Name.fresh style d.registry.taken] :=
      taken_add d.registry _
    refine ⟨_, componentIds_cons hstyle (htaken ▸ hids), ?_⟩
    rw [hgiven, List.zipWith_cons_cons]
    exact List.append_assoc _ _ _

/-- The index leads from a reference to the name that was given for it, if whatever was given a name for this
key is a reference. -/
theorem lookup_index_of_leaves {refs : List String} {g : Given}
    (hnames : (empty reserved).Grows (fun _ => True) d.registry) (hl : d.Leaves refs)
    (hg : g ∈ d.registry.given) (ho : g.origin = .schema) (hk : g.key ∈ refs) :
    d.registry.index.lookup g.key = some g.id := by
  have hsound := (sound_start reserved).of_grows hnames
  obtain ⟨id, hid⟩ := exists_lastFor (List.mem_map_of_mem (f := (·.key)) hg)
  obtain ⟨g', hg', hkey, rfl⟩ := mem_of_lastFor hid
  rw [hsound.index, hid, hnames.eq_of_key hg hg' ho (hl g' hg' (hkey ▸ hk)) hkey.symm]

/-- Over every document: if adding components succeeds, then each of them is declared, in their order, under
the fresh name for its own name after the reserved names and those of the components before it. These names
are different, and the index leads from the reference to a component to its name. -/
theorem addComponents_ids (h : addComponents.runFrom (start document reserved) = (.ok (), d))
    (hs : Document.schemas document = .ok (.mapping origin entries))
    (hkeys : entries.map Prod.fst = names.map Scalar.text) (hne : ∀ name ∈ names, name ≠ "")
    (hnodup : names.Nodup) :
    ∃ ids, componentIds reserved names = .ok ids ∧ ids.length = names.length ∧ ids.Nodup ∧
      ∀ i name, names[i]? = some name → ∃ style id, Name.typeStyle name "Model" = .ok style ∧
        id = Name.fresh style (reserved ++ ids.take i) ∧ ids[i]? = some id ∧
          d.registry.given[i]? = some ⟨id, componentRef name, .schema⟩ ∧
            d.registry.index.lookup (componentRef name) = some id := by
  obtain ⟨_, _, d₁, hs', hrun, hgrows, hleaves⟩ := (addComponents_leaves document reserved).of_ok h
  cases hs.symm.trans hs'
  have hnames : entries.map (fun e => e.1.display) = names := by
    have hdisplay := congrArg (List.map Scalar.display) hkeys
    simpa [Function.comp_def, Scalar.display] using hdisplay
  rw [hnames] at hrun
  obtain ⟨ids, hids, hgiven⟩ := (nameComponents_ids names hne hnodup fun _ _ => rfl).of_ok hrun
  rw [show (start document reserved).registry.taken = reserved from List.append_nil reserved] at hids
  obtain ⟨_, hids', hlength, hdistinct, -, hall⟩ := exists_componentIds reserved names
  cases hids.symm.trans hids'
  have hregistry : (empty reserved).Grows (fun _ => True) d.registry :=
    ((addComponents_ends (drafted_start .all document reserved)
      (onlyReferences_start document reserved)).of_ok h).1.registry
  refine ⟨ids, hids, hlength, hdistinct, fun i name hname => ?_⟩
  obtain ⟨style, hstyle, hid⟩ := hall i name hname
  refine ⟨style, _, hstyle, rfl, hid, ?_⟩
  -- what is given first stays in its place
  have hfirst : d₁.registry.given[i]? =
      some ⟨Name.fresh style (reserved ++ ids.take i), componentRef name, .schema⟩ := by
    rw [hgiven, show (start document reserved).registry.given = [] from rfl, List.nil_append,
      List.getElem?_zipWith, hname, hid]
  have hplace : d.registry.given[i]? =
      some ⟨Name.fresh style (reserved ++ ids.take i), componentRef name, .schema⟩ := by
    obtain ⟨more, hmore⟩ := hgrows.registry.given_mono
    rw [← hmore, List.getElem?_append_left (List.getElem?_eq_some_iff.mp hfirst).1, hfirst]
  have hk : componentRef name ∈ componentRefs entries := by
    have hkey : Scalar.text name ∈ entries.map Prod.fst :=
      hkeys ▸ List.mem_map_of_mem (List.mem_of_getElem? hname)
    obtain ⟨⟨_, _⟩, he, rfl⟩ := List.mem_map.mp hkey
    exact mem_componentRefs he
  exact ⟨hplace, lookup_index_of_leaves hregistry hleaves (List.mem_of_getElem? hplace) rfl hk⟩

/-- Components whose names collide, one of them called as the elements of a list are; one of them refers to
the mapping of all of them, and another one to a name with a slash. -/
def colliding : Value :=
  .mapping 1 [(.text "components", .mapping 2 [(.text "schemas", .mapping 3
    [(.text "pet-owner", .mapping 4 [(.text "type", .text "object")]),
    (.text "PetOwner", refSchema "#/components/schemas"),
    (.text "items", .mapping 5 [(.text "type", .text "object"), (.text "properties", .mapping 6
      [(.text "owner", refSchema "#/components/schemas/a~1b")])]),
    (.text "a/b", refSchema "#/components/schemas/pet-owner")])])]

theorem addComponents_ids_colliding : ∃ d,
    addComponents.runFrom (start colliding ["Items"]) = (.ok (), d) ∧
      ∀ (i : Nat) (name id : String), ["pet-owner", "PetOwner", "items", "a/b"][i]? = some name →
        ["PetOwner", "PetOwner2", "Items2", "AB"][i]? = some id →
          d.registry.index.lookup (componentRef name) = some id := by
  obtain ⟨_, d, hrun⟩ := Step.exists_of_isOk
    (show (addComponents.runFrom (start colliding ["Items"])).1.isOk = true by decide +kernel)
  have hne : ∀ name ∈ ["pet-owner", "PetOwner", "items", "a/b"], name ≠ "" := by decide
  obtain ⟨ids, hids, -, -, hall⟩ := addComponents_ids hrun rfl rfl hne (by decide)
  cases hids.symm.trans (show _ = .ok ["PetOwner", "PetOwner2", "Items2", "AB"] by decide +kernel)
  refine ⟨d, hrun, fun i name id hname hid => ?_⟩
  obtain ⟨_, _, -, -, hid', -, hlookup⟩ := hall i name hname
  cases hid.symm.trans hid'
  exact hlookup

end Draft

end RouteStubs
