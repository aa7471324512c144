import RouteStubs.Proofs.Distinct
import RouteStubs.Proofs.Route.Segments

/-!
# Groups of operations

Operations are put into groups by their keys. Each operation is in the group of its key and in no
other, and a group knows whether one of its operations has the key as its first segment and whether
one has it as a tag.

## Main definitions

* `RouteGroup.IsGroupOf`, `RouteGroup.groupOf`: the group of a key among operations.

## Main statements

* `RouteGroup.keyOf_eq_segment_iff`: which operations have a segment as their key.
* `RouteGroup.ofKeys_cons_eq_ok`: the groups of keys, one after the other.
* `RouteGroup.isGroupOf_of_ofOperations`, `RouteGroup.keys_of_ofOperations`: the groups of operations
  and their order.
* `RouteGroup.mem_keys_iff`, `RouteGroup.nodup_keys`: the keys of operations.
-/

namespace RouteStubs.RouteGroup

variable {ops : List Operation} {op : Operation} {g g' : RouteGroup} {groups : List RouteGroup}
  {key segment : String}

/-! ### Keys -/

/-- An operation has a segment as its key when its path starts with it and it is no parameter. -/
theorem keyOf_eq_segment_iff : keyOf op = (segment, true) ↔
    (Route.segments op.path).head? = some segment ∧ Route.isParameter segment = false := by
  unfold keyOf
  split
  · next first rest h =>
    -- the first segment is never empty
    have hne := Route.ne_empty_of_segments h
    cases hp : Route.isParameter first with
    | true =>
      simp only [h, Bool.not_true, Bool.and_false, Bool.false_eq_true, if_false,
        Prod.mk.injEq, and_false, List.head?_cons, Option.some.injEq, false_iff, not_and]
      rintro rfl
      simp [hp]
    | false =>
      simp only [bne_iff_ne, ne_eq, hne, not_false_eq_true, Bool.not_false, Bool.and_true, h,
        if_pos, Prod.mk.injEq, and_true, List.head?_cons, Option.some.injEq]
      constructor
      · rintro rfl
        exact ⟨rfl, hp⟩
      · exact fun h => h.1
  · next h => simp [h]

theorem keys_eq (ops : List Operation) :
    keys ops = keepNew (· == ·) [] (ops.map fun op => (keyOf op).1) := by
  simp only [keys, keepNew, List.foldl_map, List.contains_eq_any_beq]

theorem nodup_keys (ops : List Operation) : (keys ops).Nodup := by
  rw [keys_eq]
  exact nodup_keepNew List.nodup_nil

theorem mem_keys_iff : key ∈ keys ops ↔ ∃ op ∈ ops, (keyOf op).1 = key := by
  rw [keys_eq, ← List.mem_map]
  constructor
  · exact mem_of_mem_keepNew_nil
  · intro hm
    rcases exists_mem_keepNew [] hm with hk | ⟨other, hk, hs⟩
    · exact hk
    · exact eq_of_beq hs ▸ hk

/-! ### Groups -/

/-- The group holds the operations with its key, and says how they have it. -/
structure IsGroupOf (ops : List Operation) (g : RouteGroup) : Prop where
  operations_eq : g.operations = ops.filter fun op => (keyOf op).1 == g.key
  bySegment_iff : g.bySegment = true ↔ ∃ op ∈ ops, keyOf op = (g.key, true)
  byTag_iff : g.byTag = true ↔ ∃ op ∈ ops, keyOf op = (g.key, false)

theorem IsGroupOf.mem_iff (h : g.IsGroupOf ops) :
    op ∈ g.operations ↔ op ∈ ops ∧ (keyOf op).1 = g.key := by
  rw [h.operations_eq, List.mem_filter, beq_iff_eq]

theorem any_keyOf_iff (ops : List Operation) (key : String) (bySegment : Bool) :
    ((ops.filter fun op => (keyOf op).1 == key).any fun op => (keyOf op).2 == bySegment) = true ↔
      ∃ op ∈ ops, keyOf op = (key, bySegment) := by
  simp only [List.any_eq_true, List.mem_filter, beq_iff_eq, Prod.ext_iff, and_assoc]

/-- The group of a key, with the name of its module. -/
def groupOf (ops : List Operation) (key module : String) : RouteGroup :=
  let members := ops.filter fun op => (keyOf op).1 == key
  ⟨key, module, members, members.any fun op => (keyOf op).2, members.any fun op => !(keyOf op).2⟩

theorem isGroupOf_groupOf (ops : List Operation) (key module : String) :
    (groupOf ops key module).IsGroupOf ops where
  operations_eq := rfl
  bySegment_iff := by simpa [groupOf] using any_keyOf_iff ops key true
  byTag_iff := by simpa [groupOf] using any_keyOf_iff ops key false

/-- The first key gives its group a module, whose name the others may not have. -/
theorem ofKeys_cons_eq_ok {taken rest : List String} :
    ofKeys ops taken (key :: rest) = .ok groups ↔ ∃ module others,
      moduleFor key taken = .ok module ∧ ofKeys ops (module :: taken) rest = .ok others ∧
        groups = groupOf ops key module :: others := by
  simp only [ofKeys, bind, Except.bind]
  constructor
  · intro h
    split at h
    · cases h
    · next module hmodule =>
      split at h
      · cases h
      · next others hothers =>
        cases h
        exact ⟨module, others, hmodule, hothers, rfl⟩
  · rintro ⟨module, others, hmodule, hothers, rfl⟩
    simp only [hmodule, hothers]
    rfl

theorem ofKeys_eq_ok {taken keys : List String} (h : ofKeys ops taken keys = .ok groups) :
    groups.map (·.key) = keys ∧ ∀ g ∈ groups, g.IsGroupOf ops := by
  induction keys generalizing taken groups with
  | nil =>
    cases h
    simp
  | cons key rest ih =>
    obtain ⟨module, others, -, hothers, rfl⟩ := ofKeys_cons_eq_ok.mp h
    obtain ⟨hkeys, hgroups⟩ := ih hothers
    exact ⟨by rw [List.map_cons, hkeys]; rfl,
      List.forall_mem_cons.mpr ⟨isGroupOf_groupOf ops key module, hgroups⟩⟩

/-- The groups stand in the order in which their keys appear first. -/
theorem keys_of_ofOperations (h : ofOperations ops = .ok groups) : groups.map (·.key) = keys ops :=
  (ofKeys_eq_ok h).1

theorem isGroupOf_of_ofOperations (h : ofOperations ops = .ok groups) (hg : g ∈ groups) :
    g.IsGroupOf ops :=
  (ofKeys_eq_ok h).2 g hg

/-- Each operation is in the group of its key. -/
theorem exists_group (h : ofOperations ops = .ok groups) (hop : op ∈ ops) :
    ∃ g ∈ groups, g.key = (keyOf op).1 ∧ op ∈ g.operations := by
  have hkey : (keyOf op).1 ∈ groups.map (·.key) := by
    rw [keys_of_ofOperations h]
    exact mem_keys_iff.mpr ⟨op, hop, rfl⟩
  obtain ⟨g, hg, hk⟩ := List.mem_map.mp hkey
  exact ⟨g, hg, hk, (isGroupOf_of_ofOperations h hg).mem_iff.mpr ⟨hop, hk.symm⟩⟩

end RouteStubs.RouteGroup
