import RouteStubs.Proofs.Route.Names

/-!
# Groups are a partition of the operations

Whatever the operations are, they are put into groups: each operation into one group, in the order
they have, and the groups in the order in which their keys appear first. Each group gets the name of a
module, which is an identifier, and no two get the same.

## Main definitions

* `RouteGroup.firstPlace`: the place of the first operation with a key.
* `RouteGroup.Partition`: the groups of operations.
* `RouteGroup.Modules`: names of modules that can be used side by side.

## Main statements

* `RouteGroup.partition_of_ofOperations`: the groups are a partition.
* `RouteGroup.exists_modules`: all operations can be grouped, and the modules of the groups can be
  used side by side.
-/

namespace RouteStubs

/-! ### Names of modules -/

namespace Name

open Text

variable {name : String}

/-- No keyword has an underscore. -/
theorem notMem_keywords_of_underscore (h : '_' ∈ name.toList) : name ∉ keywords := by
  have hno : keywords.all (fun word => !word.toList.contains '_') = true := by decide
  intro hm
  have hword := List.all_eq_true.mp hno name hm
  simp [h] at hword

/-- No identifier has a slash. -/
theorem Legal.slash_notMem (h : Legal name) : '/' ∉ name.toList := by
  have hid := h.identifier
  cases hn : name.toList with
  | nil => exact List.not_mem_nil
  | cons c rest =>
    rw [hn, isIdentifier, Bool.and_eq_true, List.all_eq_true] at hid
    rw [List.mem_cons, not_or]
    constructor
    · rintro rfl
      exact absurd hid.1 (by decide)
    · intro hm
      exact absurd (hid.2 '/' hm) (by decide)

end Name

/-! ### Lists by their keys -/

theorem filter_flatMap_perm {α : Type} (keyOf : α → String) {keys : List String}
    (hkeys : keys.Nodup) (as : List α) (hall : ∀ a ∈ as, keyOf a ∈ keys) :
    (keys.flatMap fun key => as.filter fun a => keyOf a == key).Perm as := by
  induction keys generalizing as with
  | nil =>
    have hnil : as = [] := by
      apply List.eq_nil_iff_forall_not_mem.mpr
      intro a ha
      exact absurd (hall a ha) List.not_mem_nil
    rw [hnil]
    exact .refl _
  | cons key rest ih =>
    obtain ⟨hfirst, hrest⟩ := List.nodup_cons.mp hkeys
    -- those with another key are dealt with by the other keys
    have hothers : ∀ a ∈ as.filter (fun a => !(keyOf a == key)), keyOf a ∈ rest := by
      intro a ha
      obtain ⟨hmem, hne⟩ := List.mem_filter.mp ha
      rcases List.mem_cons.mp (hall a hmem) with heq | hin
      · simp [heq] at hne
      · exact hin
    have hsame : (rest.flatMap fun k => as.filter fun a => keyOf a == k) =
        rest.flatMap fun k => (as.filter fun a => !(keyOf a == key)).filter fun a => keyOf a == k := by
      apply List.flatMap_congr
      intro k hk
      rw [List.filter_filter]
      apply List.filter_congr
      intro a _
      by_cases hak : keyOf a = k
      · have hne : k ≠ key := by
          rintro rfl
          exact hfirst hk
        simp [hak, hne]
      · simp [hak]
    rw [List.flatMap_cons, hsame]
    exact ((ih hrest _ hothers).append_left _).trans (List.filter_append_perm _ as)

namespace RouteGroup

open Name

variable {ops : List Operation} {op : Operation} {g : RouteGroup} {groups : List RouteGroup}
  {taken keyList : List String} {key name : String}

/-! ### The order of the keys -/

/-- The place of the first operation with a key. -/
def firstPlace (ops : List Operation) (key : String) : Nat :=
  ops.findIdx fun op => (keyOf op).1 == key

theorem firstPlace_lt (h : key ∈ keys ops) : firstPlace ops key < ops.length := by
  obtain ⟨op, hop, hkey⟩ := mem_keys_iff.mp h
  exact List.findIdx_lt_length_of_exists ⟨op, hop, by simp [hkey]⟩

theorem firstPlace_append (h : key ∈ keys ops) (more : List Operation) :
    firstPlace (ops ++ more) key = firstPlace ops key := by
  have hlt : ops.findIdx (fun op => (keyOf op).1 == key) < ops.length := firstPlace_lt h
  rw [firstPlace, List.findIdx_append, if_pos hlt]
  rfl

theorem keys_concat (ops : List Operation) (op : Operation) :
    keys (ops ++ [op]) =
      if (keyOf op).1 ∈ keys ops then keys ops else keys ops ++ [(keyOf op).1] := by
  simp only [keys, List.foldl_append, List.foldl_cons, List.foldl_nil, List.contains_eq_mem,
    decide_eq_true_eq]

/-- The keys stand in the order in which they appear first. -/
theorem pairwise_keys (ops : List Operation) :
    (keys ops).Pairwise fun key other => firstPlace ops key < firstPlace ops other := by
  induction ops using List.reverseRecOn with
  | nil => exact .nil
  | append_singleton ops op ih =>
    have hkept : (keys ops).Pairwise fun key other =>
        firstPlace (ops ++ [op]) key < firstPlace (ops ++ [op]) other := by
      refine ih.imp_of_mem fun hkey hother hlt => ?_
      rwa [firstPlace_append hkey, firstPlace_append hother]
    rw [keys_concat]
    split
    · exact hkept
    · next hnew =>
      -- the new key is met last
      have hlast : firstPlace (ops ++ [op]) (keyOf op).1 = ops.length := by
        have hno : ¬ ops.findIdx (fun other => (keyOf other).1 == (keyOf op).1) < ops.length := by
          intro hlt
          obtain ⟨other, hother, hsame⟩ := List.findIdx_lt_length.mp hlt
          exact hnew (mem_keys_iff.mpr ⟨other, hother, beq_iff_eq.mp hsame⟩)
        rw [firstPlace, List.findIdx_append, if_neg hno]
        simp
      refine List.pairwise_append.mpr ⟨hkept, List.pairwise_singleton _ _, ?_⟩
      intro key hkey other hother
      rw [List.mem_singleton.mp hother, hlast, firstPlace_append hkey]
      exact firstPlace_lt hkey

/-! ### The groups -/

/-- An operation has its key by its tags when its path does not start with a literal segment. -/
theorem keyOf_eq_tag_iff : keyOf op = (key, false) ↔
    (∀ first, (Route.segments op.path).head? = some first → Route.isParameter first = true) ∧
      tagKey op = key := by
  unfold keyOf
  split
  · next first rest h =>
    have hne := Route.ne_empty_of_segments h
    cases hp : Route.isParameter first <;> simp [h, hne, hp]
  · next h => simp [h]

/-- Groups are a partition of operations by their keys: in the order in which the keys appear first,
each with its operations in their order, and each knows how its operations have the key. -/
structure Partition (ops : List Operation) (groups : List RouteGroup) : Prop where
  /-- The keys are distinct and stand in the order in which they appear first. -/
  inOrder : groups.Pairwise fun g g' => firstPlace ops g.key < firstPlace ops g'.key
  /-- No group is empty. -/
  nonempty : ∀ g ∈ groups, g.operations ≠ []
  /-- A group has the operations with its key, in their order. -/
  operations_eq : ∀ g ∈ groups, g.operations = ops.filter fun op => (keyOf op).1 == g.key
  /-- All the groups together have each operation once. -/
  perm : (groups.flatMap (·.operations)).Perm ops
  /-- A group has a segment exactly when one of its operations starts with the key as a literal. -/
  segment_iff : ∀ g ∈ groups, ∀ segment, g.segment? = some segment ↔ segment = g.key ∧
    ∃ op ∈ g.operations, (Route.segments op.path).head? = some g.key ∧
      Route.isParameter g.key = false
  /-- A group is tried by tag exactly when one of its operations starts with no literal, and has the
  key as its first tag or by default. -/
  byTag_iff : ∀ g ∈ groups, g.byTag = true ↔ ∃ op ∈ g.operations,
    (∀ first, (Route.segments op.path).head? = some first → Route.isParameter first = true) ∧
      op.tags.headD defaultKey = g.key

/-- No two groups have one key. -/
theorem Partition.nodup_keys (h : Partition ops groups) : (groups.map (·.key)).Nodup := by
  rw [List.Nodup, List.pairwise_map]
  refine h.inOrder.imp fun hlt heq => ?_
  rw [heq] at hlt
  exact Nat.lt_irrefl _ hlt

theorem Partition.mem_iff (h : Partition ops groups) (hg : g ∈ groups) :
    op ∈ g.operations ↔ op ∈ ops ∧ (keyOf op).1 = g.key := by
  rw [h.operations_eq g hg, List.mem_filter, beq_iff_eq]

/-- An operation is in exactly one group. -/
theorem Partition.existsUnique (h : Partition ops groups) (hop : op ∈ ops) :
    ∃! g, g ∈ groups ∧ op ∈ g.operations := by
  obtain ⟨g, hg, hin⟩ := List.mem_flatMap.mp (h.perm.mem_iff.mpr hop)
  refine ⟨g, ⟨hg, hin⟩, ?_⟩
  rintro g' ⟨hg', hin'⟩
  have hkey : g'.key = g.key :=
    ((h.mem_iff hg').mp hin').2.symm.trans ((h.mem_iff hg).mp hin).2
  exact List.inj_on_of_nodup_map h.nodup_keys hg' hg hkey

/-- A group is found by a segment when an operation starts with it as a literal. -/
theorem IsGroupOf.segment?_iff (h : g.IsGroupOf ops) (segment : String) :
    g.segment? = some segment ↔ segment = g.key ∧ ∃ op ∈ g.operations,
      (Route.segments op.path).head? = some g.key ∧ Route.isParameter g.key = false := by
  have hiff : g.bySegment = true ↔ ∃ op ∈ g.operations,
      (Route.segments op.path).head? = some g.key ∧ Route.isParameter g.key = false := by
    rw [h.bySegment_iff]
    constructor
    · rintro ⟨op, hop, hkey⟩
      exact ⟨op, h.mem_iff.mpr ⟨hop, by rw [hkey]⟩, keyOf_eq_segment_iff.mp hkey⟩
    · rintro ⟨op, hop, hhead⟩
      exact ⟨op, (h.mem_iff.mp hop).1, keyOf_eq_segment_iff.mpr hhead⟩
  rw [← hiff, segment?]
  cases g.bySegment <;> simp [eq_comm]

/-- A group is tried by tag when an operation of it starts with no literal. -/
theorem IsGroupOf.byTag_iff_head (h : g.IsGroupOf ops) : g.byTag = true ↔ ∃ op ∈ g.operations,
    (∀ first, (Route.segments op.path).head? = some first → Route.isParameter first = true) ∧
      tagKey op = g.key := by
  rw [h.byTag_iff]
  constructor
  · rintro ⟨op, hop, hkey⟩
    exact ⟨op, h.mem_iff.mpr ⟨hop, by rw [hkey]⟩, keyOf_eq_tag_iff.mp hkey⟩
  · rintro ⟨op, hop, hhead⟩
    exact ⟨op, (h.mem_iff.mp hop).1, keyOf_eq_tag_iff.mpr hhead⟩

theorem partition_of_ofOperations (h : ofOperations ops = .ok groups) : Partition ops groups := by
  have hkeys := keys_of_ofOperations h
  have hgroup : ∀ g ∈ groups, g.IsGroupOf ops := fun g => isGroupOf_of_ofOperations h
  constructor
  case inOrder =>
    have hpair := pairwise_keys ops
    rwa [← hkeys, List.pairwise_map] at hpair
  case nonempty =>
    intro g hg
    have hmem : g.key ∈ keys ops := hkeys ▸ List.mem_map_of_mem hg
    obtain ⟨op, hop, hkey⟩ := mem_keys_iff.mp hmem
    exact List.ne_nil_of_mem ((hgroup g hg).mem_iff.mpr ⟨hop, hkey⟩)
  case operations_eq => exact fun g hg => (hgroup g hg).operations_eq
  case perm =>
    have heq : groups.flatMap (·.operations) =
        (keys ops).flatMap fun key => ops.filter fun op => (keyOf op).1 == key := by
      rw [← hkeys, List.flatMap_map]
      exact List.flatMap_congr fun g hg => (hgroup g hg).operations_eq
    rw [heq]
    exact filter_flatMap_perm _ (nodup_keys ops) ops fun op hop => mem_keys_iff.mpr ⟨op, hop, rfl⟩
  case segment_iff => exact fun g hg => (hgroup g hg).segment?_iff
  case byTag_iff => exact fun g hg => (hgroup g hg).byTag_iff_head

/-! ### The modules -/

/-- The names of the modules of groups can be used side by side: they are distinct identifiers, and
none is a keyword or reserved. -/
structure Modules (groups : List RouteGroup) : Prop where
  nodup : (groups.map (·.module)).Nodup
  legal : ∀ g ∈ groups, Name.Legal g.module
  free : ∀ g ∈ groups, g.module ∉ reservedModules

/-- Every key gives the name of a module. -/
theorem exists_legal_moduleFor (key : String) (taken : List String) :
    ∃ name, moduleFor key taken = .ok name ∧ Name.Legal name := by
  obtain ⟨style, hstyle⟩ := Name.exists_handlerStyle key (show defaultKey.toList ≠ [] by decide)
  obtain ⟨hspelled, hkeyword⟩ :=
    Name.spelled_handlerStyle (List.all_eq_true.mp (by decide)) hstyle
  refine ⟨_, moduleFor_eq_ok_iff.mpr ⟨style, hstyle, rfl⟩, ?_⟩
  unfold moduleBase
  split
  · -- what follows the name has an underscore
    refine Name.Spelled.legal_fresh ?_ (Name.notMem_keywords_of_underscore ?_) taken
    · rw [String.toList_append]
      exact hspelled.append fun c hc => Name.isNameChar_of_isSegmentChar
        (List.all_eq_true.mp (show "_routes".toList.all Name.isSegmentChar = true by decide) c hc)
    · rw [String.toList_append]
      exact List.mem_append_right _ (by decide)
  · exact hspelled.legal_fresh hkeyword taken

theorem exists_ofKeys (ops : List Operation) (taken keyList : List String) :
    ∃ groups, ofKeys ops taken keyList = .ok groups ∧ (groups.map (·.module)).Nodup ∧
      ∀ g ∈ groups, Name.Legal g.module ∧ g.module ∉ taken := by
  induction keyList generalizing taken with
  | nil => exact ⟨[], rfl, List.nodup_nil, fun g hg => absurd hg List.not_mem_nil⟩
  | cons key rest ih =>
    obtain ⟨name, hname, hlegal⟩ := exists_legal_moduleFor key taken
    obtain ⟨others, hothers, hnodup, hall⟩ := ih (name :: taken)
    refine ⟨_, ofKeys_cons_eq_ok.mpr ⟨name, others, hname, hothers, rfl⟩, ?_, ?_⟩
    · refine List.nodup_cons.mpr ⟨fun hm => ?_, hnodup⟩
      obtain ⟨g, hg, heq⟩ := List.mem_map.mp hm
      exact (hall g hg).2 (heq ▸ List.mem_cons_self)
    · intro g hg
      rcases List.mem_cons.mp hg with rfl | hg
      · exact ⟨hlegal, moduleFor_notMem hname⟩
      · exact ⟨(hall g hg).1, fun hm => (hall g hg).2 (List.mem_cons_of_mem _ hm)⟩

/-- All operations can be grouped. -/
theorem exists_modules (ops : List Operation) :
    ∃ groups, ofOperations ops = .ok groups ∧ Modules groups := by
  obtain ⟨groups, hgroups, hnodup, hall⟩ := exists_ofKeys ops reservedModules (keys ops)
  exact ⟨groups, hgroups, hnodup, fun g hg => (hall g hg).1, fun g hg => (hall g hg).2⟩

end RouteGroup

end RouteStubs
