import RouteStubs.Proofs.Part

/-!
# Other identities for the mappings of a value

The identities of mappings tell mappings apart and mean nothing else. A value with other identities
holds the same entries, has the same parts at the same places and reads the same, and references into
it lead to the same places. Two values that are equal when written out, and in which the same places
hold one mapping, differ by a renaming of identities.

## Main definitions

* `Value.rename f`: the value with the identities that `f` gives.
* `Entries.rename f`: the entries of a mapping, with other identities in their values.

## Main statements

* `Value.same_rename`, `Value.display_rename`: what is the same, and what is written.
* `Entries.find?_rename`: what stands at a key.
* `Resolver.target_rename`: where references lead.
-/

namespace RouteStubs

namespace Value

mutual

/-- The value with the identities that `f` gives to the mappings in it. -/
def rename (f : Nat → Nat) : Value → Value
  | .scalar s => .scalar s
  | .list items => .list (renameItems f items)
  | .mapping origin entries => .mapping (f origin) (renameEntries f entries)

/-- The items of a list, with other identities. -/
def renameItems (f : Nat → Nat) : List Value → List Value
  | [] => []
  | v :: rest => rename f v :: renameItems f rest

/-- The entries of a mapping, with other identities. -/
def renameEntries (f : Nat → Nat) : List (Scalar × Value) → List (Scalar × Value)
  | [] => []
  | (k, v) :: rest => (k, rename f v) :: renameEntries f rest

end

end Value

/-- The entries of a mapping, with other identities in their values. -/
abbrev Entries.rename (f : Nat → Nat) (entries : Entries) : Entries :=
  List.map (fun e => (e.1, e.2.rename f)) entries

namespace Value

variable (f : Nat → Nat)

theorem renameItems_eq (items : List Value) : renameItems f items = items.map (rename f) := by
  induction items with
  | nil => rfl
  | cons v rest ih => rw [renameItems, ih, List.map_cons]

theorem renameEntries_eq (entries : Entries) : renameEntries f entries = entries.rename f := by
  induction entries with
  | nil => rfl
  | cons e rest ih => rw [renameEntries, ih, Entries.rename, Entries.rename, List.map_cons]

@[simp] theorem rename_scalar (s : Scalar) : (scalar s).rename f = .scalar s := rfl

@[simp] theorem rename_list (items : List Value) :
    (list items).rename f = .list (items.map (rename f)) := by
  rw [rename, renameItems_eq]

@[simp] theorem rename_mapping (origin : Nat) (entries : Entries) :
    (mapping origin entries).rename f = .mapping (f origin) (entries.rename f) := by
  rw [rename, renameEntries_eq]

mutual

/-- The identities that are there change nothing. -/
theorem rename_id : ∀ v : Value, v.rename id = v
  | .scalar _ => rfl
  | .list items => by rw [rename, renameItems_id items]
  | .mapping _ entries => by rw [rename, renameEntries_id entries, id]

theorem renameItems_id : ∀ items : List Value, renameItems id items = items
  | [] => rfl
  | v :: rest => by rw [renameItems, rename_id v, renameItems_id rest]

theorem renameEntries_id : ∀ entries : Entries, renameEntries id entries = entries
  | [] => rfl
  | (_, v) :: rest => by rw [renameEntries, rename_id v, renameEntries_id rest]

end

theorem map_rename_id (items : List Value) : items.map (rename id) = items := by
  rw [← renameItems_eq, renameItems_id]

/-! ### What stays -/

variable {f}

@[simp] theorem isTrue_rename (v : Value) : (v.rename f).isTrue = v.isTrue := by
  cases v <;> simp [isTrue]

@[simp] theorem isMapping_rename (v : Value) : (v.rename f).isMapping = v.isMapping := by
  cases v <;> simp [isMapping]

@[simp] theorem isKey_rename (v : Value) : (v.rename f).isKey = v.isKey := by
  cases v <;> simp [isKey]

@[simp] theorem isText_rename (v : Value) (s : String) : (v.rename f).isText s = v.isText s := by
  cases v <;> simp [isText]

end Value

namespace Entries

variable {f : Nat → Nat} (entries : Entries)

@[simp] theorem find?_rename (key : Scalar) :
    Entries.find? (entries.rename f) key = (Entries.find? entries key).map (Value.rename f) := by
  unfold Entries.find? Entries.rename
  rw [List.find?_map, Option.map_map, Option.map_map]
  rfl

@[simp] theorem text?_rename (key : String) :
    Entries.text? (entries.rename f) key = (entries.text? key).map (Value.rename f) :=
  find?_rename entries _

@[simp] theorem hasText_rename (key : String) :
    Entries.hasText (entries.rename f) key = entries.hasText key := by
  rw [hasText, text?_rename, Option.isSome_map, hasText]

end Entries

namespace Value

variable {f : Nat → Nat}

@[simp] theorem member?_rename (v : Value) (key : String) :
    (v.rename f).member? key = (v.member? key).map (rename f) := by
  cases v <;> simp [member?]

mutual

@[simp] theorem same_rename : ∀ v w : Value, (v.rename f).same (w.rename f) = v.same w
  | .scalar _, w => by cases w <;> simp [same]
  | .list items, w => by
    cases w with
    | list others => simpa [same] using sameItems_rename items others
    | _ => simp [same]
  | .mapping _ entries, w => by
    cases w with
    | mapping _ others => simp [same, sameEntries_rename entries others]
    | _ => simp [same]

theorem sameItems_rename : ∀ items others : List Value,
    sameItems (items.map (rename f)) (others.map (rename f)) = sameItems items others
  | [], [] => rfl
  | [], _ :: _ => rfl
  | _ :: _, [] => rfl
  | v :: rest, w :: others => by
    simp only [List.map_cons, sameItems, same_rename v w, sameItems_rename rest others]

theorem sameEntries_rename : ∀ entries others : Entries,
    sameEntries (entries.rename f) (others.rename f) = sameEntries entries others
  | [], _ => rfl
  | (k, v) :: rest, others => by
    simp only [List.map_cons, sameEntries]
    rw [Entries.find?_rename, sameEntries_rename rest others]
    cases Entries.find? others k with
    | none => rfl
    | some w => simp only [Option.map_some, same_rename v w]

end

mutual

@[simp] theorem depth_rename : ∀ v : Value, (v.rename f).depth = v.depth
  | .scalar _ => rfl
  | .list items => by rw [rename, depth, depth, depthItems_rename items]
  | .mapping _ entries => by rw [rename, depth, depth, depthEntries_rename entries]

theorem depthItems_rename : ∀ items : List Value, depthItems (renameItems f items) = depthItems items
  | [] => rfl
  | v :: rest => by rw [renameItems, depthItems, depthItems, depth_rename v, depthItems_rename rest]

theorem depthEntries_rename : ∀ entries : Entries,
    depthEntries (renameEntries f entries) = depthEntries entries
  | [] => rfl
  | (_, v) :: rest => by
    rw [renameEntries, depthEntries, depthEntries, depth_rename v, depthEntries_rename rest]

end

mutual

@[simp] theorem references_rename : ∀ v : Value, (v.rename f).references = v.references
  | .scalar _ => rfl
  | .list items => by rw [rename, references, references, referencesOfItems_rename items]
  | .mapping _ entries => by rw [rename, references, references, referencesOfEntries_rename entries]

theorem referencesOfItems_rename : ∀ items : List Value,
    referencesOfItems (renameItems f items) = referencesOfItems items
  | [] => rfl
  | v :: rest => by
    rw [renameItems, referencesOfItems, referencesOfItems, references_rename v,
      referencesOfItems_rename rest]

theorem referencesOfEntries_rename : ∀ entries : Entries,
    referencesOfEntries (renameEntries f entries) = referencesOfEntries entries
  | [] => rfl
  | (k, v) :: rest => by
    -- whether the entry is itself a reference is seen at its key and at its value
    change _ ++ (v.rename f).references ++ referencesOfEntries (renameEntries f rest) =
      _ ++ v.references ++ referencesOfEntries rest
    rw [references_rename v, referencesOfEntries_rename rest]
    cases v with
    | scalar s => rfl
    | list items => simp [rename]
    | mapping origin entries => simp [rename]

end

mutual

@[simp] theorem literal_rename : ∀ v : Value, (v.rename f).literal = v.literal
  | .scalar _ => rfl
  | .list items => by rw [rename, literal, literal, literalItems_rename items]
  | .mapping _ entries => by rw [rename, literal, literal, literalEntries_rename entries]

theorem literalItems_rename : ∀ items : List Value,
    literalItems (renameItems f items) = literalItems items
  | [] => rfl
  | v :: rest => by
    rw [renameItems, literalItems, literalItems, literal_rename v, literalItems_rename rest]

theorem literalEntries_rename : ∀ entries : Entries,
    literalEntries (renameEntries f entries) = literalEntries entries
  | [] => rfl
  | (_, v) :: rest => by
    rw [renameEntries, literalEntries, literalEntries, literal_rename v, literalEntries_rename rest]

end

@[simp] theorem display_rename (v : Value) : (v.rename f).display = v.display := by
  cases v with
  | scalar s => rfl
  | list items => exact literal_rename (.list items)
  | mapping origin entries => exact literal_rename (.mapping origin entries)

end Value

/-! ### Where references lead -/

namespace Resolver

variable {f : Nat → Nat} (ref : String)

theorem item?_rename (items : List Value) (index : Int) :
    item? (items.map (Value.rename f)) index = (item? items index).map (Value.rename f) := by
  unfold item?
  rw [List.length_map]
  split
  · rw [List.getElem?_map]
  · split
    · rw [List.getElem?_map]
    · rfl

theorem descend_rename (segment : String) (v : Value) :
    descend ref segment (v.rename f) = (descend ref segment v).map (Value.rename f) := by
  cases v with
  | scalar s => rfl
  | list items =>
    rw [Value.rename_list]
    unfold descend
    cases Text.readInt? segment.toList with
    | none => rfl
    | some index =>
      simp only [Option.bind_some, item?_rename]
      cases item? items index <;> rfl
  | mapping origin entries =>
    rw [Value.rename_mapping]
    simp only [descend, Entries.text?_rename]
    cases Entries.text? entries segment <;> rfl

theorem walk_rename (segments : List String) (v : Value) :
    walk ref segments (v.rename f) = (walk ref segments v).map (Value.rename f) := by
  induction segments generalizing v with
  | nil => rfl
  | cons segment rest ih =>
    rw [walk, walk, descend_rename]
    cases descend ref segment v with
    | error fault => rfl
    | ok next => exact ih next

theorem target_rename (document : Value) :
    target (document.rename f) ref = (target document ref).map (Value.rename f) := by
  unfold target
  cases Pointer.segments ref with
  | error fault => rfl
  | ok segments =>
    simp only [bind, Except.bind]
    rw [walk_rename]
    cases walk ref segments document with
    | error fault => rfl
    | ok v =>
      simp only [Except.map, Value.isMapping_rename]
      split <;> rfl

end Resolver

end RouteStubs
