import Mathlib.Data.List.Nodup
import RouteStubs.Declaration.Draft
import RouteStubs.Proofs.Ends
import RouteStubs.Proofs.Faults
import RouteStubs.Proofs.LegalName

/-!
# How the registry of names grows

All that ever happens to a registry is that a name which is not taken is added to it. A reference
gets a name only when it has none, so the name that it has stays; a record or an envelope gets one
for its place without a look at the index, and takes the index entry of its key over.

The walk through schemas asks a namer for the name of each reference that it meets. It relies on
three things: a reference keeps the name it has, a name stands for one reference only, and what a
name stands for never changes. A function that gives different references different names is such a
naming, and so is the registry.

## Main definitions

* `Registry.add`: the registry with one more name.
* `Registry.Grows allowed`: the registries that are reached by adding names of this kind.
* `Registry.Next`: the name that a place gets for a base.
* `Registry.Sound`: the names are different and the index holds the last name of each key.
* `Registry.keyOf?`: the key that a name was given for.
* `Naming namer`: what names and references have to do with each other.
* `Naming.ofInjective`: names that do not depend on a state.
* `Registry.naming`: the naming of references by the registry.

## Main statements

* `Registry.reserve_ends`, `Registry.nameFor_ends`: what the two ways of giving names do.
* `Registry.Sound.of_grows`: a registry that grows stays sound.
-/

namespace RouteStubs

namespace Registry

variable {r r' r'' : Registry} {key id : String} {allowed allowed' : Given → Prop}

/-- The registry with one more name. -/
def add (r : Registry) (g : Given) : Registry :=
  { r with given := r.given ++ [g], index := Keyed.put r.index g.key g.id }

@[simp] theorem given_add (r : Registry) (g : Given) : (r.add g).given = r.given ++ [g] := rfl

@[simp] theorem reserved_add (r : Registry) (g : Given) : (r.add g).reserved = r.reserved := rfl

@[simp] theorem index_add (r : Registry) (g : Given) :
    (r.add g).index = Keyed.put r.index g.key g.id := rfl

theorem lookup_index_add (r : Registry) (g : Given) (key : String) :
    (r.add g).index.lookup key = if g.key = key then some g.id else r.index.lookup key := by
  split
  · next h => subst h; simp
  · next h => simp [Keyed.lookup_put_of_ne _ (Ne.symm h)]

/-! ### Growth -/

/-- The registry is reached by adding allowed names that are not taken. A reference is given a name
only when it has none. -/
inductive Grows (allowed : Given → Prop) (r : Registry) : Registry → Prop
  | refl : Grows allowed r r
  | add {r' : Registry} {g : Given} (h : Grows allowed r r') (fresh : g.id ∉ r'.taken)
      (ok : allowed g) (new : g.origin = .schema → r'.index.lookup g.key = none) :
      Grows allowed r (r'.add g)

theorem Grows.trans (h : Grows allowed r r') (h' : Grows allowed r' r'') : Grows allowed r r'' := by
  induction h' with
  | refl => exact h
  | add _ fresh ok new ih => exact .add ih fresh ok new

theorem Grows.imp (h : Grows allowed r r') (ha : ∀ g, allowed g → allowed' g) :
    Grows allowed' r r' := by
  induction h with
  | refl => exact .refl
  | add _ fresh ok new ih => exact .add ih fresh (ha _ ok) new

theorem Grows.reserved_eq (h : Grows allowed r r') : r'.reserved = r.reserved := by
  induction h with
  | refl => rfl
  | add _ _ _ _ ih => exact ih

theorem Grows.given_mono (h : Grows allowed r r') : r.given <+: r'.given := by
  induction h with
  | refl => exact List.prefix_refl _
  | add _ _ _ _ ih => exact ih.trans (List.prefix_append _ _)

/-- What is added is allowed. -/
theorem Grows.mem_or_allowed (h : Grows allowed r r') {g : Given} (hg : g ∈ r'.given) :
    g ∈ r.given ∨ allowed g := by
  induction h with
  | refl => exact .inl hg
  | add _ _ ok _ ih =>
    rw [given_add, List.mem_append, List.mem_singleton] at hg
    rcases hg with hg | rfl
    · exact ih hg
    · exact .inr ok

/-- While only references are given names, a name that is given stays. -/
theorem Grows.lookup_index (h : Grows (·.origin = .schema) r r') (hk : r.index.lookup key = some id) :
    r'.index.lookup key = some id := by
  induction h with
  | refl => exact hk
  | @add r' g _ _ origin new ih =>
    have hne : g.key ≠ key := by
      rintro rfl
      rw [new origin] at ih
      cases ih
    rw [lookup_index_add, if_neg hne, ih]

/-! ### What the two ways of giving names do -/

/-- The name that is next for this base: the base in the style of declarations, with a number if that is
taken. -/
def Next (r : Registry) (base id : String) : Prop :=
  ∃ style, Name.typeStyle base "Model" = .ok style ∧ id = Name.fresh style r.taken

theorem Next.notMem_taken {base : String} (h : r.Next base id) : id ∉ r.taken := by
  obtain ⟨style, -, rfl⟩ := h
  exact Name.fresh_notMem style r.taken

theorem Next.styled {base : String} (h : r.Next base id) : Name.Styled id := by
  obtain ⟨style, hstyle, rfl⟩ := h
  exact ⟨base, style, r.taken, hstyle, rfl⟩

/-- There is always a name for a place. -/
theorem reserve_ends (r : Registry) (key base : String) (origin : Origin) :
    (reserve key base origin).Ends r (fun id r' => r.Next base id ∧ r' = r.add ⟨id, key, origin⟩)
      fun _ _ => False := by
  simp only [reserve, Step.ends_bind, Step.ends_ofExcept, Step.ends_get, Step.ends_set,
    Step.ends_pure]
  refine ⟨fun style hstyle => ⟨⟨style, hstyle, rfl⟩, rfl⟩, fun fault hfault => ?_⟩
  have hmodel : "Model".toList ≠ [] := by decide
  obtain ⟨style, hstyle⟩ := Name.exists_typeStyle base hmodel
  cases hfault.symm.trans hstyle

/-- The name of a reference: the one it has, or else a new one, which it has from then on. -/
theorem nameFor_ends (r : Registry) (ref : String) :
    (nameFor ref).Ends r
      (fun id r' => Grows (·.origin = .schema) r r' ∧ r'.index.lookup ref = some id ∧
        ∀ g ∈ r'.given, g ∈ r.given ∨ (Name.Styled g.id ∧ g.id = id ∧ g.key = ref))
      fun fault r' => r' = r ∧ fault.isSelfReferring = false := by
  simp only [nameFor, Step.ends_bind, Step.ends_get]
  split
  · next id hid => exact ⟨.refl, hid, fun _ hg => .inl hg⟩
  · next hnone =>
    simp only [Step.ends_bind, Step.ends_ofExcept]
    refine ⟨fun base _ => (reserve_ends r ref base .schema).imp ?_ fun _ _ h => h.elim,
      fun fault hf => ⟨trivial, ?_⟩⟩
    · rintro id _ ⟨hid, rfl⟩
      refine ⟨.add .refl hid.notMem_taken rfl fun _ => hnone, by simp, fun g hg => ?_⟩
      rw [given_add, List.mem_append, List.mem_singleton] at hg
      rcases hg with hg | rfl
      · exact .inl hg
      · exact .inr ⟨hid.styled, rfl, rfl⟩
    · split at hf
      · cases hf
      · exact plain_pointerBase ref fault hf

/-! ### Sound registries -/

/-- The last name that was given for a key. -/
def lastFor (given : List Given) (key : String) : Option String :=
  (given.reverse.find? (·.key == key)).map (·.id)

theorem lastFor_append_singleton (given : List Given) (g : Given) (key : String) :
    lastFor (given ++ [g]) key = if g.key = key then some g.id else lastFor given key := by
  simp only [lastFor, List.reverse_append, List.reverse_singleton, List.singleton_append,
    List.find?_cons]
  split <;> simp_all

theorem mem_of_lastFor {given : List Given} (h : lastFor given key = some id) :
    ∃ g ∈ given, g.key = key ∧ g.id = id := by
  obtain ⟨g, hg, rfl⟩ := Option.map_eq_some_iff.mp h
  exact ⟨g, List.mem_reverse.mp (List.mem_of_find?_eq_some hg),
    by simpa using List.find?_some hg, rfl⟩

/-- The names are different, none of them is reserved, and the index holds the last name that was
given for each key. -/
structure Sound (r : Registry) : Prop where
  nodup : (r.given.map (·.id)).Nodup
  free : ∀ g ∈ r.given, g.id ∉ r.reserved
  index : ∀ key, r.index.lookup key = lastFor r.given key

/-- A name was given once. -/
theorem Sound.eq_of_id (h : r.Sound) {g g' : Given} (hg : g ∈ r.given) (hg' : g' ∈ r.given)
    (hid : g.id = g'.id) : g = g' :=
  List.inj_on_of_nodup_map h.nodup hg hg' hid

theorem sound_start (reserved : List String) : Sound ⟨reserved, [], []⟩ :=
  ⟨List.nodup_nil, by simp, fun _ => rfl⟩

theorem Sound.add (h : r.Sound) {g : Given} (fresh : g.id ∉ r.taken) : (r.add g).Sound := by
  rw [taken, List.mem_append, not_or] at fresh
  refine ⟨?_, ?_, fun key => ?_⟩
  · rw [given_add, List.map_append, List.map_singleton, List.nodup_append]
    refine ⟨h.nodup, List.nodup_singleton _, fun a ha b hb hab => fresh.2 ?_⟩
    rw [List.mem_singleton] at hb
    rwa [← hb, ← hab]
  · -- neither the names before nor the new one are reserved
    intro g' hg'
    rw [given_add, List.mem_append, List.mem_singleton] at hg'
    rcases hg' with hg' | rfl
    · exact h.free g' hg'
    · exact fresh.1
  · rw [lookup_index_add, given_add, lastFor_append_singleton, h.index]

theorem Sound.of_grows (h : r.Sound) (hg : Grows allowed r r') : r'.Sound := by
  induction hg with
  | refl => exact h
  | add _ fresh _ _ ih => exact ih.add fresh

/-! ### Names and keys -/

/-- The key that a name was given for. -/
def keyOf? (r : Registry) (id : String) : Option String :=
  (r.given.find? (·.id == id)).map (·.key)

theorem find?_of_mem {given : List Given} (hn : (given.map (·.id)).Nodup) {g : Given}
    (hg : g ∈ given) : given.find? (·.id == g.id) = some g := by
  induction given with
  | nil => cases hg
  | cons a rest ih =>
    rw [List.map_cons, List.nodup_cons] at hn
    rcases List.mem_cons.mp hg with rfl | hg
    · simp
    · have hne : a.id ≠ g.id := fun e => hn.1 (e ▸ List.mem_map_of_mem hg)
      simpa [List.find?_cons, hne] using ih hn.2 hg

theorem Sound.keyOf?_of_mem (h : r.Sound) {g : Given} (hg : g ∈ r.given) :
    r.keyOf? g.id = some g.key := by
  rw [keyOf?, find?_of_mem h.nodup hg, Option.map_some]

theorem exists_of_keyOf? (h : r.keyOf? id = some key) : ∃ g ∈ r.given, g.id = id ∧ g.key = key := by
  obtain ⟨g, hg, rfl⟩ := Option.map_eq_some_iff.mp h
  exact ⟨g, List.mem_of_find?_eq_some hg, by simpa using List.find?_some hg, rfl⟩

theorem Sound.keyOf?_of_lookup (h : r.Sound) (hk : r.index.lookup key = some id) :
    r.keyOf? id = some key := by
  rw [h.index] at hk
  obtain ⟨g, hg, rfl, rfl⟩ := mem_of_lastFor hk
  exact h.keyOf?_of_mem hg

theorem Grows.keyOf? (hg : Grows allowed r r') (hk : r.keyOf? id = some key) :
    r'.keyOf? id = some key := by
  obtain ⟨more, hm⟩ := hg.given_mono
  obtain ⟨g, hfind, rfl⟩ := Option.map_eq_some_iff.mp hk
  simp [Registry.keyOf?, ← hm, hfind]

end Registry

/-! ### Naming of references -/

/-- How the names that a namer gives and the references that they were given for belong together. -/
structure Naming {ν : Type} (namer : Namer ν) where
  /-- What holds of the states that are met. -/
  Valid : ν → Prop
  /-- The states that are reached from a state by giving names to references. -/
  Later : ν → ν → Prop
  /-- The name that a reference has now. -/
  current : ν → String → Option String
  /-- The reference that a name stands for. -/
  stands : ν → String → Option String
  refl : ∀ n, Later n n
  trans : ∀ {n n' n''}, Later n n' → Later n' n'' → Later n n''
  valid : ∀ {n n'}, Valid n → Later n n' → Valid n'
  current_later : ∀ {n n' ref name},
    Later n n' → current n ref = some name → current n' ref = some name
  stands_later : ∀ {n n' ref name},
    Later n n' → stands n name = some ref → stands n' name = some ref
  stands_of_current : ∀ {n ref name},
    Valid n → current n ref = some name → stands n name = some ref
  ends : ∀ n ref, (namer ref).Ends n (fun name n' => Later n n' ∧ current n' ref = some name)
    fun fault n' => Later n n' ∧ fault.isSelfReferring = false

/-- Names that are given to references once and for all, different ones to different references. -/
noncomputable def Naming.ofInjective {f : String → String} (hf : Function.Injective f) :
    Naming (ν := Unit) fun ref => pure (f ref) where
  Valid _ := True
  Later _ _ := True
  current _ ref := some (f ref)
  stands _ name := Function.partialInv f name
  refl _ := trivial
  trans _ _ := trivial
  valid _ _ := trivial
  current_later _ h := h
  stands_later _ h := h
  stands_of_current _ h := Option.some.inj h ▸ Function.partialInv_left hf _
  ends _ _ := ⟨trivial, rfl⟩

/-- The naming of references by the registry. -/
def Registry.naming : Naming Registry.nameFor where
  Valid := Sound
  Later := Grows (·.origin = .schema)
  current r ref := r.index.lookup ref
  stands := keyOf?
  refl _ := .refl
  trans := Grows.trans
  valid := Sound.of_grows
  current_later h := h.lookup_index
  stands_later h := h.keyOf?
  stands_of_current h := h.keyOf?_of_lookup
  ends r ref := (nameFor_ends r ref).imp (fun _ _ h => ⟨h.1, h.2.1⟩)
    (by rintro _ _ ⟨rfl, h⟩; exact ⟨.refl, h⟩)

end RouteStubs
