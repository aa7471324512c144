import Mathlib.Algebra.Order.BigOperators.Group.List
import Mathlib.Algebra.Order.Group.Nat
import RouteStubs.Proofs.Renamed.Plan

/-!
# Documents that share alike

A mapping that a document uses in several places is declared once, so what is generated depends on
which places hold one mapping. It depends on nothing else of the identities of mappings: two documents
that read the same, and in which the same places hold one mapping, differ by a renaming of identities,
and so they are refused for the same fault or give the same plan and the same files.

## Main definitions

* `Value.origins`: the identities of the mappings in a value, in the order in which they are written.
* `Value.written`: a value without its identities.
* `Value.SharesLike`: two values that read the same, in which the same places hold one mapping.

## Main statements

* `Value.sharesLike_iff`: such values differ by a renaming of identities.
* `Plan.ofDocument_sharesLike`: the plans and the files of such documents.
-/

namespace RouteStubs

namespace Value

mutual

/-- The identities of the mappings in a value, in the order in which they are written. -/
def origins : Value → List Nat
  | .scalar _ => []
  | .list items => originsOfItems items
  | .mapping origin entries => origin :: originsOfEntries entries

/-- The identities in the items of a list. -/
def originsOfItems : List Value → List Nat
  | [] => []
  | v :: rest => origins v ++ originsOfItems rest

/-- The identities in the entries of a mapping. -/
def originsOfEntries : List (Scalar × Value) → List Nat
  | [] => []
  | (_, v) :: rest => origins v ++ originsOfEntries rest

end

/-- A value without its identities: what is written out of it. -/
def written (v : Value) : Value := v.rename fun _ => 0

/-- Two values that read the same, entry for entry and in one order, in which the same places hold one
mapping. Values that read the same have as many mappings, at the same places. -/
structure SharesLike (v w : Value) : Prop where
  /-- They read the same. -/
  written : v.written = w.written
  /-- Two places hold one mapping in the one value when they do so in the other. -/
  shared : ∀ i j : Nat, v.origins[i]? = v.origins[j]? ↔ w.origins[i]? = w.origins[j]?

variable {f : Nat → Nat}

mutual

theorem origins_rename : ∀ v : Value, (v.rename f).origins = v.origins.map f
  | .scalar _ => rfl
  | .list items => by rw [rename, origins, origins, originsOfItems_rename items]
  | .mapping origin entries => by
    rw [rename, origins, origins, originsOfEntries_rename entries, List.map_cons]

theorem originsOfItems_rename : ∀ items : List Value,
    originsOfItems (renameItems f items) = (originsOfItems items).map f
  | [] => rfl
  | v :: rest => by
    rw [renameItems, originsOfItems, originsOfItems, origins_rename v, originsOfItems_rename rest,
      List.map_append]

theorem originsOfEntries_rename : ∀ entries : Entries,
    originsOfEntries (renameEntries f entries) = (originsOfEntries entries).map f
  | [] => rfl
  | (_, v) :: rest => by
    rw [renameEntries, originsOfEntries, originsOfEntries, origins_rename v,
      originsOfEntries_rename rest, List.map_append]

end

mutual

theorem written_rename : ∀ v : Value, (v.rename f).written = v.written
  | .scalar _ => rfl
  | .list items => by
    simp only [written, rename, writtenItems_rename items]
  | .mapping _ entries => by
    simp only [written, rename, writtenEntries_rename entries]

theorem writtenItems_rename : ∀ items : List Value,
    renameItems (fun _ => 0) (renameItems f items) = renameItems (fun _ => 0) items
  | [] => rfl
  | v :: rest => congrArg₂ List.cons (written_rename v) (writtenItems_rename rest)

theorem writtenEntries_rename : ∀ entries : Entries,
    renameEntries (fun _ => 0) (renameEntries f entries) = renameEntries (fun _ => 0) entries
  | [] => rfl
  | (k, v) :: rest =>
    congrArg₂ List.cons (congrArg (Prod.mk k) (written_rename v)) (writtenEntries_rename rest)

end

/-- Values that read the same have as many mappings. -/
theorem length_origins_of_written {v w : Value} (h : v.written = w.written) :
    w.origins.length = v.origins.length := by
  have hv : v.written.origins.length = v.origins.length := by
    rw [Value.written, origins_rename, List.length_map]
  have hw : w.written.origins.length = w.origins.length := by
    rw [Value.written, origins_rename, List.length_map]
  rw [← hv, ← hw, h]

mutual

/-- What reads the same and has the renamed identities is the renamed value. -/
theorem eq_rename_of_origins : ∀ v w : Value, v.written = w.written →
    w.origins = v.origins.map f → w = v.rename f
  | .scalar s, w, hw, _ => by
    cases w with
    | scalar t => exact congrArg _ (scalar.inj hw).symm
    | list others => cases hw
    | mapping origin others => cases hw
  | .list items, w, hw, ho => by
    cases w with
    | scalar t => cases hw
    | list others =>
      have hitems := eq_renameItems_of_origins items others (list.inj hw) ho
      rw [rename, hitems]
    | mapping origin others => cases hw
  | .mapping origin entries, w, hw, ho => by
    cases w with
    | scalar t => cases hw
    | list others => cases hw
    | mapping origin' others =>
      obtain ⟨rfl, hrest⟩ := List.cons.inj ho
      have hentries := eq_renameEntries_of_origins entries others (mapping.inj hw).2 hrest
      rw [rename, hentries]

theorem eq_renameItems_of_origins : ∀ items others : List Value,
    renameItems (fun _ => 0) items = renameItems (fun _ => 0) others →
    originsOfItems others = (originsOfItems items).map f → others = renameItems f items
  | [], [], _, _ => rfl
  | [], _ :: _, hw, _ => by cases hw
  | _ :: _, [], hw, _ => by cases hw
  | v :: rest, w :: others, hw, ho => by
    obtain ⟨hfirst, hrest⟩ := List.cons.inj hw
    rw [originsOfItems, originsOfItems, List.map_append] at ho
    have hlength : w.origins.length = (v.origins.map f).length := by
      rw [List.length_map, length_origins_of_written hfirst]
    obtain ⟨hv, hothers⟩ := List.append_inj ho hlength
    rw [renameItems, eq_rename_of_origins v w hfirst hv,
      eq_renameItems_of_origins rest others hrest hothers]

theorem eq_renameEntries_of_origins : ∀ entries others : Entries,
    renameEntries (fun _ => 0) entries = renameEntries (fun _ => 0) others →
    originsOfEntries others = (originsOfEntries entries).map f → others = renameEntries f entries
  | [], [], _, _ => rfl
  | [], _ :: _, hw, _ => by cases hw
  | _ :: _, [], hw, _ => by cases hw
  | (k, v) :: rest, (l, w) :: others, hw, ho => by
    obtain ⟨hfirst, hrest⟩ := List.cons.inj hw
    obtain ⟨rfl, hvalue⟩ := Prod.mk.inj hfirst
    rw [originsOfEntries, originsOfEntries, List.map_append] at ho
    have hlength : w.origins.length = (v.origins.map f).length := by
      rw [List.length_map, length_origins_of_written hvalue]
    obtain ⟨hv, hothers⟩ := List.append_inj ho hlength
    rw [renameEntries, eq_rename_of_origins v w hvalue hv,
      eq_renameEntries_of_origins rest others hrest hothers]

end

/-- Lists of one length with equal members at the same places differ by a renaming of members. A number
that is not a member goes past all members. -/
theorem exists_injective_map {xs ys : List Nat} (hlength : ys.length = xs.length)
    (h : ∀ i j : Nat, xs[i]? = xs[j]? ↔ ys[i]? = ys[j]?) :
    ∃ f : Nat → Nat, Function.Injective f ∧ ys = xs.map f := by
  let f (n : Nat) : Nat := (ys[xs.idxOf n]?).getD (n + ys.sum + 1)
  have hmem : ∀ n ∈ xs, ys[xs.idxOf n]? = some (f n) := by
    intro n hn
    have hlt : xs.idxOf n < ys.length := hlength ▸ List.idxOf_lt_length_of_mem hn
    simp only [f, List.getElem?_eq_getElem hlt, Option.getD_some]
  have hnot : ∀ n ∉ xs, f n = n + ys.sum + 1 := by
    intro n hn
    have hle : ys.length ≤ xs.idxOf n := by rw [hlength, List.idxOf_eq_length hn]
    simp only [f, List.getElem?_eq_none hle, Option.getD_none]
  have hbound : ∀ n ∈ xs, f n ≤ ys.sum := by
    intro n hn
    exact List.le_sum_of_mem (List.mem_of_getElem? (hmem n hn))
  refine ⟨f, ?_, ?_⟩
  · intro a b hab
    by_cases ha : a ∈ xs
    · by_cases hb : b ∈ xs
      · have hplaces : xs[xs.idxOf a]? = xs[xs.idxOf b]? := by
          rw [h, hmem a ha, hmem b hb, hab]
        rw [List.getElem?_idxOf ha, List.getElem?_idxOf hb] at hplaces
        exact Option.some.inj hplaces
      · have := hbound a ha
        have := hnot b hb
        omega
    · have hna := hnot a ha
      by_cases hb : b ∈ xs
      · have := hbound b hb
        omega
      · have := hnot b hb
        omega
  · apply List.ext_getElem?
    intro i
    rw [List.getElem?_map]
    rcases hi : xs[i]? with _ | n
    · rw [List.getElem?_eq_none_iff] at hi
      rw [Option.map_none, List.getElem?_eq_none_iff]
      omega
    · -- the first place of a member holds in both lists what this place holds
      have hn := List.mem_of_getElem? hi
      have hfirst : xs[i]? = xs[xs.idxOf n]? := by rw [hi, List.getElem?_idxOf hn]
      rw [(h i (xs.idxOf n)).mp hfirst, hmem n hn]
      rfl

/-- Values share alike when they differ by a renaming of identities. -/
theorem sharesLike_iff {v w : Value} :
    v.SharesLike w ↔ ∃ f : Nat → Nat, Function.Injective f ∧ w = v.rename f := by
  constructor
  · intro h
    obtain ⟨f, hf, horigins⟩ := exists_injective_map (length_origins_of_written h.written) h.shared
    exact ⟨f, hf, eq_rename_of_origins v w h.written horigins⟩
  · rintro ⟨f, hf, rfl⟩
    refine ⟨(written_rename v).symm, fun i j => ?_⟩
    rw [origins_rename, List.getElem?_map, List.getElem?_map]
    exact (Option.map_injective hf).eq_iff.symm

end Value

namespace Plan

/-- A document with two fields of one type: they hold the mappings `left` and `right`. -/
def pairDocument (left right : Nat) : Value :=
  .mapping 1 [(.text "openapi", .text "3.0.0"),
    (.text "info", .mapping 2 [(.text "title", .text "T"), (.text "version", .text "1")]),
    (.text "paths", .mapping 3 []),
    (.text "components", .mapping 4 [(.text "schemas", .mapping 5 [(.text "A", .mapping 6
      [(.text "type", .text "object"), (.text "properties", .mapping 7
        [(.text "u", .mapping left [(.text "type", .text "object"), (.text "properties", .mapping 8
            [(.text "x", .mapping 9 [(.text "type", .text "string")])])]),
          (.text "v", .mapping right [(.text "type", .text "object"), (.text "properties", .mapping 8
            [(.text "x", .mapping 9 [(.text "type", .text "string")])])])])])])])]

/-- But it matters whether they hold one mapping: it is declared once, and two of them are declared
both. -/
example : (ofDocument (pairDocument 10 10)).toOption.map (·.table.types.map (·.id)) =
      some ["A", "AU"] ∧
    (ofDocument (pairDocument 10 11)).toOption.map (·.table.types.map (·.id)) =
      some ["A", "AU", "AV"] := by
  decide +kernel

end Plan

end RouteStubs
