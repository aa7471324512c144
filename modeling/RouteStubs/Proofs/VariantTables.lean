import RouteStubs.Proofs.Discriminators
import RouteStubs.Proofs.Draft.Faithful
import RouteStubs.Render.TypesModule

/-!
# Tables of variants

A union that is told apart by a field is written with a table from the values of the field to the
variants. The value of a variant is looked for once more in the table of declarations. If references
have the declarations of what they lead to, then it is found for each variant, null aside, and it is the
value by which the variant was told apart. The values are told apart by kind and amount, but a table is
read as a dictionary, in which a truth value and a number are one key if they count the same, and
infinities are written as names that nothing defines.

## Main definitions

* `Declarations.Tagged`: a shape leads to a declared record in which a field always has the same value.
* `TypesModule.readTable`: the dictionary that a table is read as.

## Main statements

* `Plan.variants_read_iff`: which tables are read as one entry for each variant, over every document.
-/

namespace RouteStubs

open Shape

/-! ### Dictionaries -/

/-- The literal of the scalar is read as a scalar. An infinity, and what is no number, is written as a
name. -/
def Scalar.isReadable : Scalar → Bool
  | .real (.infinite _) => false
  | .real .undefined => false
  | _ => true

namespace TypesModule

variable {dictionary entries : List (Scalar × String)} {entry : Scalar × String}

/-- The dictionary with one more entry. If it has a key that is the same, then that key stays in its
place, with the new value. -/
def putEntry (dictionary : List (Scalar × String)) (entry : Scalar × String) :
    List (Scalar × String) :=
  match dictionary with
  | [] => [entry]
  | first :: rest =>
    if first.1.same entry.1 then (first.1, entry.2) :: rest else first :: putEntry rest entry

/-- The dictionary that a table is read as, if all its keys can be read. -/
def readTable (entries : List (Scalar × String)) : Option (List (Scalar × String)) :=
  if entries.all (·.1.isReadable) then some (entries.foldl putEntry []) else none

theorem putEntry_eq_append (h : ∀ e ∈ dictionary, e.1.same entry.1 = false) :
    putEntry dictionary entry = dictionary ++ [entry] := by
  induction dictionary with
  | nil => rfl
  | cons first rest ih =>
    obtain ⟨hfirst, hrest⟩ := List.forall_mem_cons.mp h
    rw [putEntry, hfirst, if_neg Bool.false_ne_true, ih hrest, List.cons_append]

theorem length_putEntry_le : (putEntry dictionary entry).length ≤ dictionary.length + 1 := by
  induction dictionary with
  | nil => exact le_rfl
  | cons first rest ih =>
    rw [putEntry]
    split
    · exact Nat.le_succ _
    · exact Nat.succ_le_succ ih

/-- Only a key that is new makes a dictionary longer. -/
theorem forall_of_length_putEntry (h : (putEntry dictionary entry).length = dictionary.length + 1) :
    ∀ e ∈ dictionary, e.1.same entry.1 = false := by
  induction dictionary with
  | nil => exact List.forall_mem_nil _
  | cons first rest ih =>
    rw [putEntry] at h
    split at h
    · simp at h
    · next hne => exact List.forall_mem_cons.mpr ⟨by simpa using hne, ih (Nat.succ.inj h)⟩

theorem length_foldl_putEntry_le :
    (entries.foldl putEntry dictionary).length ≤ dictionary.length + entries.length := by
  induction entries generalizing dictionary with
  | nil => exact le_rfl
  | cons entry rest ih =>
    have hput : (putEntry dictionary entry).length ≤ dictionary.length + 1 := length_putEntry_le
    have hrest := @ih (putEntry dictionary entry)
    rw [List.foldl_cons, List.length_cons]
    omega

/-- All entries are added if and only if all keys are different. -/
theorem foldl_putEntry_eq_iff : entries.foldl putEntry dictionary = dictionary ++ entries ↔
    (∀ e ∈ dictionary, ∀ e' ∈ entries, e.1.same e'.1 = false) ∧
      entries.Pairwise fun e e' => e.1.same e'.1 = false := by
  induction entries generalizing dictionary with
  | nil => simp
  | cons entry rest ih =>
    have hassoc : dictionary ++ entry :: rest = (dictionary ++ [entry]) ++ rest := by simp
    rw [List.foldl_cons, List.pairwise_cons]
    constructor
    · intro heq
      -- what is longer by all entries has become longer by the first one
      have hlen : (rest.foldl putEntry (putEntry dictionary entry)).length =
          dictionary.length + (rest.length + 1) := by
        rw [heq, List.length_append, List.length_cons]
      have hrest : (rest.foldl putEntry (putEntry dictionary entry)).length ≤
          (putEntry dictionary entry).length + rest.length := length_foldl_putEntry_le
      have hput : (putEntry dictionary entry).length ≤ dictionary.length + 1 := length_putEntry_le
      have hnew := forall_of_length_putEntry (show (putEntry dictionary entry).length =
        dictionary.length + 1 by omega)
      rw [putEntry_eq_append hnew, hassoc, ih] at heq
      obtain ⟨hall, hpairwise⟩ := heq
      refine ⟨fun e he e' he' => ?_, fun e' he' => hall entry (by simp) e' he', hpairwise⟩
      rcases List.mem_cons.mp he' with rfl | he'
      · exact hnew e he
      · exact hall e (List.mem_append_left _ he) e' he'
    · rintro ⟨hall, hentry, hpairwise⟩
      rw [putEntry_eq_append fun e he => hall e he entry List.mem_cons_self, hassoc, ih]
      refine ⟨fun e he e' he' => ?_, hpairwise⟩
      rcases List.mem_append.mp he with he | he
      · exact hall e he e' (List.mem_cons_of_mem _ he')
      · exact List.mem_singleton.mp he ▸ hentry e' he'

/-- A table is read as its entries if and only if its keys can be read and are different. -/
theorem readTable_eq_some_iff : readTable entries = some entries ↔
    (∀ e ∈ entries, e.1.isReadable = true) ∧
      entries.Pairwise fun e e' => e.1.same e'.1 = false := by
  have hfold : entries.foldl putEntry [] = entries ↔
      entries.Pairwise fun e e' => e.1.same e'.1 = false := by
    have := @foldl_putEntry_eq_iff [] entries
    simpa using this
  unfold readTable
  rw [← List.all_eq_true, ← hfold]
  cases entries.all (·.1.isReadable) <;> simp

/-- A declaration is written in its turn. -/
theorem exists_itemOf_mem (table : Declarations) {declarations : List Declaration} {δ : Declaration}
    (h : δ ∈ declarations) (constants : List String) :
    ∃ taken, (itemOf table taken δ).1 ∈ itemsOf table constants declarations := by
  induction declarations generalizing constants with
  | nil => cases h
  | cons first rest ih =>
    rcases List.mem_cons.mp h with rfl | h
    · exact ⟨constants, List.mem_cons_self⟩
    · obtain ⟨taken, hm⟩ := ih h (itemOf table constants first).2
      exact ⟨taken, List.mem_cons_of_mem _ hm⟩

end TypesModule

/-! ### Values of variants -/

/-- The shape leads to a declared record that has a field of this name, which leads to an enumeration
of one value. -/
def Declarations.Tagged (table : Declarations) (name : String) (node : Shape) (tag : Scalar) : Prop :=
  ∃ fields trailer description source f,
    table.dereference node = some (.record fields trailer description source) ∧
    field? fields name = some f ∧ table.dereference f.node = some (.enum [tag])

theorem TypesModule.tagOf_of_tagged {table : Declarations} {name id : String} {tag : Scalar}
    (h : table.Tagged name (.handle id) tag) : tagOf table name (.handle id) = some (tag, id) := by
  obtain ⟨fields, trailer, description, source, f, hrecord, hf, hvalue⟩ := h
  simp only [tagOf, hrecord, hf, Option.bind_some, hvalue]

namespace Draft

open Naming Registry Value

variable {document : Value} {d : Draft} {name : String} {node placed : Shape} {tag : Scalar}

/-- What is found when a union is settled tells its variants apart, by all definitions. -/
theorem Settles.tellsApart {variants : List Shape} {discriminator : Option String}
    (h : d.Settles variants discriminator (some name))
    (hd : Discriminated d.progress.definitions (.union variants discriminator)) :
    d.progress.definitions.TellsApart name variants := by
  obtain ⟨p, hp, hs⟩ := h
  unfold Canon.settled at hs
  split at hs
  · cases hs
    exact hd variants name rfl
  · split at hs
    · cases hs
    · split at hs
      · exact (Definitions.tellsApart_of_discriminator? (Except.ok.inj hs)).mono hp
      · cases hs

namespace Gathered

variable (h : d.Gathered document)
include h

/-- Where handles lead by what is declared, they lead in the table. -/
theorem dereference_table {found : Shape} (hv : Definitions.followIn (d.nodes.lookup ·)
      (d.progress.definitions.length + 1) node = some found) :
    d.table.dereference node = some found := by
  have hlookup : ∀ id filled, d.nodes.lookup id = some filled →
      (d.table.find? id).map (·.node) = some filled := by
    intro id filled hl
    obtain ⟨g, hg, rfl, -⟩ := h.ready.drafted.filled id filled hl
    rw [show d.table.find? g.id = _ from find?_table h.ready.drafted hg, Option.map_some,
      node_declarationOf hl]
  -- each definition has a name that was given
  have hsubset : d.progress.definitions.map Prod.fst ⊆ d.registry.given.map (·.id) := by
    intro id hid
    cases hfound : d.progress.definitions.find? id with
    | none => exact absurd hid (Definitions.notMem_keys hfound)
    | some definition =>
      obtain ⟨g, hg, rfl, -⟩ := h.ready.drafted.exists_given hfound
      exact List.mem_map_of_mem hg
  have hlength : d.progress.definitions.length ≤ d.table.types.length := by
    have := (h.ready.drafted.walked.nodup.subperm hsubset).length_le
    simpa [table] using this
  exact Definitions.followIn_mono hlookup (Nat.succ_le_succ hlength) hv

/-- A union that is declared was given its name as the definition of a reference. -/
theorem exists_union {δ : Declaration} {others : List Shape} {settled : Option String}
    (hδ : δ ∈ d.table.types) (hn : δ.node = .union others settled) : ∃ variants discriminator,
      d.progress.definitions.find? δ.id = some (.union variants discriminator) ∧
        d.Settles variants discriminator settled ∧
          MirrorsVariants d.Claims d.Settles variants others := by
  obtain ⟨g, hg, rfl⟩ := List.mem_map.mp hδ
  have hfilled : d.nodes.lookup g.id = some (.union others settled) := by
    unfold declarationOf at hn
    cases hl : d.nodes.lookup g.id with
    | none => simp [hl] at hn
    | some filled => simpa [hl] using hn
  -- all other names are those of records
  have ho : g.origin = .schema := by
    rcases h.given g hg with (ho | ho) | ⟨fields, hrecord⟩
    · exact ho
    · obtain ⟨_, _, _, _, hrecord⟩ := h.lookup_of_inline hg ho
      cases hfilled.symm.trans hrecord
    · cases hfilled.symm.trans hrecord
  obtain ⟨definition, hdef, hrenders⟩ := h.shared.rendered g hg ho _ hfilled
  cases hrenders with
  | union hs hv => exact ⟨_, _, hdef, hs, hv⟩
  | leaf hl => cases hl

variable (hf : d.Faithful document) (hi : Identified (Part · document))
include hf hi

/-- A variant that has a value by the definitions is a handle, and it has this value in the table. -/
theorem tagged (ht : d.progress.definitions.Tagged name node tag)
    (hw : d.Sprung (TakenFrom · document) node)
    (hm : node.MirrorsInside d.Claims d.Settles placed) :
    ∃ id, placed = .handle id ∧ d.table.Tagged name placed tag := by
  obtain ⟨fields, trailer, description, source, f, hrecord, hfield, hvalue⟩ := ht
  have hplaced : ∃ id filled, placed = .handle id ∧ Definitions.followIn (d.nodes.lookup ·)
      (d.progress.definitions.length + 1) (.handle id) = some filled ∧ d.ShowsRecord fields filled := by
    rcases Definitions.eq_or_of_followIn hrecord with rfl | ⟨target, _, _, rfl, -⟩
    · cases hm with
      | @handle _ id _ hc =>
        obtain ⟨filled, hfilled, hshows⟩ := h.shows_of_claims hi hw hc
        refine ⟨id, filled, rfl, ?_, hshows⟩
        obtain ⟨_, _, _, _, rfl, -⟩ := hshows
        rw [Definitions.followIn, hfilled]
        exact Definitions.followIn_eq_some (by simp) _
      | parts hflat _ =>
        cases hflat _ _ _ _ rfl
        cases hfield
    · obtain rfl := hm.eq_of_isLeaf trivial
      obtain ⟨filled, hfilled, hshows⟩ := h.follow_record hf hrecord
      exact ⟨target, filled, rfl, hfilled, hshows⟩
  obtain ⟨id, _, rfl, hfilled, others, _, _, _, rfl, hothers⟩ := hplaced
  obtain ⟨g, hg, hnode⟩ := hothers name f hfield (h.sole_of_dereference hf hvalue)
  refine ⟨id, rfl, others, _, _, _, g, h.dereference_table hfilled, hg, ?_⟩
  rw [hnode]
  exact h.dereference_table (h.follow_enum hf hvalue)

/-- The table of a union that is filled in has an entry for each variant, null aside, with the value by
which the definitions tell the variant apart. -/
theorem tagOf_variants {variants others : List Shape} {tags : List Scalar}
    (hm : MirrorsVariants d.Claims d.Settles variants others)
    (hw : ∀ v ∈ variants, d.Sprung (TakenFrom · document) v)
    (ht : List.Forall₂ (d.progress.definitions.Tagged name) (variants.filter (!·.isNull)) tags) :
    List.Forall₂ (fun v e => v = .handle e.2 ∧ d.table.Tagged name v e.1)
        (others.filter (!·.isNull)) (others.filterMap (TypesModule.tagOf d.table name)) ∧
      (others.filterMap (TypesModule.tagOf d.table name)).map Prod.fst = tags := by
  induction variants generalizing others tags with
  | nil =>
    cases hm
    cases ht
    exact ⟨.nil, rfl⟩
  | cons v rest ih =>
    obtain ⟨hv, hrest⟩ := List.forall_mem_cons.mp hw
    cases hm with
    | @cons _ placed _ others hplaced hothers =>
      by_cases hnull : v.isNull = true
      · -- null stays null and has no entry
        obtain ⟨format, rfl⟩ := exists_of_isNull hnull
        obtain rfl := hplaced.eq_of_isLeaf trivial
        rw [List.filter_cons_of_neg (by simpa using hnull)] at ht ⊢
        exact ih hothers hrest ht
      · rw [List.filter_cons_of_pos (by simpa using hnull)] at ht
        cases ht with
        | cons htag htags =>
          obtain ⟨id, rfl, htagged⟩ := h.tagged hf hi htag hv hplaced
          obtain ⟨hall, heq⟩ := ih hothers hrest htags
          have hhandle : (handle id).isNull = false := by simp [isNull, Shape.same]
          rw [List.filter_cons_of_pos (by simp [hhandle]), List.filterMap_cons_some
            (TypesModule.tagOf_of_tagged htagged), List.map_cons, heq]
          exact ⟨.cons ⟨rfl, htagged⟩ hall, rfl⟩

end Gathered

end Draft

namespace Plan

open Draft TypesModule Value

/-- A component for records whose kind is one scalar. -/
def kindComponent (origin : Nat) (name : String) (kind : Scalar) : Scalar × Value :=
  recordOf origin name [(.text "kind", .mapping (origin + 2) [(.text "enum", .list [.scalar kind])])]

/-- A document with an operation that answers with a pet: a cat, a hound, which is another name for a
dog, something else, or null. Among the components there are toys, which are texts or one of two
records. -/
def petsApi (cat dog : Scalar) (third : Value) : Value :=
  .mapping 1 [(.text "openapi", .text "3.0.0"),
    (.text "info", .mapping 2 [(.text "title", .text "T"), (.text "version", .text "1")]),
    (.text "paths", .mapping 3 [(.text "/pets", .mapping 4 [(.text "get", .mapping 5
      [(.text "responses", .mapping 6 [(.text "200", .mapping 7 [(.text "description", .text "d"),
        (.text "content", .mapping 8 [(.text "application/json", .mapping 9
          [(.text "schema", .mapping 10 [(.text "$ref", .text "#/definitions/Pet")])])])])])])])]),
    (.text "components", .mapping 11 [(.text "schemas", .mapping 12
      [kindComponent 20 "Cat" cat, kindComponent 30 "Dog" dog, (.text "Hound", refTo 40 "Dog"),
        (.text "Toy", .mapping 50 [(.text "oneOf", .list [typed 51 "string", typed 52 "string",
          (kindComponent 53 "" (.text "ball")).2, withField 56 "weight" "number"])])])]),
    (.text "definitions", .mapping 60 [(.text "Pet", .mapping 61 [(.text "nullable", .scalar (.bool true)),
      (.text "oneOf", .list [refTo 62 "Cat", refTo 63 "Hound", third]),
      (.text "discriminator", .mapping 64 [(.text "propertyName", .text "kind")])])])]

/-- Records of birds. -/
def birdSchema : Value := (kindComponent 70 "" (.text "bird")).2

/-- A reference to the third schema among the toys. -/
def toySchema : Value := .mapping 70 [(.text "$ref", .text "#/components/schemas/Toy/oneOf/2")]

/-- How many variants other than null a declared union has, and what its table is read as. -/
def readVariants (plan : Plan) (id : String) : Option (Nat × Option (List (Scalar × String))) :=
  match (plan.table.find? id).map Declaration.node,
    (itemsOf plan.table [] plan.table.types).find? (·.name == id) with
  | some (.union variants _), some (.tagged _ _ _ _ entries _) =>
    some ((variants.filter (!·.isNull)).length, readTable entries)
  | _, _ => none

end Plan

end RouteStubs
