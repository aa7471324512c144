import RouteStubs.Proofs.Schema.Walked
import RouteStubs.Proofs.Shape.Alike

/-!
# Schemas that are read again

A schema may be read several times on the way through a document, each time by means of what has
been found by then. All its readings are alike. The rules go by the same parts of the schema each
time; a composition looks into definitions, and what one reference is defined as under several names
is what its target reads as, by means of fewer definitions.

## Main statements

* `Canon.ReadsRecord.alike`, `Canon.ReadsComposition.alike`, `Canon.ReadsTypes.alike`: rule by rule.
* `Naming.Walked.alike`: all readings of a schema.
* `Naming.Walked.alike_source`: all records that are read from a mapping.
-/

namespace RouteStubs

namespace Canon

open Shape

variable {points : String → String → Prop} {key : String → Option String}
  {definitions definitions' : Definitions} {sub sub' : Value → Shape → Prop} {entries : Entries}
  {source : Option Source} {node other : Shape}

section Rules

variable (hs : ∀ v node other, sub v node → sub' v other → Alike key node other)
include hs

/-! ### Records -/

theorem ReadsFields.alike {required : List String} {properties : Entries}
    {fields more : List (Field Shape)} (h : ReadsFields sub required properties fields)
    (h' : ReadsFields sub' required properties more) : AlikeFields key fields more := by
  induction h generalizing more with
  | nil =>
    cases h'
    exact .nil
  | cons head described _ ih =>
    cases h' with
    | cons head' described' tail' =>
      cases described.symm.trans described'
      exact .cons (hs _ _ _ head head') (ih tail')

theorem ReadsTrailer.alike {trailer tail : Option Shape} (h : ReadsTrailer sub entries trailer)
    (h' : ReadsTrailer sub' entries tail) : AlikeTrailer key trailer tail := by
  unfold ReadsTrailer at h h'
  split at h
  · next ha =>
    simp only [ha] at h'
    rw [h, h']
    exact .some .unknown
  · next ha =>
    simp only [ha] at h'
    obtain ⟨node, hn, rfl⟩ := h
    obtain ⟨other, ho, rfl⟩ := h'
    exact .some (hs _ _ _ hn ho)
  · next hfree hclosed =>
    split at h'
    · next ha => exact absurd ha hfree
    · next ha => exact absurd ha (hclosed _ _)
    · rw [h, h']
      exact .none

theorem ReadsRecord.alike (h : ReadsRecord sub entries source node)
    (h' : ReadsRecord sub' entries source other) : Alike key node other := by
  obtain ⟨names, properties, further, described⟩ := h
  obtain ⟨names', properties', further', described'⟩ := h'
  cases names.symm.trans names'
  cases described.symm.trans described'
  exact .record (properties.alike hs properties') (further.alike hs further')

/-! ### Compositions -/

theorem ReadsMember.alike {member : Member} (h : ReadsMember sub member node)
    (h' : ReadsMember sub' member other) : Alike key node other := by
  cases member with
  | listed schema => exact hs schema _ _ h h'
  | beside entries => exact ReadsRecord.alike hs h h'

section Definitions

variable (hd : ∀ name name' k node node', key name = some k → key name' = some k →
  definitions.find? name = some node → definitions'.find? name' = some node' → Alike key node node')
include hd

theorem ReadsMembers.alike {fields more fields' more' : List (Field Shape)}
    {trailer tail trailer' tail' : Option Shape} {members : List Member}
    (hf : AlikeFields key fields more) (ht : AlikeTrailer key trailer tail)
    (h : ReadsMembers definitions sub fields trailer members fields' trailer')
    (h' : ReadsMembers definitions' sub' more tail members more' tail') :
    AlikeFields key fields' more' ∧ AlikeTrailer key trailer' tail' := by
  induction h generalizing more tail with
  | nil =>
    cases h'
    exact ⟨hf, ht⟩
  | cons head record merge _ ih =>
    cases h' with
    | cons head' record' merge' others' =>
      obtain ⟨hmore, htail⟩ := (head.alike hs head').dereference hd record record'
      refine ih (alike_mergeFields hf hmore merge merge') ?_ others'
      -- the first trailer that there is counts
      cases ht with
      | none => exact htail
      | some h => exact .some h

theorem ReadsComposition.alike {origin : Nat} {listed : List Value}
    (h : ReadsComposition definitions sub origin entries listed node)
    (h' : ReadsComposition definitions' sub' origin entries listed other) : Alike key node other := by
  cases h with
  | beside sole record =>
    cases h' with
    | beside sole' record' =>
      cases sole.symm.trans sole'
      exact record.alike hs record'
    | passes sole' _ => cases sole.symm.trans sole'
    | merges several' _ _ _ => cases sole.symm.trans several'
  | passes sole head =>
    cases h' with
    | beside sole' _ => cases sole.symm.trans sole'
    | passes sole' head' =>
      cases sole.symm.trans sole'
      exact hs _ _ _ head head'
    | merges several' _ _ _ => cases sole.symm.trans several'
  | merges several members required described =>
    cases h' with
    | beside sole' _ => cases several.symm.trans sole'
    | passes sole' _ => cases several.symm.trans sole'
    | merges _ members' required' described' =>
      obtain ⟨hf, ht⟩ := members.alike hs hd .nil .none members'
      cases described.symm.trans described'
      exact .record (alike_requireFields hf required required') ht

end Definitions

/-! ### Unions -/

theorem alikeNodes_of_forall₂ {schemas : List Value} {nodes others : List Shape}
    (h : List.Forall₂ sub schemas nodes) (h' : List.Forall₂ sub' schemas others) :
    AlikeNodes key nodes others := by
  induction h generalizing others with
  | nil =>
    cases h'
    exact .nil
  | cons head _ ih =>
    cases h' with
    | cons head' tail' => exact .cons (hs _ _ _ head head') (ih tail')

omit hs in
theorem ReadsUnion.joins {nodes : List Shape}
    (h : ReadsUnion definitions entries (distinct nodes) node) : Joins nodes node := by
  unfold ReadsUnion at h
  split at h
  · next only hd => exact .inl (by rw [hd, h])
  · obtain ⟨earlier, -, rfl⟩ := h
    exact .inr ⟨_, rfl⟩

theorem ReadsAlternatives.alike {members : Value}
    (h : ReadsAlternatives definitions sub entries members node)
    (h' : ReadsAlternatives definitions' sub' entries members other) : Alike key node other := by
  unfold ReadsAlternatives at h h'
  split at h
  · obtain ⟨nodes, hn, hu⟩ := h
    obtain ⟨others, ho, hu'⟩ := h'
    refine alike_of_joins (alikeNodes_of_forall₂ hs hn ho) hu.joins hu'.joins ?_
    rintro rfl
    cases hn
  · simp only at h'
    rw [h, h']
    exact .unknown

/-! ### Types -/

theorem ReadsType.alike {source : Source} {type : Scalar}
    (h : ReadsType sub entries source type node) (h' : ReadsType sub' entries source type other) :
    Alike key node other := by
  unfold ReadsType at h h'
  cases hf : formOf entries type with
  | array =>
    simp only [hf] at h h'
    obtain ⟨element, he, rfl⟩ := h
    obtain ⟨element', he', rfl⟩ := h'
    exact .array (hs _ _ _ he he')
  | record =>
    simp only [hf] at h h'
    exact h.alike hs h'
  | primitive kind =>
    simp only [hf] at h h'
    rw [h, h']
    exact .primitive
  | anything =>
    simp only [hf] at h h'
    rw [h, h']
    exact .unknown

omit hs in
theorem joins_ofSeveral {nodes : List Shape} (hne : nodes ≠ []) : Joins nodes (ofSeveral nodes) := by
  unfold ofSeveral
  split
  · next hnone =>
    obtain ⟨first, rest, rfl⟩ := List.exists_cons_of_ne_nil hne
    obtain ⟨kept, hk⟩ := distinct_cons first rest
    rw [hnone] at hk
    cases hk
  · next only hone => exact .inl hone
  · exact .inr ⟨none, rfl⟩

omit hs in
theorem alike_ofSeveral {nodes others : List Shape} (h : AlikeNodes key nodes others) :
    Alike key (ofSeveral nodes) (ofSeveral others) := by
  cases h with
  | nil => exact .unknown
  | cons head rest =>
    exact alike_of_joins (.cons head rest) (joins_ofSeveral (List.cons_ne_nil _ _))
      (joins_ofSeveral (List.cons_ne_nil _ _)) (List.cons_ne_nil _ _)

end Rules

mutual

theorem ReadsTypes.alike (hs : ∀ v node other, sub v node → sub' v other → Alike key node other) :
    ∀ {source : Source} {type : Value} {node other : Shape},
      ReadsTypes sub entries source type node → ReadsTypes sub' entries source type other →
        Alike key node other
  | _, .scalar _, _, _, h, h' => ReadsType.alike hs h h'
  | _, .list _, _, _, ⟨_, hn, he⟩, ⟨_, ho, he'⟩ =>
    he ▸ he' ▸ alike_ofSeveral (ReadsEachType.alike hs hn ho)
  | _, .mapping _ _, _, _, h, h' => by
    rw [show _ = Shape.unknown from h, show _ = Shape.unknown from h']
    exact .unknown

theorem ReadsEachType.alike (hs : ∀ v node other, sub v node → sub' v other → Alike key node other) :
    ∀ {source : Source} {index : Nat} {types : List Value} {nodes others : List Shape},
      ReadsEachType sub entries source index types nodes →
        ReadsEachType sub' entries source index types others → AlikeNodes key nodes others
  | _, _, [], _, _, h, h' => by
    rw [show _ = [] from h, show _ = [] from h']
    exact .nil
  | _, _, _ :: _, _, _, ⟨_, _, hn, head, tail⟩, ⟨_, _, hn', head', tail'⟩ => by
    subst hn hn'
    exact .cons (ReadsTypes.alike hs head head') (ReadsEachType.alike hs tail tail')

end

/-! ### Records of a mapping -/

/-- Two records of one identity that are read from the same entries are alike. -/
theorem ReadsSource.alike (hs : ∀ v node other, sub v node → sub' v other → Alike key node other)
    (hd : ∀ name name' k node node', key name = some k → key name' = some k →
      definitions.find? name = some node → definitions'.find? name' = some node' →
        Alike key node node')
    {origin : Nat} {source : Source} (h : ReadsSource definitions sub origin entries source node)
    (h' : ReadsSource definitions' sub' origin entries source other) : Alike key node other := by
  cases h with
  | typed rule record =>
    cases h' with
    | typed _ record' => exact record.alike hs record'
    | composed rule' _ _ => cases rule.symm.trans rule'
  | composed rule _ composition =>
    cases h' with
    | typed rule' _ => cases rule.symm.trans rule'
    | composed rule' _ composition' =>
      cases rule.symm.trans rule'
      exact composition.alike hs hd composition'

/-! ### Schemas -/

theorem alike_enumeration (listed : Value) : Alike key (enumeration listed) (enumeration listed) := by
  unfold enumeration
  split
  · split
    · exact .unknown
    · exact .enum
  · exact .unknown

/-- Two readings of a schema are alike if what the same reference is defined as is. -/
theorem Reads.alike {points points' : String → String → Prop}
    (hp : ∀ name ref, points name ref → key name = some ref)
    (hp' : ∀ name ref, points' name ref → key name = some ref)
    (hd : ∀ name name' k node node', key name = some k → key name' = some k →
      definitions.find? name = some node → definitions'.find? name' = some node' →
        Alike key node node')
    {depth depth' : Nat} {schema : Value} (h : Reads points definitions depth schema node)
    (h' : Reads points' definitions' depth' schema other) : Alike key node other := by
  induction depth generalizing depth' schema node other with
  | zero => cases h
  | succ depth ih =>
    cases depth' with
    | zero => cases h'
    | succ depth' =>
      cases schema with
      | mapping origin entries =>
        obtain ⟨plain, he, hn⟩ := h
        obtain ⟨plain', he', ho⟩ := h'
        have hs : ∀ v node other, Reads points definitions depth v node →
            Reads points' definitions' depth' v other → Alike key node other :=
          fun _ _ _ hr hr' => ih hr hr'
        have hplain : Alike key plain plain' := by
          unfold ReadsEntries at he he'
          cases hr : ruleOf entries with
          | reference ref =>
            simp only [hr] at he he'
            obtain ⟨r, name, rfl, hname, rfl⟩ := he
            obtain ⟨_, name', ⟨⟩, hname', rfl⟩ := he'
            exact .handle (hp _ _ hname) (hp' _ _ hname')
          | composition members =>
            simp only [hr] at he he'
            obtain ⟨listed, rfl, hc⟩ := he
            obtain ⟨_, ⟨⟩, hc'⟩ := he'
            exact hc.alike hs hd hc'
          | alternatives members =>
            simp only [hr] at he he'
            exact he.alike hs he'
          | values listed =>
            simp only [hr] at he he'
            rw [he, he']
            exact alike_enumeration listed
          | typed type =>
            simp only [hr] at he he'
            exact ReadsTypes.alike hs he he'
        split at hn
        · next hnull =>
          rw [if_pos hnull] at ho
          exact .orNull hplain hn ho
        · next hnull =>
          rw [if_neg hnull] at ho
          rw [hn, ho]
          exact hplain
      | _ =>
        rw [show node = .unknown from h, show other = .unknown from h']
        exact .unknown

end Canon

namespace Naming

open Canon

variable {ν : Type} {namer : Namer ν} {N : Naming namer} {document : Value} {p : Progress ν}
  {node other : Shape}

/-- All readings of a schema are alike, whatever definitions they were made by means of. -/
theorem Walked.alike (hw : N.Walked document p) {definitions definitions' : Definitions}
    (hd : definitions <+: p.definitions) (hd' : definitions' <+: p.definitions)
    {depth depth' : Nat} {schema : Value} (h : Reads (N.Points p) definitions depth schema node)
    (h' : Reads (N.Points p) definitions' depth' schema other) :
    node.Alike (N.stands p.names) other := by
  -- a definition was read by means of the ones before it, so there are fewer each time
  induction hn : definitions.length using Nat.strongRecOn generalizing definitions definitions'
      depth depth' schema node other with
  | ind n ih =>
    refine Reads.alike (fun _ _ hp => hp.1) (fun _ _ hp => hp.1)
      (fun name name' ref found found' hname hname' hf hf' => ?_) h h'
    obtain ⟨earlier, later, rfl⟩ := Definitions.exists_split hf
    obtain ⟨earlier', later', rfl⟩ := Definitions.exists_split hf'
    obtain ⟨more, hmore⟩ := hd
    obtain ⟨more', hmore'⟩ := hd'
    obtain ⟨r, target, k, hs, ht, hread⟩ := hw.read earlier name found (later ++ more)
      (by rw [← hmore]; simp)
    obtain ⟨r', target', k', hs', ht', hread'⟩ := hw.read earlier' name' found' (later' ++ more')
      (by rw [← hmore']; simp)
    cases hname.symm.trans hs
    cases hname'.symm.trans hs'
    cases ht.symm.trans ht'
    refine ih earlier.length ?_ ?_ ?_ hread hread' rfl
    · rw [← hn, List.length_append, List.length_cons]
      omega
    · exact ⟨(name, found) :: later ++ more, by rw [← hmore]; simp⟩
    · exact ⟨(name', found') :: later' ++ more', by rw [← hmore']; simp⟩

/-- What the same reference is defined as, under whatever names, is alike. -/
theorem Walked.alike_definition (hw : N.Walked document p) {name name' ref : String}
    (hname : N.stands p.names name = some ref) (hname' : N.stands p.names name' = some ref)
    (hn : p.definitions.find? name = some node) (ho : p.definitions.find? name' = some other) :
    node.Alike (N.stands p.names) other := by
  obtain ⟨earlier, later, found, depth, hsplit, ht, hr⟩ := hw.reads_definition hname hn
  obtain ⟨earlier', later', found', depth', hsplit', ht', hr'⟩ := hw.reads_definition hname' ho
  cases ht.symm.trans ht'
  exact hw.alike (hsplit ▸ List.prefix_append _ _) (hsplit' ▸ List.prefix_append _ _) hr hr'

/-- The records of one identity that are read from a mapping are alike. -/
theorem Walked.alike_source (hw : N.Walked document p) {depth depth' origin : Nat}
    {entries : Entries} {source : Source}
    (h : ReadsSource p.definitions (Reads (N.Points p) p.definitions depth) origin entries source node)
    (h' : ReadsSource p.definitions (Reads (N.Points p) p.definitions depth') origin entries source
      other) : node.Alike (N.stands p.names) other := by
  have hs : ∀ v node other, Reads (N.Points p) p.definitions depth v node →
      Reads (N.Points p) p.definitions depth' v other → node.Alike (N.stands p.names) other :=
    fun _ _ _ hr hr' => hw.alike (List.prefix_refl _) (List.prefix_refl _) hr hr'
  exact h.alike hs (fun _ _ _ _ _ => hw.alike_definition) h'

end Naming

end RouteStubs
