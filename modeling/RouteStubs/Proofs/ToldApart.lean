import RouteStubs.Proofs.Schema.Steady

/-!
# Recorded discriminators tell variants apart

A discriminator is recorded when the variants of a union lead to records that it tells apart. What a
variant leads to stays when definitions are added, and nothing else happens to them, whether walks fail
or not. So a discriminator that was recorded once tells the variants apart for ever. Null may be added
to the variants later; it is no record and is told from them by itself.

## Main definitions

* `Definitions.Tagged`: a shape leads to a record in which a field always has the same value.
* `Definitions.TellsApart`: a field tells the variants of a union apart, null aside.
* `Naming.Call`: a walk through a schema, or another look for the discriminator of a union.

## Main statements

* `Shape.lasting_discriminated`: the rules record only discriminators that tell variants apart.
* `Naming.discriminators_tell_apart`: so do all discriminators after any calls, and after all later
  ones.
-/

namespace RouteStubs

open Shape

variable {definitions definitions' : Definitions} {name : String} {variants : List Shape}
  {node v : Shape} {tag : Scalar}

/-! ### Telling variants apart -/

namespace Definitions

/-- The shape leads to a record that has a field of this name, which leads to an enumeration of one
value. -/
def Tagged (definitions : Definitions) (name : String) (node : Shape) (tag : Scalar) : Prop :=
  ∃ fields trailer description source f,
    definitions.dereference node = some (.record fields trailer description source) ∧
    Shape.field? fields name = some f ∧ definitions.dereference f.node = some (.enum [tag])

/-- Each variant, null aside, leads to a record with a field of this name that always has the same
value, and no two of these values are the same. -/
def TellsApart (definitions : Definitions) (name : String) (variants : List Shape) : Prop :=
  ∃ tags, List.Forall₂ (definitions.Tagged name) (variants.filter (!·.isNull)) tags ∧
    tags.Pairwise fun a b => a.sameKind b = false

theorem Tagged.mono (hd : definitions <+: definitions') (h : definitions.Tagged name node tag) :
    definitions'.Tagged name node tag := by
  obtain ⟨fields, trailer, description, source, f, hrecord, hf, hvalue⟩ := h
  exact ⟨fields, trailer, description, source, f, dereference_mono hd hrecord, hf,
    dereference_mono hd hvalue⟩

theorem TellsApart.mono (hd : definitions <+: definitions')
    (h : definitions.TellsApart name variants) : definitions'.TellsApart name variants := by
  obtain ⟨tags, htags, hdistinct⟩ := h
  exact ⟨tags, htags.imp fun _ _ => Tagged.mono hd, hdistinct⟩

/-- Null is none of the variants that have to be told apart. -/
theorem TellsApart.orNull (h : definitions.TellsApart name variants) :
    definitions.TellsApart name (variants ++ [nullShape]) := by
  have hnull : [nullShape].filter (!·.isNull) = [] := by simp [isNull, same, Value.same, Scalar.same]
  unfold TellsApart
  rwa [List.filter_append, hnull, List.append_nil]

theorem Tagged.isNull_eq_false (h : definitions.Tagged name node tag) : node.isNull = false := by
  obtain ⟨fields, trailer, description, source, f, hrecord, -⟩ := h
  by_contra hnull
  rw [Bool.not_eq_false] at hnull
  obtain ⟨format, rfl⟩ := exists_of_isNull hnull
  -- a primitive leads to itself
  rw [dereference_eq_self (by simp)] at hrecord
  cases hrecord

theorem tagged_of_tag? {fields : List (Field Shape)} (hfields : definitions.fields? node = some fields)
    (htag : definitions.tag? name fields = some tag) : definitions.Tagged name node tag := by
  obtain ⟨trailer, description, source, hrecord⟩ := fields?_eq_some hfields
  obtain ⟨f, hf, hvalue⟩ := Option.bind_eq_some_iff.mp htag
  refine ⟨fields, trailer, description, source, f, hrecord, hf, ?_⟩
  unfold singleValue? at hvalue
  split at hvalue
  · next value hvalues =>
    cases hvalue
    exact hvalues
  · cases hvalue

theorem pairwise_of_allDistinct {tags : List Scalar} (h : allDistinct tags = true) :
    tags.Pairwise fun a b => a.sameKind b = false := by
  induction tags with
  | nil => exact .nil
  | cons first rest ih =>
    rw [allDistinct, Bool.and_eq_true, Bool.not_eq_true', List.any_eq_false] at h
    obtain ⟨hfirst, hrest⟩ := h
    refine .cons (fun a ha => ?_) (ih hrest)
    simpa using hfirst a ha

theorem tagged_of_mapM {records : List (List (Field Shape))} {tags : List Scalar}
    (hrecords : variants.mapM definitions.fields? = some records)
    (htags : records.mapM (definitions.tag? name) = some tags) :
    List.Forall₂ (definitions.Tagged name) variants tags := by
  induction variants generalizing records tags with
  | nil =>
    cases hrecords
    cases htags
    exact .nil
  | cons v rest ih =>
    obtain ⟨fields, others, hfields, hothers, rfl⟩ := mapM_cons_eq_some hrecords
    obtain ⟨tag, more, htag, hmore, rfl⟩ := mapM_cons_eq_some htags
    exact .cons (tagged_of_tag? hfields htag) (ih hothers hmore)

/-- A field that tells apart the records to which variants lead tells the variants apart. -/
theorem tellsApart_of_tells {records : List (List (Field Shape))}
    (hrecords : variants.mapM definitions.fields? = some records)
    (h : definitions.tells name records = true) : definitions.TellsApart name variants := by
  unfold tells at h
  split at h
  · next tags htags =>
    have htagged := tagged_of_mapM hrecords htags
    -- nothing is null, so nothing is left aside
    have hall : variants.filter (!·.isNull) = variants := by
      rw [List.filter_eq_self]
      intro v hv
      obtain ⟨tag, -, htag⟩ := exists_mem_of_forall₂ htagged hv
      rw [htag.isNull_eq_false, Bool.not_false]
    exact ⟨tags, hall.symm ▸ htagged, pairwise_of_allDistinct h⟩
  · cases h

/-- What is found as a discriminator tells the variants apart. -/
theorem tellsApart_of_discriminator? {explicit : Value}
    (h : discriminator? definitions variants explicit = some name) :
    definitions.TellsApart name variants := by
  unfold discriminator? at h
  split at h
  · cases h
  · cases h
  · next first others hrecords =>
    have htells : definitions.tells name (first :: others) = true := by simpa using List.find?_some h
    exact tellsApart_of_tells hrecords htells

end Definitions

/-! ### Walks and settling -/

namespace Shape

/-- The discriminator of a union, if one is recorded, tells its variants apart. -/
def Discriminated (definitions : Definitions) (node : Shape) : Prop :=
  ∀ variants name, node = .union variants (some name) → definitions.TellsApart name variants

theorem lasting_discriminated : Lasting Discriminated where
  mono hd h := fun variants name heq => (h variants name heq).mono hd
  plain h := fun variants name heq => absurd heq (h variants (some name))
  found definitions variants explicit := by
    intro variants' name heq
    injection heq with hvariants hname
    subst hvariants
    exact Definitions.tellsApart_of_discriminator? hname
  untold definitions variants := by
    intro variants' name heq
    injection heq with _ hname
    cases hname
  orNull h := by
    intro variants' name heq
    injection heq with hvariants hname
    subst hvariants hname
    exact (h _ name rfl).orNull

end Shape

namespace Naming

variable {ν : Type} {namer : Namer ν} {N : Naming namer} {document : Value}

/-- A shape occurs in a state of a run with results: in one of the results or of the definitions, at
any depth. -/
def Occurs (s : Progress ν × List Shape) (node : Shape) : Prop :=
  ∃ root, (root ∈ s.2 ∨ ∃ name, s.1.definitions.find? name = some root) ∧
    Relation.ReflTransGen Child node root

variable (N) in
/-- One call in a run with results, of which the last is the latest: a schema is walked through, with
a result or a fault, or the discriminator of a union that occurs is looked for again. Names may be
given for other reasons. -/
inductive Call : Progress ν × List Shape → Progress ν × List Shape → Prop
  | named {p : Progress ν} {names : ν} {results : List Shape} (later : N.Later p.names names) :
      Call (p, results) ({ p with names := names }, results)
  | normalized {p p' : Progress ν} {results : List Shape} {context : String} {schema : Value}
      {node : Shape} (h : (Canon.shapeOf namer context schema).runFrom p = (.ok node, p')) :
      Call (p, results) (p', results ++ [node])
  | refused {p p' : Progress ν} {results : List Shape} {context : String} {schema : Value}
      {fault : Fault}
      (h : (Canon.shapeOf namer context schema).runFrom p = (.error fault, p')) :
      Call (p, results) (p', results)
  | settled {p : Progress ν} {results : List Shape} {variants : List Shape}
      {discriminator found : Option String}
      (occurs : Occurs (p, results) (.union variants discriminator))
      (h : Canon.settled variants discriminator p = .ok found) :
      Call (p, results) (p, results ++ [.union variants found])

/-- All discriminators that occur tell variants apart. -/
structure Told (N : Naming namer) (s : Progress ν × List Shape) : Prop where
  steady : N.Steady Discriminated s.1
  results : ∀ node ∈ s.2, node.Throughout (Discriminated s.1.definitions)

variable {s s' : Progress ν × List Shape} {variants : List Shape} {name : String}

theorem Told.of_occurs (h : N.Told s) {node : Shape} (ho : Occurs s node) :
    node.Throughout (Discriminated s.1.definitions) := by
  obtain ⟨root, hroot, hinside⟩ := ho
  have hthroughout : root.Throughout (Discriminated s.1.definitions) := by
    rcases hroot with hmem | ⟨name, hdefined⟩
    · exact h.results root hmem
    · exact h.steady.defined name root hdefined
  exact fun inner hinner => hthroughout inner (hinner.trans hinside)

/-- What is found when a union is settled tells its variants apart. -/
theorem discriminated_of_settled {p : Progress ν} {discriminator found : Option String}
    (h : Discriminated p.definitions (.union variants discriminator))
    (hs : Canon.settled variants discriminator p = .ok found) :
    Discriminated p.definitions (.union variants found) := by
  unfold Canon.settled at hs
  split at hs
  · cases hs
    exact h
  · split at hs
    · cases hs
    · split at hs
      · cases hs
        exact lasting_discriminated.found _ _ _
      · cases hs
        exact h

/-- After more definitions the results tell as much apart as before. -/
theorem Told.onward (h : N.Told s) {p' : Progress ν} (ho : N.Onward Discriminated s.1 p') :
    N.Told (p', s.2) where
  steady := ho.steady
  results := fun node hn =>
    lasting_discriminated.throughout_mono ho.definitions (h.results node hn)

theorem Told.add {p : Progress ν} {results : List Shape} (h : N.Told (p, results)) {node : Shape}
    (hn : node.Throughout (Discriminated p.definitions)) : N.Told (p, results ++ [node]) where
  steady := h.steady
  results := by
    intro other ho
    rcases List.mem_append.mp ho with ho | ho
    · exact h.results other ho
    · exact List.mem_singleton.mp ho ▸ hn

/-- A call leaves it so, and leaves the definitions that there are. -/
theorem Told.call (h : N.Told s) (hc : N.Call s s') :
    N.Told s' ∧ s.1.definitions <+: s'.1.definitions := by
  cases hc with
  | @named p names results later =>
    have honward : N.Onward Discriminated p { p with names := names } :=
      h.steady.onward ⟨later, rfl, rfl, List.prefix_refl _⟩ rfl
    exact ⟨h.onward honward, List.prefix_refl _⟩
  | normalized hrun =>
    obtain ⟨honward, hnode⟩ :=
      (shapeOf_advances lasting_discriminated _ _ _ h.steady).of_ok hrun
    exact ⟨(h.onward honward).add hnode, honward.definitions⟩
  | refused hrun =>
    have honward := (shapeOf_advances lasting_discriminated _ _ _ h.steady).of_error hrun
    exact ⟨h.onward honward, honward.definitions⟩
  | settled occurs hsettled =>
    have hunion := h.of_occurs occurs
    have hfound := discriminated_of_settled hunion.self hsettled
    exact ⟨h.add (throughout_union hfound (below_union.mp hunion.below)), List.prefix_refl _⟩

theorem told_start {names : ν} (valid : N.Valid names) :
    N.Told (Progress.start names document, []) where
  steady := ⟨valid, nofun, nofun⟩
  results := nofun

theorem Told.calls (h : N.Told s) (hc : Relation.ReflTransGen N.Call s s') :
    N.Told s' ∧ s.1.definitions <+: s'.1.definitions := by
  induction hc with
  | refl => exact ⟨h, List.prefix_refl _⟩
  | tail _ hcall ih =>
    obtain ⟨htold, hdefinitions⟩ := ih
    obtain ⟨htold', hdefinitions'⟩ := htold.call hcall
    exact ⟨htold', hdefinitions.trans hdefinitions'⟩

/-- Whatever calls have been made, each discriminator that occurs tells the variants of its union
apart, by the definitions of that time and by those after any later calls. -/
theorem discriminators_tell_apart {names : ν} (valid : N.Valid names)
    (h : Relation.ReflTransGen N.Call (Progress.start names document, []) s)
    (ho : Occurs s (.union variants (some name)))
    (h' : Relation.ReflTransGen N.Call s s') : s'.1.definitions.TellsApart name variants := by
  obtain ⟨htold, -⟩ := (told_start valid).calls h
  obtain ⟨-, hdefinitions⟩ := htold.calls h'
  exact ((htold.of_occurs ho).self variants name rfl).mono hdefinitions

/-! ### Cats and dogs -/

/-- Records of one kind. -/
def ofKind (origin : Nat) (kind : String) : Value :=
  .mapping origin [(.text "type", .text "object"), (.text "properties", .mapping (origin + 1)
    [(.text "kind", .mapping (origin + 2) [(.text "const", .text kind)])])]

/-- A document with records of two kinds. -/
def kindsDocument : Value := .mapping 1 [(.text "Cat", ofKind 2 "cat"), (.text "Dog", ofKind 5 "dog")]

/-- A reference into the document. -/
def referring (origin : Nat) (ref : String) : Value := .mapping origin [(.text "$ref", .text ref)]

/-- A record of one of the two kinds, or null. -/
def eitherKind : Value :=
  .mapping 8 [(.text "nullable", .scalar (.bool true)),
    (.text "oneOf", .list [referring 9 "#/Cat", referring 10 "#/Dog"])]

/-- The kinds tell cats and dogs apart, also after a reference was met that leads nowhere. -/
theorem kinds_tell_apart : ∃ variants p fault p',
    (Canon.shapeOf (fun ref => pure ref) "<inline>" eitherKind).runFrom
      (Progress.start () kindsDocument) = (.ok (.union variants (some "kind")), p) ∧
    (Canon.shapeOf (fun ref => pure ref) "<inline>" (referring 11 "#/Bird")).runFrom p =
      (.error fault, p') ∧
    p'.definitions.TellsApart "kind" variants := by
  have hfirst : ((Canon.shapeOf (fun ref => pure ref) "<inline>" eitherKind).runFrom
      (Progress.start () kindsDocument)).1 =
        .ok (.union [.handle "#/Cat", .handle "#/Dog", nullShape] (some "kind")) := by
    with_unfolding_all rfl
  have hsecond : ((Canon.shapeOf (fun ref => pure ref) "<inline>" (referring 11 "#/Bird")).runFrom
      ((Canon.shapeOf (fun ref => pure ref) "<inline>" eitherKind).runFrom
        (Progress.start () kindsDocument)).2).1.isOk = false := by
    decide +kernel
  cases hrun : (Canon.shapeOf (fun ref => pure ref) "<inline>" eitherKind).runFrom
      (Progress.start () kindsDocument) with
  | mk first p =>
    rw [hrun] at hfirst hsecond
    obtain rfl : first = _ := hfirst
    cases hrefused : (Canon.shapeOf (fun ref => pure ref) "<inline>"
        (referring 11 "#/Bird")).runFrom p with
    | mk outcome p' =>
      cases outcome with
      | ok node =>
        rw [hrefused] at hsecond
        cases hsecond
      | error fault =>
        refine ⟨_, p, fault, p', rfl, hrefused, ?_⟩
        have hcall : (Naming.ofInjective (f := fun ref => ref) Function.injective_id).Call
            (Progress.start () kindsDocument, []) (p, [] ++ [.union _ (some "kind")]) :=
          .normalized hrun
        exact discriminators_tell_apart trivial (.single hcall)
          ⟨_, .inl List.mem_cons_self, .refl⟩ (.single (.refused hrefused))

end Naming

end RouteStubs
