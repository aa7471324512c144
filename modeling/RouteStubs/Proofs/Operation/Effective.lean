import Mathlib.Data.List.Induction
import Mathlib.Data.List.Nodup
import RouteStubs.Operation.Collect
import RouteStubs.Proofs.Distinct
import RouteStubs.Proofs.Resolver.Followed

/-!
# The parameters that an operation has in the end

The parameters of a path and those of an operation on it are put into one list. A parameter that has
the name and the location of an earlier one takes its place, so each name and location occurs once,
where it occurred first and with what was said last. What an operation says of a parameter therefore
wins over what its path says.

## Main definitions

* `Collect.Stands`: what an entry of a list of parameters stands for.
* `Collect.described?`: the parameter that a value describes.
* `Collect.Overrides`: what is left of parameters of which later ones replace earlier ones.
* `Collect.Gives`: what a parameter comes to.

## Main statements

* `Collect.Overrides.put`: one more parameter.
* `Collect.mergeParameters_ends`: all parameters of a list.
* `Collect.effectiveParameters_overrides`: the parameters of a path and of an operation.
-/

namespace RouteStubs

/-! ### First occurrences -/

section

variable {α : Type} [BEq α] [LawfulBEq α]

theorem eraseDups_concat (l : List α) (a : α) :
    (l ++ [a]).eraseDups = if a ∈ l then l.eraseDups else l.eraseDups ++ [a] := by
  rw [List.eraseDups_append]
  by_cases h : a ∈ l <;> simp [List.removeAll, h, List.eraseDups_cons]

theorem nodup_eraseDups (l : List α) : l.eraseDups.Nodup := by
  induction l using List.reverseRecOn with
  | nil => exact List.nodup_nil
  | append_singleton l a ih =>
    rw [eraseDups_concat]
    split
    · exact ih
    · next hnew =>
      rw [← List.concat_eq_append, List.nodup_concat, List.mem_eraseDups]
      exact ⟨hnew, ih⟩

end

namespace Collect

open Resolver

variable {document raw v : Value} {entries : Entries} {p q : RawParameter}
  {merged occurrences : List RawParameter}

/-! ### What parameters are told apart by -/

/-- What a parameter is told apart by. -/
def RawParameter.key (p : RawParameter) : String × Scalar := (p.name, p.location)

/-- The location is a text. -/
def RawParameter.Located (p : RawParameter) : Prop := ∃ s, p.location = .text s

theorem replaces_iff (hq : q.Located) (hp : p.Located) :
    (q.name == p.name && q.location.same p.location) = true ↔ q.key = p.key := by
  obtain ⟨s, hs⟩ := hq
  obtain ⟨t, ht⟩ := hp
  simp [RawParameter.key, Scalar.same, hs, ht]

theorem keys_putParameter (hm : ∀ q ∈ merged, q.Located) (hp : p.Located) :
    (putParameter merged p).map RawParameter.key =
      if p.key ∈ merged.map RawParameter.key then merged.map RawParameter.key
      else merged.map RawParameter.key ++ [p.key] := by
  induction merged with
  | nil => rfl
  | cons q rest ih =>
    obtain ⟨hq, hrest⟩ := List.forall_mem_cons.mp hm
    rw [putParameter]
    by_cases hk : q.key = p.key
    · rw [if_pos ((replaces_iff hq hp).mpr hk), List.map_cons, List.map_cons, hk,
        if_pos List.mem_cons_self]
    · have hk' : p.key ≠ q.key := Ne.symm hk
      rw [if_neg fun h => hk ((replaces_iff hq hp).mp h), List.map_cons, List.map_cons, ih hrest]
      simp only [List.mem_cons, hk', false_or]
      split <;> rfl

/-- What was there stays, except for what is replaced. -/
theorem mem_putParameter (hm : ∀ q ∈ merged, q.Located) (hp : p.Located)
    (hn : (merged.map RawParameter.key).Nodup) (h : q ∈ putParameter merged p) :
    q = p ∨ q ∈ merged ∧ q.key ≠ p.key := by
  induction merged with
  | nil => exact .inl (List.mem_singleton.mp h)
  | cons first rest ih =>
    obtain ⟨hfirst, hrest⟩ := List.forall_mem_cons.mp hm
    rw [List.map_cons, List.nodup_cons] at hn
    obtain ⟨hnew, hn⟩ := hn
    rw [putParameter] at h
    by_cases hk : first.key = p.key
    · rw [if_pos ((replaces_iff hfirst hp).mpr hk)] at h
      refine (List.mem_cons.mp h).imp_right fun hq => ⟨List.mem_cons_of_mem _ hq, fun hqk => ?_⟩
      -- the one that is replaced was the only one with its key
      rw [hk, ← hqk] at hnew
      exact hnew (List.mem_map_of_mem hq)
    · rw [if_neg fun h => hk ((replaces_iff hfirst hp).mp h)] at h
      rcases List.mem_cons.mp h with rfl | h
      · exact .inr ⟨List.mem_cons_self, hk⟩
      · exact (ih hrest hn h).imp_right fun ⟨hq, hqk⟩ => ⟨List.mem_cons_of_mem _ hq, hqk⟩

/-! ### Replacing -/

/-- What is left of parameters of which later ones replace earlier ones: each name and location
once, in the order in which they occurred first, and for each of them what occurred last. -/
structure Overrides (occurrences merged : List RawParameter) : Prop where
  keys_eq : merged.map RawParameter.key = (occurrences.map RawParameter.key).eraseDups
  nodup : (merged.map RawParameter.key).Nodup
  last : ∀ p ∈ merged, ∃ before after, occurrences = before ++ p :: after ∧
    ∀ q ∈ after, q.key ≠ p.key

theorem Overrides.nil : Overrides [] [] :=
  ⟨rfl, List.nodup_nil, List.forall_mem_nil _⟩

theorem Overrides.mem (h : Overrides occurrences merged) (hp : p ∈ merged) : p ∈ occurrences := by
  obtain ⟨before, after, rfl, -⟩ := h.last p hp
  exact List.mem_append_right _ List.mem_cons_self

/-- One more parameter is put among the others. -/
theorem Overrides.put (h : Overrides occurrences merged) (hl : ∀ q ∈ occurrences, q.Located)
    (hp : p.Located) : Overrides (occurrences ++ [p]) (putParameter merged p) := by
  have hm : ∀ q ∈ merged, q.Located := fun q hq => hl q (h.mem hq)
  have hkeys : (putParameter merged p).map RawParameter.key =
      ((occurrences ++ [p]).map RawParameter.key).eraseDups := by
    rw [keys_putParameter hm hp, List.map_append, List.map_singleton, eraseDups_concat, h.keys_eq]
    simp only [List.mem_eraseDups]
  refine ⟨hkeys, hkeys ▸ nodup_eraseDups _, fun q hq => ?_⟩
  rcases mem_putParameter hm hp h.nodup hq with rfl | ⟨hq, hne⟩
  · exact ⟨occurrences, [], rfl, List.forall_mem_nil _⟩
  · obtain ⟨before, after, rfl, hafter⟩ := h.last q hq
    refine ⟨before, after ++ [p], by simp, fun r hr => ?_⟩
    rcases List.mem_append.mp hr with hr | hr
    · exact hafter r hr
    · rw [List.mem_singleton.mp hr]
      exact hne.symm

/-- What occurs in the later part wins over what occurs in the earlier one. -/
theorem Overrides.wins {front back : List RawParameter} (h : Overrides (front ++ back) merged)
    (hp : p ∈ merged) (hq : q ∈ back) (hk : q.key = p.key) : p ∈ back := by
  obtain ⟨before, after, hsplit, hafter⟩ := h.last p hp
  rcases List.append_eq_append_iff.mp hsplit with ⟨more, rfl, hback⟩ | ⟨more, rfl, hmore⟩
  · rw [hback]
    exact List.mem_append_right _ List.mem_cons_self
  · -- otherwise the last occurrence would stand before one with the same key
    cases more with
    | nil =>
      rw [List.nil_append] at hmore
      rw [← hmore]
      exact List.mem_cons_self
    | cons first more =>
      obtain ⟨rfl, rfl⟩ := List.cons.inj hmore
      exact absurd hk (hafter q (List.mem_append_right _ hq))

/-! ### What values describe -/

/-- What an entry of a list of parameters stands for: itself, or what its references lead to in the
end. -/
def Stands (document raw v : Value) : Prop := Comes document raw v ∧ v.member? "$ref" = none

/-- The parameter that a value describes: it has a name, and its location is `query` if the value
says nothing. -/
def described? : Value → Option RawParameter
  | .mapping _ entries =>
    match Entries.text? entries "name", Entries.text? entries "in" with
    | some name, none => some ⟨name.display, .text "query", entries⟩
    | some name, some (.scalar (.text location)) => some ⟨name.display, .text location, entries⟩
    | _, _ => none
  | _ => none

/-- If the value says what its location is, then by a text. -/
def SaysWhere (v : Value) : Prop :=
  ∀ location, v.member? "in" = some location → ∃ s, location = .text s

theorem located_of_described? (h : described? v = some p) : p.Located := by
  unfold described? at h
  split at h
  · split at h
    · cases h
      exact ⟨_, rfl⟩
    · cases h
      exact ⟨_, rfl⟩
    · cases h
  · cases h

theorem rawParameter?_eq {origin : Nat} (h : SaysWhere (.mapping origin entries)) :
    rawParameter? entries = .ok (described? (.mapping origin entries)) := by
  simp only [rawParameter?, described?]
  cases entries.text? "name" with
  | none => rfl
  | some name =>
    cases hin : entries.text? "in" with
    | none => rfl
    | some location =>
      obtain ⟨s, rfl⟩ := h location hin
      rfl

/-! ### The lists of a path and of an operation -/

variable {d : Draft} {raws values : List Value}

/-- An entry that stands for a value is followed to it. -/
theorem resolveNode_stands (hr : d.progress.resolver.Recalls document) (h : Stands document raw v) :
    (Draft.onResolver (resolveNode raw)).Ends d
      (fun found d' => found = v ∧ d'.progress.resolver.Recalls document) fun _ _ => False := by
  simp only [Draft.onResolver, Draft.onProgress, Progress.onResolver, Step.ends_within]
  have hok := ((resolveNode_settles hr raw).ok_iff v).mpr h
  refine ((Step.ends_self _ _).and (resolveNode_ends hr raw)).imp ?_ ?_
  · rintro found r ⟨hrun, hr', -⟩
    rw [hrun] at hok
    exact ⟨Except.ok.inj hok, hr'⟩
  · rintro fault r ⟨hrun, -⟩
    rw [hrun] at hok
    cases hok

/-- The parameters that values describe are put among others one after the other. -/
theorem mergeParameters_ends (hr : d.progress.resolver.Recalls document)
    (hv : List.Forall₂ (Stands document) raws values) (hl : ∀ v ∈ values, SaysWhere v)
    (ho : ∀ q ∈ occurrences, q.Located) (h : Overrides occurrences merged) :
    (mergeParameters merged raws).Ends d
      (fun found _ => Overrides (occurrences ++ values.filterMap described?) found)
      fun _ _ => False := by
  induction hv generalizing d occurrences merged with
  | nil =>
    rw [List.filterMap_nil, List.append_nil]
    exact h
  | @cons raw v raws values hraw _ ih =>
    obtain ⟨hwhere, hrest⟩ := List.forall_mem_cons.mp hl
    rw [mergeParameters, Step.ends_bind]
    apply (resolveNode_stands hr hraw).imp_ok
    rintro v d' ⟨rfl, hr'⟩
    cases v with
    | mapping origin entries =>
      simp only [rawParameter?_eq hwhere, Step.ends_bind, Step.ends_ofExcept]
      refine ⟨?_, fun _ h => by cases h⟩
      rintro _ ⟨⟩
      cases hdescribed : described? (.mapping origin entries) with
      | none =>
        rw [List.filterMap_cons_none hdescribed]
        exact ih hr' hrest ho h
      | some p =>
        have hp := located_of_described? hdescribed
        rw [List.filterMap_cons_some hdescribed, List.append_cons]
        refine ih hr' hrest (fun q hq => ?_) (h.put ho hp)
        rcases List.mem_append.mp hq with hq | hq
        · exact ho q hq
        · rwa [List.mem_singleton.mp hq]
    | _ => exact ih hr' hrest ho h

/-! ### What parameters come to -/

/-- What a parameter comes to: it keeps its name and its location, every request has it if it stands
in the path or says so, and its values and its description are those of its own entries. -/
structure Gives (typeName key : String) (p : RawParameter) (q : Parameter) : Prop where
  name_eq : q.name = p.name
  location_eq : q.location = p.location
  required_iff : q.required = true ↔ p.location = .text "path" ∨ isGiven p.entries "required" = true
  node : ∃ word d d', Name.typeStyle p.name "Param" = .ok word ∧
    (Draft.addInline (parameterSchema p.entries) (typeName ++ word)
      (key ++ "/parameters/" ++ p.location.display ++ "/" ++ p.name)).runFrom d = (.ok q.node, d')
  description : Prose.ofMember p.entries "description" = .ok q.description

theorem addParameters_ends (typeName key : String) (merged : List RawParameter) (d : Draft) :
    (addParameters typeName key merged).Ends d
      (fun found _ => List.Forall₂ (Gives typeName key) merged found) fun _ _ => True := by
  induction merged generalizing d with
  | nil => exact .nil
  | cons p rest ih =>
    simp only [addParameters, Step.ends_bind, Step.ends_ofExcept, implies_true, and_true]
    intro word hword
    apply (Step.ends_self _ d).forget
    intro node d₁ hnode description hdescription
    apply (ih d₁).imp_ok
    intro others d₂ hothers
    refine .cons ⟨rfl, rfl, ?_, ⟨word, d, d₁, hword, hnode⟩, hdescription⟩ hothers
    rw [Bool.or_eq_true, beq_iff_eq]

/-- If the entries of the two lists stand for something, the operation has parameters, and these are
what is left of those of its path followed by its own, where later ones replace earlier ones: each
name and location once, in the order of their first occurrence, with what occurred last. So one of
its own wins over one of the path. What each of them comes to has its own values, and every request
has those that stand in the path. -/
theorem effectiveParameters_overrides {pathItem operation : Entries}
    {shared own sharedValues ownValues : List Value}
    (hr : d.progress.resolver.Recalls document)
    (hshared : itemsOrNone ((pathItem.text? "parameters").getD .null) = .ok shared)
    (hown : itemsOrNone ((operation.text? "parameters").getD .null) = .ok own)
    (hs : List.Forall₂ (Stands document) shared sharedValues)
    (ho : List.Forall₂ (Stands document) own ownValues)
    (hl : ∀ v ∈ sharedValues ++ ownValues, SaysWhere v) :
    ∃ merged d', (effectiveParameters pathItem operation).runFrom d = (.ok merged, d') ∧
      Overrides (sharedValues.filterMap described? ++ ownValues.filterMap described?) merged ∧
      (∀ p ∈ merged, ∀ q ∈ ownValues.filterMap described?, q.key = p.key →
        p ∈ ownValues.filterMap described?) ∧
      ∀ typeName key found d'', (addParameters typeName key merged).runFrom d' = (.ok found, d'') →
        List.Forall₂ (Gives typeName key) merged found ∧
        ∀ q ∈ found, q.location = .text "path" → q.required = true := by
  have hends : (effectiveParameters pathItem operation).Ends d
      (fun found _ => Overrides
        (sharedValues.filterMap described? ++ ownValues.filterMap described?) found)
      fun _ _ => False := by
    simp only [effectiveParameters, hshared, hown, Step.ends_bind, Step.ends_ofExcept]
    refine ⟨?_, fun _ h => by cases h⟩
    rintro _ ⟨⟩
    refine ⟨?_, fun _ h => by cases h⟩
    rintro _ ⟨⟩
    rw [← List.filterMap_append]
    exact mergeParameters_ends hr (List.rel_append hs ho) hl (List.forall_mem_nil _) .nil
  obtain ⟨merged, d', hrun, hmerged⟩ := hends.exists_ok
  refine ⟨merged, d', hrun, hmerged, fun p hp q hq hk => hmerged.wins hp hq hk, ?_⟩
  intro typeName key found d'' hfound
  have hgives := (addParameters_ends typeName key merged d').of_ok hfound
  refine ⟨hgives, fun q hq hpath => ?_⟩
  obtain ⟨p, -, hp⟩ := exists_mem_of_forall₂ hgives.flip hq
  exact hp.required_iff.mpr (.inl (hp.location_eq ▸ hpath))

/-- A document with a parameter that paths can refer to. -/
def limitDocument : Value :=
  .mapping 0 [(.text "limit", .mapping 1 [(.text "name", .text "limit")])]

/-- A path that refers to the parameter, has one of its own and an entry without a name. -/
def limitPath : Entries :=
  [(.text "parameters", .list [.mapping 2 [(.text "$ref", .text "#/limit")],
    .mapping 3 [(.text "name", .text "page"), (.text "in", .text "path")],
    .mapping 4 [(.text "in", .text "query")]])]

/-- What an operation on the path says of the parameter. -/
def ownLimit : Entries :=
  [(.text "name", .text "limit"), (.text "in", .text "query"), (.text "required", .bool true)]

/-- The parameter is in the query if nothing is said, and what the operation says of it wins, at the
place where the path has it. -/
theorem effectiveParameters_overrides_limit : ∃ merged d',
    (effectiveParameters limitPath [(.text "parameters", .list [.mapping 5 ownLimit])]).runFrom
      (.start limitDocument []) = (.ok merged, d') ∧
    merged.map RawParameter.key = [("limit", .text "query"), ("page", .text "path")] ∧
    ∀ p ∈ merged, p.key = ("limit", .text "query") → p.entries = ownLimit := by
  have hself : ∀ v : Value, v.member? "$ref" = none → Stands limitDocument v v :=
    fun v hv => ⟨.refl, hv⟩
  have hwhere : ∀ v : Value, v.member? "in" = none ∨ (∃ s, v.member? "in" = some (.text s)) →
      SaysWhere v := by
    rintro v (hnone | ⟨s, hs⟩) location hin
    · rw [hnone] at hin
      cases hin
    · exact ⟨s, Option.some.inj (hin.symm.trans hs)⟩
  have hrecalls : (Draft.start limitDocument []).progress.resolver.Recalls limitDocument :=
    ⟨rfl, fun _ _ h => by cases h⟩
  have hshared : itemsOrNone ((limitPath.text? "parameters").getD .null) = .ok _ := rfl
  have howned : itemsOrNone ((Entries.text? [(.text "parameters", .list [.mapping 5 ownLimit])]
    "parameters").getD .null) = .ok _ := rfl
  obtain ⟨merged, d', hrun, hmerged, hwins, -⟩ :=
    effectiveParameters_overrides hrecalls hshared howned
    (.cons ⟨.single ⟨_, rfl, by rfl⟩, rfl⟩ (.cons (hself _ rfl) (.cons (hself _ rfl) .nil)))
    (.cons (hself _ rfl) .nil) (by
      simp only [List.cons_append, List.nil_append, List.forall_mem_cons]
      exact ⟨hwhere _ (.inl rfl), hwhere _ (.inr ⟨_, rfl⟩), hwhere _ (.inr ⟨_, rfl⟩),
        hwhere _ (.inr ⟨_, rfl⟩), List.forall_mem_nil _⟩)
  -- what the operation describes
  have hown : [.mapping 5 ownLimit].filterMap described? =
      [⟨"limit", .text "query", ownLimit⟩] := rfl
  refine ⟨merged, d', hrun, hmerged.keys_eq.trans (by decide +kernel), fun p hp hk => ?_⟩
  have hmem := hwins p hp ⟨"limit", .text "query", ownLimit⟩ (hown ▸ List.mem_singleton_self _)
    hk.symm
  rw [hown, List.mem_singleton] at hmem
  rw [hmem]

end Collect

end RouteStubs
