import RouteStubs.Proofs.Admits
import RouteStubs.Proofs.Shape.Same

/-!
# What fields are merged into

Fields are merged one after the other. What has been merged so far is described by all the fields it
was merged from: each name stands at its first place, with the shape and the description of its first
field, and it is required if one of its fields is. A further field changes this to the same for one
field more, or it has another shape than the first field of its name, and that is the only way to
fail.

## Main definitions

* `Canon.Unites all merged`: what fields are merged into.
* `Canon.Agrees before fields`: each field has the shape of the first one of its name.
* `Canon.Conflicts before fields name`: a field of this name does not.
* `Canon.Compatible f g`: two fields have the same shape if they have the same name.
* `Canon.demand`: a field that some names may make required.

## Main statements

* `Canon.Unites.add`, `Canon.Unites.mark`: one more field, with a new name or a known one.
* `Canon.agrees_iff_pairwise`: any two fields of one name have the same shape.
* `Canon.mergeFields_cases`: how merging ends.
-/

namespace RouteStubs.Canon

open Definitions (marked marked_name marked_node)

variable {all before fields more merged others : List (Field Shape)} {f g first : Field Shape}
  {name context : String} {names : List Value}

/-! ### Fields by name -/

theorem name_of_field? (h : Shape.field? fields name = some f) : f.name = name := by
  simpa using List.find?_some h

theorem field?_eq_none_iff : Shape.field? fields name = none ↔ name ∉ fields.map (·.name) := by
  simp [Shape.field?]

theorem field?_append (fields more : List (Field Shape)) (name : String) :
    Shape.field? (fields ++ more) name = (Shape.field? fields name).or (Shape.field? more name) :=
  List.find?_append

@[simp] theorem field?_singleton (f : Field Shape) : Shape.field? [f] f.name = some f := by
  simp [Shape.field?]

/-- A name at the end is dropped as a repetition if it is there already. -/
theorem eraseDups_concat (names : List String) (name : String) :
    (names ++ [name]).eraseDups = names.eraseDups ++ if name ∈ names then [] else [name] := by
  rw [List.eraseDups_append]
  by_cases h : name ∈ names <;> simp [List.removeAll, List.eraseDups_cons, h]

/-! ### Marked fields -/

@[simp] theorem marked_description : (marked f g).description = g.description := by
  unfold marked
  split <;> rfl

theorem marked_required_iff : (marked f g).required = true ↔
    g.required = true ∨ f.name = g.name ∧ f.required = true := by
  unfold marked
  split
  · next h => simp [eq_of_beq h]
  · next h =>
    have hne : f.name ≠ g.name := fun he => h (by simp [he])
    simp [hne]

/-! ### What is merged so far -/

/-- The fields are what all the fields are merged into: each name at its first place, with the shape and
the description of its first field, and required if one of its fields is. -/
structure Unites (all merged : List (Field Shape)) : Prop where
  names : merged.map (·.name) = (all.map (·.name)).eraseDups
  first : ∀ g ∈ merged, ∃ f, Shape.field? all g.name = some f ∧ g.node = f.node ∧
    g.description = f.description
  required : ∀ g ∈ merged, g.required = true ↔ ∃ f ∈ all, f.name = g.name ∧ f.required = true

theorem unites_nil : Unites [] [] := ⟨rfl, by simp, by simp⟩

theorem Unites.mem_names_iff (h : Unites all merged) :
    name ∈ merged.map (·.name) ↔ name ∈ all.map (·.name) := by
  rw [h.names, List.mem_eraseDups]

theorem Unites.field?_eq_none_iff (h : Unites all merged) :
    Shape.field? merged name = none ↔ Shape.field? all name = none := by
  rw [Canon.field?_eq_none_iff, Canon.field?_eq_none_iff, h.mem_names_iff]

/-- A name that is there has the shape of its first field. -/
theorem Unites.exists_first (h : Unites all merged) (hg : Shape.field? merged name = some g) :
    ∃ f, Shape.field? all name = some f ∧ g.node = f.node := by
  obtain ⟨f, hf, hnode, -⟩ := h.first g (List.mem_of_find?_eq_some hg)
  rw [name_of_field? hg] at hf
  exact ⟨f, hf, hnode⟩

/-- One more field, with a new name. -/
theorem Unites.add (h : Unites all merged) (hnew : Shape.field? merged f.name = none) :
    Unites (all ++ [f]) (merged ++ [f]) := by
  have hall : Shape.field? all f.name = none := h.field?_eq_none_iff.mp hnew
  have hnames : f.name ∉ all.map (·.name) := Canon.field?_eq_none_iff.mp hall
  have hmerged : f.name ∉ merged.map (·.name) := Canon.field?_eq_none_iff.mp hnew
  refine ⟨?_, ?_, ?_⟩
  · rw [List.map_append, List.map_append, h.names, List.map_singleton, eraseDups_concat,
      if_neg hnames]
  · intro g hg
    rw [field?_append]
    rcases List.mem_append.mp hg with hg | hg
    · obtain ⟨e, he, hsame⟩ := h.first g hg
      exact ⟨e, by rw [he, Option.some_or], hsame⟩
    · obtain rfl := List.mem_singleton.mp hg
      exact ⟨g, by rw [hall, Option.none_or, field?_singleton], rfl, rfl⟩
  · intro g hg
    rcases List.mem_append.mp hg with hg | hg
    · -- the new field has another name than those before it
      have hne : f.name ≠ g.name := fun he => hmerged (he ▸ List.mem_map_of_mem hg)
      rw [h.required g hg]
      simp only [List.mem_append, List.mem_singleton, or_and_right, exists_or, exists_eq_left, hne,
        false_and, or_false]
    · obtain rfl := List.mem_singleton.mp hg
      constructor
      · exact fun hr => ⟨g, by simp, rfl, hr⟩
      · rintro ⟨e, he, hname, hr⟩
        rcases List.mem_append.mp he with he | he
        · exact absurd (hname ▸ List.mem_map_of_mem he) hnames
        · rwa [List.mem_singleton.mp he] at hr

/-- One more field, with a name that is there. -/
theorem Unites.mark (h : Unites all merged) (hold : Shape.field? merged f.name = some g) :
    Unites (all ++ [f]) (merged.map (marked f)) := by
  have hnames : f.name ∈ all.map (·.name) := by
    rw [← h.mem_names_iff, ← name_of_field? hold]
    exact List.mem_map_of_mem (List.mem_of_find?_eq_some hold)
  refine ⟨?_, ?_, ?_⟩
  · rw [List.map_append, List.map_singleton, eraseDups_concat, if_pos hnames, List.append_nil,
      ← h.names, List.map_map]
    exact List.map_congr_left fun g _ => marked_name
  · intro g hg
    obtain ⟨e, he, rfl⟩ := List.mem_map.mp hg
    obtain ⟨first, hfirst, hnode, hdescription⟩ := h.first e he
    refine ⟨first, ?_, by rw [marked_node, hnode], by rw [marked_description, hdescription]⟩
    rw [marked_name, field?_append, hfirst, Option.some_or]
  · intro g hg
    obtain ⟨e, he, rfl⟩ := List.mem_map.mp hg
    rw [marked_required_iff, h.required e he, marked_name]
    simp only [List.mem_append, List.mem_singleton, or_and_right, exists_or, exists_eq_left]

/-! ### How merging ends -/

/-- Each field has the shape of the first field of its name among those before it. -/
def Agrees : (before fields : List (Field Shape)) → Prop
  | _, [] => True
  | before, f :: rest =>
    (∀ first, Shape.field? before f.name = some first → first.node.same f.node = true) ∧
      Agrees (before ++ [f]) rest

/-- A field of the name has another shape than the first field of this name among those before it. -/
def Conflicts (before fields : List (Field Shape)) (name : String) : Prop :=
  ∃ earlier f later first, fields = earlier ++ f :: later ∧ f.name = name ∧
    Shape.field? (before ++ earlier) name = some first ∧ first.node.same f.node = false

theorem agrees_append : Agrees before (fields ++ more) ↔
    Agrees before fields ∧ Agrees (before ++ fields) more := by
  induction fields generalizing before with
  | nil => simp [Agrees]
  | cons f rest ih =>
    rw [List.cons_append, Agrees, Agrees, ih, List.append_assoc, List.singleton_append, and_assoc]

theorem Conflicts.append_left (h : Conflicts before fields name) (more : List (Field Shape)) :
    Conflicts before (fields ++ more) name := by
  obtain ⟨earlier, f, later, first, rfl, hrest⟩ := h
  exact ⟨earlier, f, later ++ more, first, by simp, hrest⟩

theorem Conflicts.append_right (h : Conflicts (before ++ fields) more name) :
    Conflicts before (fields ++ more) name := by
  obtain ⟨earlier, f, later, first, rfl, hname, hfirst, hdiffer⟩ := h
  exact ⟨fields ++ earlier, f, later, first, by simp, hname, by rwa [← List.append_assoc], hdiffer⟩

/-- Two fields of one name have the same shape. -/
def Compatible (f g : Field Shape) : Prop := f.name = g.name → f.node.same g.node = true

theorem agrees_of_pairwise (h : (before ++ fields).Pairwise Compatible) : Agrees before fields := by
  induction fields generalizing before with
  | nil => trivial
  | cons f rest ih =>
    refine ⟨fun first hfirst => ?_, ih (by rwa [List.append_assoc, List.singleton_append])⟩
    exact (List.pairwise_append.mp h).2.2 first (List.mem_of_find?_eq_some hfirst) f
      List.mem_cons_self (name_of_field? hfirst)

/-- The first field of a name has the same shape as the later ones. -/
theorem same_of_field? (hb : before.Pairwise Compatible)
    (hfirst : Shape.field? before g.name = some first) (hg : g ∈ before) :
    g = first ∨ first.node.same g.node = true := by
  obtain ⟨hname, earlier, later, rfl, hearlier⟩ := List.find?_eq_some_iff_append.mp hfirst
  rcases List.mem_append.mp hg with hg | hg
  · have hne := hearlier g hg
    simp at hne
  · refine (List.mem_cons.mp hg).imp_right fun hg => ?_
    have hrest := (List.pairwise_append.mp hb).2.1
    exact List.rel_of_pairwise_cons hrest hg (eq_of_beq hname)

theorem Agrees.pairwise (h : Agrees before fields) (hb : before.Pairwise Compatible)
    (hr : ∀ f ∈ before ++ fields, f.node.Regular) : (before ++ fields).Pairwise Compatible := by
  induction fields generalizing before with
  | nil => rwa [List.append_nil]
  | cons f rest ih =>
    have hnext : (before ++ [f]).Pairwise Compatible := by
      refine List.pairwise_append.mpr ⟨hb, List.pairwise_singleton _ _, fun g hg f' hf' hname => ?_⟩
      obtain rfl := List.mem_singleton.mp hf'
      -- both have the shape of the first field of the name
      cases hfirst : Shape.field? before g.name with
      | none => exact absurd (List.mem_map_of_mem hg) (field?_eq_none_iff.mp hfirst)
      | some first =>
        have hsame := h.1 first (hname ▸ hfirst)
        rcases same_of_field? hb hfirst hg with rfl | hsame'
        · exact hsame
        · exact Shape.same_of_same (hr g (by simp [hg])) (hr f' (by simp)) hsame' hsame
    rw [← List.singleton_append, ← List.append_assoc] at hr ⊢
    exact ih h.2 hnext hr

/-- Each field has the shape of the first one of its name if any two fields of one name have the same
shape. -/
theorem agrees_iff_pairwise (hr : ∀ f ∈ fields, f.node.Regular) :
    Agrees [] fields ↔ fields.Pairwise Compatible := by
  constructor
  · exact fun h => h.pairwise .nil hr
  · exact fun h => agrees_of_pairwise (by rwa [List.nil_append])

/-- A field that does not have the shape of the first one of its name comes after it. -/
theorem Conflicts.exists_sublist (h : Conflicts [] fields name) :
    ∃ first f, [first, f].Sublist fields ∧ first.name = name ∧ f.name = name ∧
      first.node.same f.node = false := by
  obtain ⟨earlier, f, later, first, rfl, hname, hfirst, hdiffer⟩ := h
  refine ⟨first, f, ?_, name_of_field? hfirst, hname, hdiffer⟩
  have hmem : [first].Sublist earlier :=
    List.singleton_sublist.mpr (List.mem_of_find?_eq_some hfirst)
  exact hmem.append (List.singleton_sublist.mpr List.mem_cons_self)

/-- Fields are merged into one more list, or one of them has another shape than the first field of its
name. -/
theorem mergeFields_cases (context : String) (h : Unites all merged) (more : List (Field Shape)) :
    (Agrees all more ∧ ∃ merged', mergeFields context merged more = .ok merged' ∧
      Unites (all ++ more) merged') ∨
    (¬ Agrees all more ∧ ∃ name, mergeFields context merged more =
      .error (.incompatibleMerge context name) ∧ Conflicts all more name) := by
  induction more generalizing all merged with
  | nil =>
    refine .inl ⟨trivial, merged, rfl, ?_⟩
    rwa [List.append_nil]
  | cons f rest ih =>
    -- the field that is next, and then the rest
    have hnext : ∀ {merged'}, Unites (all ++ [f]) merged' →
        (∀ first, Shape.field? all f.name = some first → first.node.same f.node = true) →
        mergeFields context merged (f :: rest) = mergeFields context merged' rest →
        (Agrees all (f :: rest) ∧ ∃ merged'', mergeFields context merged (f :: rest) = .ok merged'' ∧
          Unites (all ++ f :: rest) merged'') ∨
        (¬ Agrees all (f :: rest) ∧ ∃ name, mergeFields context merged (f :: rest) =
          .error (.incompatibleMerge context name) ∧ Conflicts all (f :: rest) name) := by
      intro merged' hunites hagrees hstep
      rw [hstep, Agrees]
      rcases ih hunites with ⟨hrest, merged'', hok, hunites'⟩ | ⟨hrest, name, hfault, hconflict⟩
      · rw [List.append_assoc, List.singleton_append] at hunites'
        exact .inl ⟨⟨hagrees, hrest⟩, merged'', hok, hunites'⟩
      · exact .inr ⟨fun ha => hrest ha.2, name, hfault, hconflict.append_right⟩
    cases hg : Shape.field? merged f.name with
    | none =>
      refine hnext (h.add hg) (fun first hfirst => ?_) ?_
      · rw [h.field?_eq_none_iff.mp hg] at hfirst
        cases hfirst
      · rw [mergeFields, hg]
    | some g =>
      obtain ⟨first, hfirst, hnode⟩ := h.exists_first hg
      cases hs : g.node.same f.node with
      | true =>
        refine hnext (h.mark hg) (fun first' hfirst' => ?_) ?_
        · cases hfirst.symm.trans hfirst'
          rwa [← hnode]
        · rw [mergeFields, hg]
          simp only [hs, if_true]
          rfl
      | false =>
        refine .inr ⟨fun ha => ?_, f.name, ?_, [], f, rest, first, rfl, rfl, ?_, hnode ▸ hs⟩
        · have hsame := ha.1 first hfirst
          rw [← hnode, hs] at hsame
          cases hsame
        · rw [mergeFields, hg]
          simp only [hs, Bool.false_eq_true, if_false]
        · rwa [List.append_nil]

/-- What fields are merged into. -/
theorem Unites.of_mergeFields (h : Unites all merged)
    (hm : mergeFields context merged more = .ok others) : Unites (all ++ more) others := by
  rcases mergeFields_cases context h more with ⟨-, merged', hok, hunites⟩ | ⟨-, name, hfault, -⟩
  · cases hm.symm.trans hok
    exact hunites
  · cases hm.symm.trans hfault

/-! ### Fields that are made required -/

/-- A field, made required if its name is among the names. -/
def demand (names : List Value) (f : Field Shape) : Field Shape :=
  if names.any (·.isText f.name) then { f with required := true } else f

@[simp] theorem demand_name : (demand names f).name = f.name := by
  unfold demand
  split <;> rfl

@[simp] theorem demand_node : (demand names f).node = f.node := by
  unfold demand
  split <;> rfl

@[simp] theorem demand_description : (demand names f).description = f.description := by
  unfold demand
  split <;> rfl

theorem any_isText_iff : names.any (·.isText name) = true ↔ .text name ∈ names := by
  rw [List.any_eq_true]
  constructor
  · rintro ⟨v, hv, htext⟩
    exact Value.eq_text_of_isText htext ▸ hv
  · intro h
    exact ⟨.text name, h, by simp [Value.isText]⟩

theorem demand_required_iff : (demand names f).required = true ↔
    f.required = true ∨ .text f.name ∈ names := by
  rw [← any_isText_iff]
  unfold demand
  split
  · next h => simp [h]
  · next h => simp [h]

/-- Names can be looked for among fields if each of them can be a key. -/
theorem requireFields_eq (hk : names.all Value.isKey = true) (fields : List (Field Shape)) :
    requireFields fields names = .ok (fields.map (demand names)) := by
  rw [requireFields, if_pos hk]
  rfl

theorem requireFields_eq_error (hk : ¬ names.all Value.isKey = true) (fields : List (Field Shape)) :
    requireFields fields names = .error (.defect .wrongKind) := by
  rw [requireFields, if_neg hk]

end RouteStubs.Canon
