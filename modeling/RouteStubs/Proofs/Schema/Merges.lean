import RouteStubs.Proofs.Schema.Required
import RouteStubs.Proofs.Schema.Unforeseen

/-!
# How compositions are merged

The members of a composition are shaped one after the other, and what each leads to is merged with
what the members before it led to. If all members can be shaped, this is a matter of what they lead
to: each has to lead to a record that is finished, and each field has to have the shape that it was
first declared with. One member alone may break the latter, since two of its properties may be written
alike, as the number 1 and the text "1" are.

## Main definitions

* `Canon.memberTargets`: what the members lead to.
* `Canon.LeadsToRecord`, `Canon.declaredBy`, `Canon.furtherBy`: a finished record, and its parts.
* `Canon.Mergeable entries listed found`: the members can be merged.
* `Canon.MergedInto`: the record that they are merged into.
* `Canon.Clash found name`: a field is declared with two shapes.
* `Canon.Orderly`: a composition about which only its members can disagree.

## Main statements

* `Canon.mergeMembers_ends`: how the members of a composition are merged.
* `Canon.Orderly.mergeable_iff`: members can be merged if any two of them agree.
* `Canon.shape_merges`: when a composition is merged, what it is merged into, and why it is refused.
* `Canon.not_shape_merges_of_agreeing`: members that agree are not always merged.
-/

namespace RouteStubs.Canon

variable {ν : Type} {namer : Namer ν} {deeper : Deeper ν} {context name : String} {lone : Bool}
  {origin index : Nat} {entries : Entries} {listed : List Value} {member : Member}
  {rest members : List Member} {p p' : Progress ν} {found : List (Option Shape)}
  {all fields merged : List (Field Shape)} {trailer : Option Shape} {description : String}

/-! ### What members lead to -/

/-- The members are shaped one after the other, null like any other value, and each is followed to what
it leads to by then, which is nothing if that is not finished. -/
def memberTargets (deeper : Deeper ν) (context : String) :
    List Member → Step (Progress ν) (List (Option Shape))
  | [] => pure []
  | member :: rest => do
    let node ← memberShape deeper context false member
    let target := (← get).definitions.dereference node
    let others ← memberTargets deeper context rest
    pure (target :: others)

/-- A member leads to a finished record. -/
def LeadsToRecord (target : Option Shape) : Prop :=
  ∃ fields trailer description source, target = some (.record fields trailer description source)

/-- The fields of the record that a member leads to. -/
def declaredBy : Option Shape → List (Field Shape)
  | some (.record fields _ _ _) => fields
  | _ => []

/-- What the record that a member leads to says about further fields. -/
def furtherBy : Option Shape → Option Shape
  | some (.record _ trailer _ _) => trailer
  | _ => none

/-- The fields that members declare, in their order. -/
abbrev declared (found : List (Option Shape)) : List (Field Shape) := found.flatMap declaredBy

theorem memberTargets_cons
    (h : (memberTargets deeper context (member :: rest)).runFrom p = (.ok found, p')) :
    ∃ node q others, (memberShape deeper context false member).runFrom p = (.ok node, q) ∧
      (memberTargets deeper context rest).runFrom q = (.ok others, p') ∧
      found = q.definitions.dereference node :: others := by
  obtain ⟨node, q, hnode, h⟩ := Step.exists_of_bind_ok h
  obtain ⟨_, _, hget, h⟩ := Step.exists_of_bind_ok h
  cases hget
  obtain ⟨others, q', hothers, h⟩ := Step.exists_of_bind_ok h
  cases h
  exact ⟨node, q, others, hnode, hothers, rfl⟩

/-- Properties beside the list make a difference for null only. -/
theorem memberShape_eq (h : ¬ (lone = true ∧ member = .listed .null)) :
    memberShape deeper context lone member = memberShape deeper context false member := by
  cases lone with
  | false => rfl
  | true =>
    cases member with
    | beside entries => rfl
    | listed schema =>
      rcases schema with (_ | _ | _ | _ | _) | _ | _
      · exact absurd ⟨rfl, rfl⟩ h
      all_goals rfl

/-! ### Merging -/

section Member

variable {node tail : Shape} {q : Progress ν} {more merged' : List (Field Shape)}
  {further : Option Shape} {prose : String} {source : Option Source}

/-- A member that leads to a record is merged with the fields so far. -/
theorem mergeMembers_record
    (hnode : (memberShape deeper context lone member).runFrom p = (.ok node, q))
    (hrecord : q.definitions.dereference node = some (.record more further prose source))
    (hmerge : mergeFields context merged more = .ok merged') :
    (mergeMembers deeper context lone index merged trailer (member :: rest)).runFrom p =
      (mergeMembers deeper context lone (index + 1) merged' (trailer.or further) rest).runFrom q := by
  simp only [mergeMembers, Step.runFrom_bind, hnode, Step.runFrom_get, hrecord, hmerge,
    Step.runFrom_ofExcept]

theorem mergeMembers_conflict {fault : Fault}
    (hnode : (memberShape deeper context lone member).runFrom p = (.ok node, q))
    (hrecord : q.definitions.dereference node = some (.record more further prose source))
    (hmerge : mergeFields context merged more = .error fault) :
    (mergeMembers deeper context lone index merged trailer (member :: rest)).runFrom p =
      (.error fault, q) := by
  simp only [mergeMembers, Step.runFrom_bind, hnode, Step.runFrom_get, hrecord, hmerge,
    Step.runFrom_ofExcept]

/-- A member that leads to nothing, or to something else, is refused. -/
theorem mergeMembers_refused
    (hnode : (memberShape deeper context lone member).runFrom p = (.ok node, q))
    (hno : ¬ LeadsToRecord (q.definitions.dereference node)) :
    ∃ problem, (mergeMembers deeper context lone index merged trailer (member :: rest)).runFrom p =
      (.error (.unsupportedComposition context problem), q) := by
  simp only [mergeMembers, Step.runFrom_bind, hnode, Step.runFrom_get]
  split
  · exact ⟨_, rfl⟩
  · next hrecord => exact absurd ⟨_, _, _, _, hrecord⟩ hno
  · exact ⟨_, rfl⟩

end Member

/-- Each member leads to a record, whose fields have the shapes that they were first declared with. -/
structure Combinable (all : List (Field Shape)) (found : List (Option Shape)) : Prop where
  records : ∀ t ∈ found, LeadsToRecord t
  agrees : Agrees all (declared found)

/-- Why members are refused: one declares a field with a new shape, or leads to no finished record. -/
def Refuses (context : String) (all : List (Field Shape)) (found : List (Option Shape)) (fault : Fault) :
    Prop :=
  (∃ name, fault = .incompatibleMerge context name ∧ Conflicts all (declared found) name) ∨
    ((∃ problem, fault = .unsupportedComposition context problem) ∨ fault = .defect .noMembers) ∧
      ∃ t ∈ found, ¬ LeadsToRecord t

section Cons

variable {more : List (Field Shape)} {further : Option Shape} {prose : String}
  {source : Option Source} {fault : Fault}

theorem combinable_cons : Combinable all (some (.record more further prose source) :: found) ↔
    Agrees all more ∧ Combinable (all ++ more) found := by
  constructor
  · rintro ⟨hrecords, hagrees⟩
    rw [declared, List.flatMap_cons, agrees_append] at hagrees
    exact ⟨hagrees.1, fun t ht => hrecords t (List.mem_cons_of_mem _ ht), hagrees.2⟩
  · rintro ⟨hmore, hrecords, hagrees⟩
    refine ⟨List.forall_mem_cons.mpr ⟨⟨_, _, _, _, rfl⟩, hrecords⟩, ?_⟩
    rw [declared, List.flatMap_cons, agrees_append]
    exact ⟨hmore, hagrees⟩

theorem Refuses.cons (h : Refuses context (all ++ more) found fault) :
    Refuses context all (some (.record more further prose source) :: found) fault := by
  rcases h with ⟨name, rfl, hconflict⟩ | ⟨hfault, t, ht, hno⟩
  · refine .inl ⟨name, rfl, ?_⟩
    rw [declared, List.flatMap_cons]
    exact hconflict.append_right
  · exact .inr ⟨hfault, t, List.mem_cons_of_mem _ ht, hno⟩

end Cons

/-- Members that can be shaped are merged if they can be combined, and otherwise one of them is
refused. -/
theorem mergeMembers_ends
    (hnull : ∀ q q' node, (deeper context .null).runFrom q = (.ok node, q') → node = .unknown)
    (h : Unites all merged)
    (ht : (memberTargets deeper context members).runFrom p = (.ok found, p')) :
    (mergeMembers deeper context lone index merged trailer members).Ends p
      (fun r q => Combinable all found ∧ Unites (all ++ declared found) r.1 ∧
        r.2 = trailer.or (found.findSome? furtherBy) ∧ q = p')
      fun fault _ => ¬ Combinable all found ∧ Refuses context all found fault := by
  induction members generalizing p found index all merged trailer with
  | nil =>
    cases ht
    refine ⟨⟨by simp, trivial⟩, by simpa using h, ?_, rfl⟩
    simp
  | cons member rest ih =>
    obtain ⟨node, q, others, hnode, hothers, rfl⟩ := memberTargets_cons ht
    have hrefused : ∀ fault, ¬ LeadsToRecord (q.definitions.dereference node) →
        ((∃ problem, fault = .unsupportedComposition context problem) ∨ fault = .defect .noMembers) →
        ¬ Combinable all (q.definitions.dereference node :: others) ∧
          Refuses context all (q.definitions.dereference node :: others) fault :=
      fun fault hno hfault => ⟨fun hc => hno (hc.records _ List.mem_cons_self),
        .inr ⟨hfault, _, List.mem_cons_self, hno⟩⟩
    by_cases hlone : lone = true ∧ member = .listed .null
    · -- null leads to no record
      obtain ⟨rfl, rfl⟩ := hlone
      refine hrefused _ ?_ (.inr rfl)
      rintro ⟨_, _, _, _, hmore⟩
      rw [hnull _ _ _ hnode] at hmore
      cases hmore
    rw [← memberShape_eq hlone] at hnode
    by_cases hrecord : LeadsToRecord (q.definitions.dereference node)
    · obtain ⟨more, further, prose, source, hmore⟩ := hrecord
      rw [hmore]
      rcases mergeFields_cases context h more with
        ⟨hagrees, merged', hmerge, hunites⟩ | ⟨hagrees, name, hmerge, hconflict⟩
      · -- the fields are merged, and then the other members
        rw [Step.Ends, mergeMembers_record hnode hmore hmerge]
        refine Step.Ends.imp (ih hunites hothers) ?_ ?_
        · rintro ⟨fields, trailer'⟩ q' ⟨hcombinable, hfields, htrailer, hq⟩
          refine ⟨combinable_cons.mpr ⟨hagrees, hcombinable⟩, ?_, ?_, hq⟩
          · rwa [declared, List.flatMap_cons, ← List.append_assoc]
          · rw [htrailer, List.findSome?_cons]
            cases trailer <;> cases further <;> rfl
        · rintro fault q' ⟨hno, hrefuses⟩
          exact ⟨fun hc => hno (combinable_cons.mp hc).2, hrefuses.cons⟩
      · rw [Step.Ends, mergeMembers_conflict hnode hmore hmerge]
        refine ⟨fun hc => hagrees (combinable_cons.mp hc).1, .inl ⟨name, rfl, ?_⟩⟩
        rw [declared, List.flatMap_cons]
        exact hconflict.append_left _
    · obtain ⟨problem, hrun⟩ := mergeMembers_refused hnode hrecord
      rw [Step.Ends, hrun]
      exact hrefused _ hrecord (.inl ⟨problem, rfl⟩)

/-! ### Compositions -/

/-- A composition whose members lead to these shapes can be merged: the shapes can be combined, the
names that it requires can be keys, and its description can be read. -/
structure Mergeable (entries : Entries) (listed : List Value) (found : List (Option Shape)) : Prop where
  combinable : Combinable [] found
  keys : ∀ name ∈ demanded entries listed, name.isKey = true
  described : ¬ IllDescribed entries

/-- The record that the members of a composition are merged into. Its fields are those of the members in
the order in which their names come first, each as it was declared first, and required if a member or
the composition says so. Further fields are those of the first member that allows any. -/
structure MergedInto (entries : Entries) (listed : List Value) (found : List (Option Shape))
    (fields : List (Field Shape)) (trailer : Option Shape) (description : String) : Prop where
  names : fields.map (·.name) = ((declared found).map (·.name)).eraseDups
  first : ∀ g ∈ fields, ∃ f, Shape.field? (declared found) g.name = some f ∧ g.node = f.node ∧
    g.description = f.description
  required : ∀ g ∈ fields, g.required = true ↔
    (∃ f ∈ declared found, f.name = g.name ∧ f.required = true) ∨ .text g.name ∈ demanded entries listed
  trailer : trailer = found.findSome? furtherBy
  described : Prose.ofMember entries "description" = .ok description

theorem Unites.mergedInto (h : Unites (declared found) merged)
    (hd : Prose.ofMember entries "description" = .ok description) :
    MergedInto entries listed found (merged.map (demand (demanded entries listed)))
      (found.findSome? furtherBy) description where
  names := by
    rw [← h.names, List.map_map]
    exact List.map_congr_left fun _ _ => demand_name
  first g hg := by
    obtain ⟨f, hf, rfl⟩ := List.mem_map.mp hg
    simpa using h.first f hf
  required g hg := by
    obtain ⟨f, hf, rfl⟩ := List.mem_map.mp hg
    rw [demand_required_iff, demand_name, h.required f hf]
  trailer := rfl
  described := hd

theorem ofMember_of_illDescribed (h : IllDescribed entries) :
    Prose.ofMember entries "description" = .error (.defect .wrongKind) := by
  obtain ⟨v, hv, htrue, hne⟩ := h
  unfold Prose.ofMember Prose.ofValue
  rw [hv]
  rcases v with (_ | _ | _ | _ | s) | _ | _
  case scalar.text => exact absurd rfl (hne s)
  all_goals exact if_pos htrue

/-- A composition whose members can be shaped is merged if it can be, and is refused because of its
members or because of what it says itself. -/
theorem composition_ends (rule : ruleOf entries = .composition (.list listed))
    (several : soleMember? (shapedMembers entries listed) (demanded entries listed) = none)
    (hnull : ∀ q q' node, (deeper context .null).runFrom q = (.ok node, q') → node = .unknown)
    (ht : (memberTargets deeper context (shapedMembers entries listed)).runFrom p = (.ok found, p')) :
    (ofEntries namer deeper context origin entries).Ends p
      (fun node q => Mergeable entries listed found ∧ q = p' ∧ ∃ fields trailer description,
        node = .record fields trailer description (some ⟨origin, []⟩) ∧
          MergedInto entries listed found fields trailer description)
      fun fault _ => ¬ Mergeable entries listed found ∧
        (Refuses context [] found fault ∨ fault = .defect .wrongKind ∧
          (IllDescribed entries ∨ ∃ name ∈ demanded entries listed, name.isKey = false)) := by
  simp only [ofEntries_eq, rule, composition_list, several, Step.ends_bind]
  refine (mergeMembers_ends hnull unites_nil ht).imp ?_ ?_
  · rintro ⟨merged, trailer⟩ q ⟨hcombinable, hunites, htrailer, rfl⟩
    simp only at hunites htrailer ⊢
    rw [List.nil_append] at hunites
    rw [Option.none_or] at htrailer
    subst htrailer
    by_cases hkeys : (demanded entries listed).all Value.isKey = true
    · rw [requireFields_eq hkeys]
      simp only [Step.ofExcept, Step.ends_pure]
      cases hd : Prose.ofMember entries "description" with
      | ok description =>
        have hdescribed : ¬ IllDescribed entries := fun hill => by
          rw [ofMember_of_illDescribed hill] at hd
          cases hd
        exact ⟨⟨hcombinable, List.all_eq_true.mp hkeys, hdescribed⟩, rfl, _, _, _, rfl,
          hunites.mergedInto hd⟩
      | error fault =>
        obtain ⟨rfl, hill⟩ := illDescribed_of_error hd
        exact ⟨fun hm => hm.described hill, .inr ⟨rfl, .inl hill⟩⟩
    · rw [requireFields_eq_error hkeys]
      refine ⟨fun hm => hkeys (List.all_eq_true.mpr hm.keys), .inr ⟨rfl, .inr ?_⟩⟩
      simpa using hkeys
  · rintro fault q ⟨hno, hrefuses⟩
    exact ⟨fun hm => hno hm.combinable, .inl hrefuses⟩

/-! ### Fields with two shapes -/

/-- Two members give each field that both declare the same shape. -/
def Agreeing (s t : Option Shape) : Prop :=
  ∀ f ∈ declaredBy s, ∀ g ∈ declaredBy t, Compatible f g

/-- A field is declared with two shapes, by two members or by one that declares it twice. -/
def Clash (found : List (Option Shape)) (name : String) : Prop :=
  ∃ f g, f.name = name ∧ g.name = name ∧ f.node.same g.node = false ∧
    ((∃ s t, [s, t].Sublist found ∧ f ∈ declaredBy s ∧ g ∈ declaredBy t) ∨
      ∃ t ∈ found, [f, g].Sublist (declaredBy t))

/-- What a composition may say so that merging it is a matter of what its members agree on: no member
declares a field twice, formats are scalars, required names can be keys, and the description can be
read. -/
structure Orderly (entries : Entries) (listed : List Value) (found : List (Option Shape)) : Prop where
  nodup : ∀ t ∈ found, ((declaredBy t).map (·.name)).Nodup
  regular : ∀ f ∈ declared found, f.node.Regular
  keys : ∀ name ∈ demanded entries listed, name.isKey = true
  described : ¬ IllDescribed entries

/-- Two items of joined lists are items of two of the lists, or of one. -/
theorem exists_of_sublist_flatMap {α β : Type} {g : α → List β} {l : List α} {a b : β}
    (h : [a, b].Sublist (l.flatMap g)) :
    (∃ s t, [s, t].Sublist l ∧ a ∈ g s ∧ b ∈ g t) ∨ ∃ t ∈ l, [a, b].Sublist (g t) := by
  by_contra hno
  obtain ⟨htwo, hone⟩ := not_or.mp hno
  -- otherwise the two items could not stand in this order
  have hpairwise : (l.flatMap g).Pairwise fun x y => ¬ (x = a ∧ y = b) := by
    refine List.pairwise_flatMap.mpr ⟨fun t ht => ?_, ?_⟩
    · refine List.pairwise_iff_forall_sublist.mpr ?_
      rintro x y hxy ⟨rfl, rfl⟩
      exact hone ⟨t, ht, hxy⟩
    · refine List.pairwise_iff_forall_sublist.mpr ?_
      rintro s t hst x hx y hy ⟨rfl, rfl⟩
      exact htwo ⟨s, t, hst, hx, hy⟩
  exact List.pairwise_iff_forall_sublist.mp hpairwise h ⟨rfl, rfl⟩

theorem clash_of_conflicts (h : Conflicts [] (declared found) name) : Clash found name := by
  obtain ⟨first, f, hsub, hfirst, hf, hdiffer⟩ := h.exists_sublist
  exact ⟨first, f, hfirst, hf, hdiffer, exists_of_sublist_flatMap hsub⟩

/-- Fields of different names are compatible. -/
theorem pairwise_of_nodup (h : (fields.map (·.name)).Nodup) : fields.Pairwise Compatible :=
  (List.pairwise_map.mp h).imp fun hne heq => absurd heq hne

theorem Orderly.mergeable_iff (h : Orderly entries listed found) :
    Mergeable entries listed found ↔ (∀ t ∈ found, LeadsToRecord t) ∧ found.Pairwise Agreeing := by
  have hagrees : Agrees [] (declared found) ↔ found.Pairwise Agreeing := by
    rw [agrees_iff_pairwise h.regular, List.pairwise_flatMap]
    exact and_iff_right fun t ht => pairwise_of_nodup (h.nodup t ht)
  constructor
  · intro hm
    exact ⟨hm.combinable.records, hagrees.mp hm.combinable.agrees⟩
  · rintro ⟨hrecords, hpairwise⟩
    exact ⟨⟨hrecords, hagrees.mpr hpairwise⟩, h.keys, h.described⟩

/-! ### Schemas -/

theorem shape_null {steps : Nat} {node : Shape}
    (h : (shape namer steps context .null).runFrom p = (.ok node, p')) : node = .unknown := by
  cases steps <;> cases h
  rfl

/-- A mapping has the shape of its entries, with null beside it if it admits null. -/
theorem shape_ends {steps : Nat} {Q : Shape → Progress ν → Prop} {E : Fault → Progress ν → Prop}
    (h : (ofEntries namer (shape namer steps) context origin entries).Ends p Q E) :
    (shape namer (steps + 1) context (.mapping origin entries)).Ends p
      (fun node q => ∃ plain, Q plain q ∧ node = if isNullable entries then plain.orNull else plain)
      E := by
  simp only [shape, Step.ends_bind]
  refine h.imp_ok fun plain q hq => ?_
  split
  · next hnull => exact ⟨plain, hq, by rw [isNullable_of_text? hnull, if_pos rfl]⟩
  · next hnull => exact ⟨plain, hq, by rw [isNullable_eq_false hnull]; rfl⟩

/-- A schema whose members can all be shaped, and are several, is merged if and only if it can be; if it
is orderly, this is so if and only if each member leads to a finished record and any two of them agree
on the fields that both declare. It is refused for a field that is declared with two shapes, for a
member that leads to no record, or for what it says itself. -/
theorem shape_merges {steps : Nat} (rule : ruleOf entries = .composition (.list listed))
    (several : soleMember? (shapedMembers entries listed) (demanded entries listed) = none)
    (normal : (memberTargets (shape namer steps) context (shapedMembers entries listed)).runFrom p =
      (.ok found, p')) {outcome : Except Fault Shape} {q : Progress ν}
    (run : (shape namer (steps + 1) context (.mapping origin entries)).runFrom p = (outcome, q)) :
    (outcome.isOk = true ↔ Mergeable entries listed found) ∧
    (Orderly entries listed found → (outcome.isOk = true ↔
      (∀ t ∈ found, LeadsToRecord t) ∧ found.Pairwise Agreeing)) ∧
    (∀ node, outcome = .ok node → q = p' ∧ ∃ fields trailer description,
      MergedInto entries listed found fields trailer description ∧
      node = if isNullable entries then
          (Shape.record fields trailer description (some ⟨origin, []⟩)).orNull
        else .record fields trailer description (some ⟨origin, []⟩)) ∧
    ∀ fault, outcome = .error fault →
      (∃ name, fault = .incompatibleMerge context name ∧ Clash found name) ∨
      ((∃ problem, fault = .unsupportedComposition context problem) ∨ fault = .defect .noMembers) ∧
        (∃ t ∈ found, ¬ LeadsToRecord t) ∨
      fault = .defect .wrongKind ∧
        (IllDescribed entries ∨ ∃ name ∈ demanded entries listed, name.isKey = false) := by
  have hplain : (ofEntries namer (shape namer steps) context origin entries).Ends p _ _ :=
    composition_ends rule several (fun _ _ _ => shape_null) normal
  have hends := shape_ends hplain
  cases outcome with
  | ok node =>
    obtain ⟨plain, ⟨hm, hq, fields, trailer, description, rfl, hinto⟩, hnode⟩ := hends.of_ok run
    refine ⟨iff_of_true rfl hm, fun ho => iff_of_true rfl (ho.mergeable_iff.mp hm), ?_, nofun⟩
    rintro _ ⟨⟩
    exact ⟨hq, fields, trailer, description, hinto, hnode⟩
  | error fault =>
    obtain ⟨hm, hrefuses⟩ := hends.of_error run
    refine ⟨iff_of_false nofun hm, fun ho => iff_of_false nofun fun h => hm (ho.mergeable_iff.mpr h),
      nofun, ?_⟩
    rintro _ ⟨⟩
    rcases hrefuses with (⟨name, rfl, hconflict⟩ | hmember) | hown
    · exact .inl ⟨name, rfl, clash_of_conflicts hconflict⟩
    · exact .inr (.inl hmember)
    · exact .inr (.inr hown)

/-- What the component and what stands beside the list lead to. -/
def petTargets : List (Option Shape) :=
  [some (.record [⟨"name", .primitive .string .null, true, ""⟩] none "" (some ⟨4, []⟩)),
    some (.record [⟨"age", .primitive .integer .null, false, ""⟩] none "" none)]

/-- The component and what stands beside the list agree, and are merged. -/
theorem merges_petWithAge : ∃ p' node q,
    (memberTargets (shape Registry.nameFor 9) "<inline>"
      (shapedMembers Naming.petEntries Naming.petMembers)).runFrom
        (Progress.start ⟨[], [], []⟩ Naming.petDocument) = (.ok petTargets, p') ∧
    (shape Registry.nameFor 10 "<inline>" Naming.petWithAge).runFrom
      (Progress.start ⟨[], [], []⟩ Naming.petDocument) = (.ok node, q) ∧
    Orderly Naming.petEntries Naming.petMembers petTargets ∧
    ((∀ t ∈ petTargets, LeadsToRecord t) ∧ petTargets.Pairwise Agreeing) ∧
    q = p' ∧ ∃ fields trailer description,
      MergedInto Naming.petEntries Naming.petMembers petTargets fields trailer description := by
  have htargets : ((memberTargets (shape Registry.nameFor 9) "<inline>"
      (shapedMembers Naming.petEntries Naming.petMembers)).runFrom
        (Progress.start ⟨[], [], []⟩ Naming.petDocument)).1 = .ok petTargets := rfl
  have hrun : ((shape Registry.nameFor 10 "<inline>" Naming.petWithAge).runFrom
      (Progress.start ⟨[], [], []⟩ Naming.petDocument)).1 = .ok (.record
        [⟨"name", .primitive .string .null, true, ""⟩, ⟨"age", .primitive .integer .null, true, ""⟩]
        none "" (some ⟨20, []⟩)) := rfl
  have hregular : ∀ f ∈ declared petTargets, f.node.Regular := by
    have hdeclared : declared petTargets = [⟨"name", .primitive .string .null, true, ""⟩,
      ⟨"age", .primitive .integer .null, false, ""⟩] := rfl
    rw [hdeclared, List.forall_mem_cons, List.forall_mem_singleton]
    exact ⟨Shape.throughout_of_isLeaf trivial ⟨_, rfl, trivial⟩,
      Shape.throughout_of_isLeaf trivial ⟨_, rfl, trivial⟩⟩
  have horderly : Orderly Naming.petEntries Naming.petMembers petTargets :=
    ⟨by decide, hregular, by decide, nofun⟩
  obtain ⟨-, hagree, hnode, -⟩ := shape_merges rfl rfl (Prod.ext htargets rfl) (Prod.ext hrun rfl)
  obtain ⟨hq, fields, trailer, description, hinto, -⟩ := hnode _ rfl
  exact ⟨_, _, _, Prod.ext htargets rfl, Prod.ext hrun rfl, horderly, (hagree horderly).mp rfl, hq,
    fields, trailer, description, hinto⟩

/-- A member with two properties of one name, as the name is written, and another member. -/
def twiceNamedMembers : List Value :=
  [.mapping 2 [(.text "type", .text "object"), (.text "properties", .mapping 3
      [(.int 1, .mapping 4 [(.text "type", .text "string")]),
        (.text "1", .mapping 5 [(.text "type", .text "integer")])])],
    .mapping 6 [(.text "type", .text "object"),
      (.text "properties", .mapping 7 [(.text "z", .mapping 8 [(.text "type", .text "string")])])]]

/-- The composition of the two members. -/
def twiceNamed : Entries := [(.text "allOf", .list twiceNamedMembers)]

/-- Members that lead to records and agree on the fields that two of them declare are not always
merged. -/
theorem not_shape_merges_of_agreeing : ¬ ∀ (document : Value) (origin steps : Nat) (entries : Entries)
    (listed : List Value) (found : List (Option Shape)) (p' q : Progress Registry)
    (outcome : Except Fault Shape),
    ruleOf entries = .composition (.list listed) →
    soleMember? (shapedMembers entries listed) (demanded entries listed) = none →
    (memberTargets (shape Registry.nameFor steps) "<inline>" (shapedMembers entries listed)).runFrom
      (Progress.start ⟨[], [], []⟩ document) = (.ok found, p') →
    (shape Registry.nameFor (steps + 1) "<inline>" (.mapping origin entries)).runFrom
      (Progress.start ⟨[], [], []⟩ document) = (outcome, q) →
    (outcome.isOk = true ↔ (∀ t ∈ found, LeadsToRecord t) ∧ found.Pairwise Agreeing) := by
  intro hall
  have htargets : ((memberTargets (shape Registry.nameFor 9) "<inline>"
      (shapedMembers twiceNamed twiceNamedMembers)).runFrom
        (Progress.start ⟨[], [], []⟩ (.mapping 0 []))).1 = .ok [
          some (.record [⟨"1", .primitive .string .null, false, ""⟩,
            ⟨"1", .primitive .integer .null, false, ""⟩] none "" (some ⟨2, []⟩)),
          some (.record [⟨"z", .primitive .string .null, false, ""⟩] none "" (some ⟨6, []⟩))] := rfl
  have hrun : ((shape Registry.nameFor 10 "<inline>" (.mapping 1 twiceNamed)).runFrom
      (Progress.start ⟨[], [], []⟩ (.mapping 0 []))).1.isOk = false := by decide +kernel
  have hok := (hall _ 1 9 twiceNamed twiceNamedMembers _ _ _ _ rfl rfl (Prod.ext htargets rfl)
    Prod.mk.eta.symm).mpr ⟨by simp [LeadsToRecord], by simp [Agreeing, declaredBy, Compatible]⟩
  rw [hrun] at hok
  cases hok

end RouteStubs.Canon
