import RouteStubs.Proofs.Schema.Course
import RouteStubs.Proofs.Schema.Returns

/-!
# Unions that are put aside

The discriminator of a union is found where the union is made, or else the union is put aside because
one of its variants leads nowhere yet. In the first case, what is found stays right: what the fields
of the variants lead to later is no enumeration. In the second case the union is noted, with its
explicit discriminator, under its variants, and a later union with the same variants may replace what
is noted.

## Main definitions

* `Naming.Alternates`: what the variants of a union are.
* `Naming.Tagged`: how a union has got its discriminator.
* `Naming.Noted`: what an entry for a union that was put aside goes back to.
* `Naming.Course.tagging`: the course on which this is followed.

## Main statements

* `Naming.Tagged.settled`, `Naming.Tagged.settled_nullShape`: the discriminator that a union has when
  everything is finished.
-/

namespace RouteStubs

namespace Progress

variable {ν : Type} {p : Progress ν} {variants : List Shape} {explicit : Value}
  {entry : List Shape × Value}

/-! ### The entries for unions -/

/-- Putting a union aside drops no entry. -/
theorem exists_mem_defer (h : entry ∈ p.deferred) (variants : List Shape) (explicit : Value) :
    ∃ entry' ∈ (defer variants explicit p).deferred, entry'.1 = entry.1 := by
  unfold defer
  split
  · refine ⟨_, List.mem_map_of_mem h, ?_⟩
    split <;> rfl
  · exact ⟨entry, List.mem_append_left _ h, rfl⟩

/-- An entry is an earlier one, or it is the one for the union. -/
theorem mem_or_of_mem_defer (hs : Shape.sameVariants variants variants = true)
    (h : entry ∈ (defer variants explicit p).deferred) :
    entry ∈ p.deferred ∨ (Shape.sameVariants entry.1 variants = true ∧ entry.2 = explicit) := by
  unfold defer at h
  split at h
  · obtain ⟨before, hb, rfl⟩ := List.mem_map.mp h
    split
    · next hsame => exact .inr ⟨hsame, rfl⟩
    · exact .inl hb
  · rcases List.mem_append.mp h with h | h
    · exact .inl h
    · cases List.mem_singleton.mp h
      exact .inr ⟨hs, rfl⟩

/-- There is an entry for a union that is put aside. -/
theorem exists_sameVariants_defer (hs : Shape.sameVariants variants variants = true)
    (explicit : Value) : ∃ entry ∈ (defer variants explicit p).deferred,
      Shape.sameVariants entry.1 variants = true := by
  unfold defer
  split
  · next hany =>
    obtain ⟨entry, he, hsame⟩ := List.any_eq_true.mp hany
    exact ⟨_, List.mem_map_of_mem he, by rwa [if_pos hsame]⟩
  · exact ⟨_, List.mem_append_right _ (List.mem_singleton_self _), hs⟩

end Progress

namespace Naming

open Canon Shape

variable {ν : Type} {namer : Namer ν} (N : Naming namer) (document : Value) {root : Value}
  {p p' : Progress ν} {origin : Nat} {entries : Entries} {variants : List Shape}
  {discriminator : Option String} {entry : List Shape × Value}

/-! ### Unions and their discriminators -/

/-- The entries are alternatives, and these are the variants that they read as. -/
def Alternates (p : Progress ν) (entries : Entries) (variants : List Shape) : Prop :=
  ∃ members nodes depth, ruleOf entries = .alternatives (.list members) ∧
    List.Forall₂ (Reads (N.Points p) p.definitions depth) members nodes ∧
      variants = distinct nodes ∧ ∀ only, variants ≠ [only]

/-- One of the variants leads back to where the alternatives are met from. -/
def LeadsBack (p : Progress ν) (origin : Nat) (entries : Entries) (variants : List Shape) : Prop :=
  ∃ v ∈ variants, N.Returns document p (.mapping origin entries) v

/-- The discriminator was looked for when all variants led somewhere. A field of theirs that led
nowhere then leads back to where the alternatives are met from. -/
def LookedUp (p : Progress ν) : Tie := fun origin entries variants discriminator =>
  ∃ earlier, earlier <+: p.definitions ∧
    discriminator = discriminator? earlier variants (explicitDiscriminator entries) ∧
    (∀ v ∈ variants, (Definitions.dereference earlier v).isSome) ∧
    ∀ v ∈ variants, ∀ fields, Definitions.fields? earlier v = some fields → ∀ f ∈ fields,
      Definitions.dereference earlier f.node = none →
        N.Returns document p (.mapping origin entries) f.node

/-- The union was put aside because one of its variants led back. -/
def PutAside (p : Progress ν) : Tie := fun origin entries variants discriminator =>
  discriminator = none ∧ N.LeadsBack document p origin entries variants ∧
    ∃ entry ∈ p.deferred, sameVariants entry.1 variants = true

/-- The discriminator of the union was looked for, or the union was put aside. -/
def Tagged (p : Progress ν) : Tie := fun origin entries variants discriminator =>
  N.Alternates p entries variants ∧
    (N.LookedUp document p origin entries variants discriminator ∨
      N.PutAside document p origin entries variants discriminator)

/-- The entry has the explicit discriminator of alternatives that were put aside. -/
def Noted (p : Progress ν) (entry : List Shape × Value) : Prop :=
  ∃ origin entries variants, N.Alternates p entries variants ∧
    N.LeadsBack document p origin entries variants ∧ sameVariants entry.1 variants = true ∧
      entry.2 = explicitDiscriminator entries

/-- Every union in the definitions is tagged, and every entry is noted. -/
structure Accounted (p : Progress ν) : Prop where
  tied : ∀ name node, p.definitions.find? name = some node → ∃ ref found depth,
    N.Points p name ref ∧ Resolver.target document ref = .ok found ∧
      ReadsTied (N.Tagged document p) (N.Points p) p.definitions depth found node
  noted : ∀ entry ∈ p.deferred, N.Noted document p entry

/-- No entry for a union is dropped. -/
def KeepsAside (p p' : Progress ν) : Prop :=
  ∀ entry ∈ p.deferred, ∃ entry' ∈ p'.deferred, entry'.1 = entry.1

theorem accounted_start (names : ν) : N.Accounted document (Progress.start names document) where
  tied _ _ hf := by cases hf
  noted _ he := by cases he

variable {N document}

/-! ### States that know more -/

theorem Alternates.mono (h : N.Keeps p p') (ha : N.Alternates p entries variants) :
    N.Alternates p' entries variants := by
  obtain ⟨members, nodes, depth, rule, hn, hv, hseveral⟩ := ha
  exact ⟨members, nodes, depth, rule, hn.imp fun _ _ => Reads.mono h.points h.definitions, hv,
    hseveral⟩

theorem LeadsBack.mono (h : N.Keeps p p') (hl : N.LeadsBack document p origin entries variants) :
    N.LeadsBack document p' origin entries variants := by
  obtain ⟨v, hv, hr⟩ := hl
  exact ⟨v, hv, hr.mono h⟩

theorem Tagged.mono (h : N.Keeps p p') (ha : KeepsAside p p')
    (ht : N.Tagged document p origin entries variants discriminator) :
    N.Tagged document p' origin entries variants discriminator := by
  refine ⟨ht.1.mono h, ht.2.imp ?_ ?_⟩
  · rintro ⟨earlier, he, hd, hsome, hfields⟩
    exact ⟨earlier, he.trans h.definitions, hd, hsome, fun v hv fields hf f hm hnone =>
      (hfields v hv fields hf f hm hnone).mono h⟩
  · rintro ⟨hd, hl, entry, he, hsame⟩
    obtain ⟨entry', he', hkey⟩ := ha entry he
    exact ⟨hd, hl.mono h, entry', he', hkey ▸ hsame⟩

theorem Noted.mono (h : N.Keeps p p') (hn : N.Noted document p entry) :
    N.Noted document p' entry := by
  obtain ⟨origin, entries, variants, ha, hl, hsame, he⟩ := hn
  exact ⟨origin, entries, variants, ha.mono h, hl.mono h, hsame, he⟩

/-- A state in which as much is finished and the same unions are put aside. -/
theorem Accounted.mono (h : N.Keeps p p') (hd : p'.definitions = p.definitions)
    (ha : KeepsAside p p') (hn : ∀ entry ∈ p'.deferred, entry ∈ p.deferred ∨ N.Noted document p' entry)
    (hp : N.Accounted document p) : N.Accounted document p' where
  tied name node hf := by
    rw [hd] at hf
    obtain ⟨ref, found, depth, hp, ht, hr⟩ := hp.tied name node hf
    exact ⟨ref, found, depth, h.points _ _ hp, ht,
      hr.mono (fun _ _ _ _ => Tagged.mono h ha) h.points h.definitions⟩
  noted entry he := (hn entry he).elim (fun hold => (hp.noted entry hold).mono h) fun hnew => hnew

theorem keepsAside_of_eq (h : p'.deferred = p.deferred) : KeepsAside p p' :=
  fun entry he => ⟨entry, h ▸ he, rfl⟩

/-- A state in which as much is finished and as much is put aside. -/
theorem Accounted.of_eq (h : N.Keeps p p') (hd : p'.definitions = p.definitions)
    (ha : p'.deferred = p.deferred) (hp : N.Accounted document p) : N.Accounted document p' :=
  hp.mono h hd (keepsAside_of_eq ha) fun _ he => .inl (ha ▸ he)

/-- One more reference is finished. -/
theorem Accounted.finish {name ref : String} {found : Value} {node : Shape} {depth : Nat}
    (h : N.Keeps p (finished p name node)) (hnone : p.definitions.find? name = none)
    (hpoints : N.Points (finished p name node) name ref)
    (ht : Resolver.target document ref = .ok found)
    (hr : ReadsTied (N.Tagged document p) (N.Points p) p.definitions depth found node)
    (hp : N.Accounted document p) : N.Accounted document (finished p name node) where
  tied name' node' hf := by
    have htagged : ∀ origin entries variants discriminator,
        N.Tagged document p origin entries variants discriminator →
          N.Tagged document (finished p name node) origin entries variants discriminator :=
      fun _ _ _ _ => Tagged.mono h (keepsAside_of_eq rfl)
    by_cases hn : name' = name
    · subst hn
      rw [definitions_finished hnone, Definitions.find?_concat_self hnone] at hf
      cases hf
      exact ⟨ref, found, depth, hpoints, ht, hr.mono htagged h.points h.definitions⟩
    · rw [definitions_finished hnone, Definitions.find?_concat_of_ne hn] at hf
      obtain ⟨ref', found', depth', hp', ht', hr'⟩ := hp.tied name' node' hf
      exact ⟨ref', found', depth', h.points _ _ hp', ht',
        hr'.mono htagged h.points h.definitions⟩
  noted entry he := (hp.noted entry he).mono h

/-! ### Where unions are made -/

section Made

variable {members : List Value} {nodes : List Shape} {depth : Nat}
  (hw : N.Walked document p)
  (hs : Surrounds document root p.resolver.chain (.mapping origin entries))
  (hn : List.Forall₂ (Reads (N.Points p) p.definitions depth) members nodes)

include hw hn in
/-- The handles in variants are known. -/
theorem Walked.knows_variant {v : Shape} (hv : v ∈ distinct nodes) : v.Throughout (N.Knows p) := by
  obtain ⟨member, -, hr⟩ := exists_mem_of_forall₂ hn.flip (mem_of_mem_distinct hv)
  exact hw.knows_reads hr

include hw hs hn in
/-- The discriminator is looked for when all variants lead somewhere. -/
theorem Walked.lookedUp (hsome : ∀ v ∈ distinct nodes, (p.definitions.dereference v).isSome) :
    N.LookedUp document p origin entries (distinct nodes)
      (discriminator? p.definitions (distinct nodes) (explicitDiscriminator entries)) := by
  refine ⟨p.definitions, List.prefix_refl _, rfl, hsome, fun v hv fields hf f hm hnone => ?_⟩
  obtain ⟨trailer, description, source, hrecord⟩ := Definitions.fields?_eq_some hf
  have hknown := throughout_of_dereference (fun _ _ => hw.knows_definition)
    (hw.knows_variant hn hv) hrecord
  exact hw.returns hs (hknown.child (.field hm)).self hnone

include hw hs hn in
/-- A union is put aside when a variant leads nowhere. -/
theorem Walked.leadsBack (hnone : ∃ v ∈ distinct nodes, p.definitions.dereference v = none) :
    N.LeadsBack document p origin entries (distinct nodes) := by
  obtain ⟨v, hv, hnone⟩ := hnone
  exact ⟨v, hv, hw.returns hs (hw.knows_variant hn hv).self hnone⟩

end Made

/-! ### The course -/

variable (N document) in
/-- The course on which it is followed how unions get their discriminators. -/
def Course.tagging : N.Course document where
  Holds := N.Accounted document
  Leads := KeepsAside
  Ties := N.Tagged document
  refl := fun _ => keepsAside_of_eq rfl
  trans := by
    intro p p' p'' _ _ h h' entry he
    obtain ⟨entry', he', hkey⟩ := h entry he
    obtain ⟨entry'', he'', hkey'⟩ := h' entry' he'
    exact ⟨entry'', he'', hkey'.trans hkey⟩
  looks := by
    intro p resolver hc hh
    have hk : N.Keeps p { p with resolver := resolver } :=
      ⟨fun _ _ hp => ⟨hp.1, hp.2.imp_right fun h => ⟨hc ▸ h.1, h.2⟩⟩, List.prefix_refl _⟩
    exact ⟨keepsAside_of_eq rfl, hh.of_eq hk rfl rfl⟩
  named := by
    intro p names name ref hrun hh
    have he : N.Extends p { p with names := names } :=
      ⟨((N.ends p.names ref).of_ok hrun).1, rfl, rfl, List.prefix_refl _⟩
    exact hh.of_eq he.keeps rfl rfl
  meets := fun _ _ => keepsAside_of_eq rfl
  enters := by
    intro p ref hh
    have hk : N.Keeps p { p with resolver := p.resolver.enter (.text ref) } :=
      ⟨fun _ _ hp => ⟨hp.1, hp.2.imp_right fun h => ⟨List.mem_append_left _ h.1, h.2⟩⟩,
        List.prefix_refl _⟩
    exact hh.of_eq hk rfl rfl
  finishes := by
    intro p p' names name ref found node depth _ _ hleads hnone hkept hpoints ht hr _ hh
    have hk : N.Keeps p' (finished p' name node) := ⟨fun _ _ => hkept,
      definitions_finished hnone node ▸ List.prefix_append _ _⟩
    exact ⟨hleads, hh.finish hk hnone hpoints ht hr⟩
  later := fun he hleads ht => ht.mono he.keeps hleads
  finds := by
    intro p root origin entries members nodes depth rule hw hs _ hn hseveral hsome
    exact ⟨⟨members, nodes, depth, rule, hn, rfl, hseveral⟩, .inl (hw.lookedUp hs hn hsome)⟩
  defers := by
    intro p root origin entries members nodes depth rule hw hs hh hn hseveral hkeys hnone
    have hsame := sameVariants_self hkeys
    have hleads : KeepsAside p
        (Progress.defer (distinct nodes) (explicitDiscriminator entries) p) :=
      fun _ he => Progress.exists_mem_defer he _ _
    obtain ⟨deferred, hp'⟩ :=
      Course.exists_deferred (distinct nodes) (explicitDiscriminator entries) p
    have hk : N.Keeps p
        (Progress.defer (distinct nodes) (explicitDiscriminator entries) p) := by
      rw [hp']
      exact ⟨fun _ _ h => h, List.prefix_refl _⟩
    have halternates : N.Alternates p entries (distinct nodes) :=
      ⟨members, nodes, depth, rule, hn, rfl, hseveral⟩
    have hback := hw.leadsBack hs hn hnone
    refine ⟨hleads, hh.mono hk (by rw [hp']) hleads fun entry he => ?_, halternates.mono hk,
      .inr ⟨rfl, hback.mono hk, Progress.exists_sameVariants_defer hsame _⟩⟩
    refine (Progress.mem_or_of_mem_defer hsame he).imp_right ?_
    rintro ⟨hv, hexplicit⟩
    exact ⟨origin, entries, distinct nodes, halternates.mono hk, hback.mono hk, hv, hexplicit⟩

/-! ### When everything is finished -/

/-- A union without a discriminator settles for the one that its entry gives, if it has one. -/
theorem exists_of_settled {found : Option String} (h : settled variants none p = .ok found) :
    (found = none ∧ ∀ entry ∈ p.deferred, sameVariants entry.1 variants = false) ∨
      ∃ entry ∈ p.deferred, sameVariants entry.1 variants = true ∧
        found = discriminator? p.definitions variants entry.2 := by
  simp only [settled] at h
  split at h
  · cases h
  · split at h
    · next key explicit hentry =>
      cases h
      exact .inr ⟨_, List.mem_of_find?_eq_some hentry,
        by simpa using List.find?_some hentry, rfl⟩
    · next hnone =>
      cases h
      exact .inl ⟨rfl, fun entry he => by simpa using List.find?_eq_none.mp hnone entry he⟩

variable (N document) in
/-- Alternatives with these entries recur, and their union shares its entry with that of the
variants. -/
def Shares (p : Progress ν) (variants : List Shape) (entries : Entries) : Prop :=
  ∃ key origin others, sameVariants key variants = true ∧ sameVariants key others = true ∧
    N.Alternates p entries others ∧ Recurs document (.mapping origin entries)

theorem Shares.mono (h : N.Keeps p p') (hs : N.Shares document p variants entries) :
    N.Shares document p' variants entries := by
  obtain ⟨key, origin, others, hkey, hothers, ha, hrecurs⟩ := hs
  exact ⟨key, origin, others, hkey, hothers, ha.mono h, hrecurs⟩

section Finished

variable {found : Option String} (hw : N.Walked document p) (hc : p.resolver.chain = [])
  (unique : ∀ name name' ref, N.Points p name ref → N.Points p name' ref → name = name')

include hw hc unique in
/-- A discriminator that was found where the union was made is the one that all definitions give. -/
theorem LookedUp.eq_discriminator? (ha : N.Alternates p entries variants)
    (h : N.LookedUp document p origin entries variants discriminator) :
    discriminator = discriminator? p.definitions variants (explicitDiscriminator entries) := by
  obtain ⟨members, nodes, depth, rule, hn, rfl, hseveral⟩ := ha
  obtain ⟨earlier, he, rfl, hsome, hfields⟩ := h
  have hnot : ¬ Enumerates (N.Points p) p.definitions (.mapping origin entries) :=
    not_enumerates_of_several unique rule hn hseveral
  refine (discriminator?_congr (fun v hv => Definitions.fields?_eq_of_isSome he (hsome v hv))
    (fun v hv fields hf f hm => Definitions.singleValue?_eq he fun hnone values => ?_) _).symm
  exact (hfields v hv fields hf f hm hnone).dereference_ne_enum hw hc hnot values

include hw in
/-- Alternatives of which a variant leads back recur, or else there is no discriminator for any union
with the same variants. -/
theorem LeadsBack.recurs_or_eq_none (ha : N.Alternates p entries variants)
    (h : N.LeadsBack document p origin entries variants) :
    Recurs document (.mapping origin entries) ∨ ∀ key others explicit,
      sameVariants key variants = true → sameVariants key others = true →
        discriminator? p.definitions others explicit = none := by
  obtain ⟨members, nodes, depth, rule, hn, rfl, -⟩ := ha
  obtain ⟨v, hv, hback⟩ := h
  refine (hw.recurs_or_dereference_eq_none rule hn (mem_of_mem_distinct hv) hback).imp_right ?_
  intro hnone key others explicit hsame hsame'
  -- what leads nowhere is a handle, and so it is among the other variants as well
  have hnone := hnone _ (List.prefix_refl _)
  obtain ⟨name, -, rfl, -⟩ := Definitions.dereference_eq_none hnone
  have hother := (handle_mem_of_sameVariants hsame').mp ((handle_mem_of_sameVariants hsame).mpr hv)
  refine discriminator?_eq_none hother ?_ explicit
  rw [Definitions.fields?, hnone]

include hw hc unique in
/-- In the end a union has the discriminator that all definitions give, unless it recurs and shares
its entry with another union: then it may be the explicit one of the other union that counts. -/
theorem Tagged.settled (hp : N.Accounted document p)
    (ht : N.Tagged document p origin entries variants discriminator)
    (h : Canon.settled variants discriminator p = .ok found) :
    found = discriminator? p.definitions variants (explicitDiscriminator entries) ∨
      (Recurs document (.mapping origin entries) ∧ ∃ others, N.Shares document p variants others ∧
        found = discriminator? p.definitions variants (explicitDiscriminator others)) := by
  obtain ⟨ha, hlooked | ⟨rfl, hback, entry, he, hsame⟩⟩ := ht
  · have hfound := hlooked.eq_discriminator? hw hc unique ha
    cases discriminator with
    | some name =>
      cases h
      exact .inl hfound
    | none =>
      -- where there is no discriminator, no entry gives one
      refine .inl (Eq.trans ?_ hfound)
      rcases exists_of_settled h with ⟨rfl, -⟩ | ⟨entry, -, -, rfl⟩
      · rfl
      · exact discriminator?_eq_none_of_eq_none hfound.symm _
  · rcases exists_of_settled h with ⟨-, hno⟩ | ⟨entry', he', hsame', rfl⟩
    · rw [hno entry he] at hsame
      cases hsame
    · obtain ⟨origin', others, key', ha', hback', hkey, hexplicit⟩ := hp.noted entry' he'
      rw [hexplicit]
      rcases hback.recurs_or_eq_none hw ha with hrecurs | hnone
      · rcases hback'.recurs_or_eq_none hw ha' with hrecurs' | hnone'
        · exact .inr ⟨hrecurs, others, ⟨entry'.1, origin', key', hsame', hkey, ha', hrecurs'⟩, rfl⟩
        · exact .inl ((hnone' _ _ _ hkey hsame').trans (hnone' _ _ _ hkey hsame').symm)
      · exact .inl ((hnone _ _ _ hsame' hsame').trans (hnone _ _ _ hsame' hsame').symm)

include hw hc unique in
/-- When null is added to the union it has the same discriminator in the end, unless it recurs: then
it may have none. -/
theorem Tagged.settled_nullShape (ht : N.Tagged document p origin entries variants discriminator)
    (h : Canon.settled (variants ++ [nullShape]) discriminator p = .ok found) :
    found = discriminator? p.definitions variants (explicitDiscriminator entries) ∨
      (Recurs document (.mapping origin entries) ∧ found = none) := by
  have hnone : discriminator = none → found = none := by
    rintro rfl
    rcases exists_of_settled h with ⟨rfl, -⟩ | ⟨entry, -, -, rfl⟩
    · rfl
    · exact discriminator?_nullShape _ _ _
  obtain ⟨ha, hlooked | ⟨hdisc, hback, entry, -, hsame⟩⟩ := ht
  · have hfound := hlooked.eq_discriminator? hw hc unique ha
    cases discriminator with
    | some name =>
      cases h
      exact .inl hfound
    | none => exact .inl ((hnone rfl).trans hfound)
  · rcases hback.recurs_or_eq_none hw ha with hrecurs | hall
    · exact .inr ⟨hrecurs, hnone hdisc⟩
    · exact .inl ((hnone hdisc).trans (hall _ _ _ hsame hsame).symm)

end Finished

end Naming

end RouteStubs
