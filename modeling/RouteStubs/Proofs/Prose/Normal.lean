import RouteStubs.Proofs.Margins
import RouteStubs.Proofs.Prose
import RouteStubs.Render.TypesModule

/-!
# The normal form of descriptions

A tag is an opening bracket, something without closing brackets, and a closing bracket. Dropping
tags in one pass leaves none: an opening bracket that stays has a closing one right behind it or
none at all, and so it does when what comes after it loses its own tags and its superfluous blanks.
So a description that has been cleaned is tidy, and the tidy texts are the ones that cleaning leaves
as they are.

## Main definitions

* `Prose.IsTag`: the tags.
* `Prose.Untagged`: no opening bracket starts a tag.
* `Prose.Tidy`: no tags, and no blanks but single spaces inside.

## Main statements

* `Prose.untagged_withoutTags`: one pass drops all tags.
* `Prose.tidy_cleanChars`: a cleaned description is tidy.
* `Prose.cleanChars_eq_self_iff`: the tidy texts are the ones that cleaning leaves as they are.
* `Prose.clean_settles`: cleaning again changes nothing, wherever it is done.
-/

namespace RouteStubs

namespace Text

variable {c : Char} {s t : List Char}

/-! ### Single spaces -/

/-- Whether the text starts with a blank. -/
def startsBlank (s : List Char) : Bool := s.head?.any isBlank

theorem collapse_cons (c : Char) (s : List Char) :
    collapse (c :: s) =
      if isBlank c then if startsBlank s then collapse s else ' ' :: collapse s
      else c :: collapse s := by
  cases s with
  | nil => simp [collapse, startsBlank]
  | cons d s => rfl

theorem startsBlank_collapse (s : List Char) : startsBlank (collapse s) = startsBlank s := by
  induction s with
  | nil => rfl
  | cons c s ih =>
    rw [collapse_cons]
    split
    · next hc =>
      split
      · next hs => rw [ih, hs, startsBlank, List.head?_cons, Option.any_some, hc]
      · rw [startsBlank, startsBlank, List.head?_cons, List.head?_cons, Option.any_some,
          Option.any_some, hc]
        rfl
    · rfl

/-- The blanks in the text are spaces, and no two of them are side by side. -/
inductive Spaced : List Char → Prop
  | nil : Spaced []
  | plain {c : Char} {s : List Char} (h : isBlank c = false) (hs : Spaced s) : Spaced (c :: s)
  | space {s : List Char} (h : startsBlank s = false) (hs : Spaced s) : Spaced (' ' :: s)

theorem spaced_collapse (s : List Char) : Spaced (collapse s) := by
  induction s with
  | nil => exact .nil
  | cons c s ih =>
    rw [collapse_cons]
    split
    · split
      · exact ih
      · next hs => exact .space (by rw [startsBlank_collapse]; exact Bool.not_eq_true _ ▸ hs) ih
    · next hc => exact .plain (Bool.not_eq_true _ ▸ hc) ih

theorem Spaced.collapse_eq (h : Spaced s) : collapse s = s := by
  induction h with
  | nil => rfl
  | plain hc _ ih => rw [collapse_cons, if_neg (by simp [hc]), ih]
  | space hs _ ih => rw [collapse_cons, if_pos (by decide), if_neg (by simp [hs]), ih]

theorem Spaced.of_append_left (h : Spaced (s ++ t)) : Spaced t := by
  induction s with
  | nil => exact h
  | cons c s ih => cases h with
    | plain _ hs => exact ih hs
    | space _ hs => exact ih hs

theorem Spaced.of_append_right (h : Spaced (s ++ t)) : Spaced s := by
  induction s with
  | nil => exact .nil
  | cons c s ih => cases h with
    | plain hc hs => exact .plain hc (ih hs)
    | space hb hs =>
      refine .space ?_ (ih hs)
      cases s with
      | nil => rfl
      | cons d s => exact hb

theorem Spaced.of_isInfix (h : Spaced s) (ht : t <:+: s) : Spaced t := by
  obtain ⟨before, after, rfl⟩ := ht
  exact h.of_append_right.of_append_left

/-- A blank is a space, and neither before it nor after it is there another one. -/
theorem spaced_iff : Spaced s ↔ ∀ before c after, s = before ++ c :: after → isBlank c = true →
    c = ' ' ∧ startsBlank after = false := by
  constructor
  · rintro h before c after rfl hc
    cases h.of_append_left with
    | plain hplain _ => rw [hplain] at hc; cases hc
    | space hafter _ => exact ⟨rfl, hafter⟩
  · intro h
    induction s with
    | nil => exact .nil
    | cons c s ih =>
      have hs : Spaced s := ih fun before d after heq hd =>
        h (c :: before) d after (by rw [heq]; rfl) hd
      cases hc : isBlank c with
      | false => exact .plain hc hs
      | true =>
        obtain ⟨rfl, hafter⟩ := h [] c s rfl hc
        exact .space hafter hs

theorem mem_of_mem_collapse (h : c ∈ collapse s) : c ∈ s ∨ c = ' ' := by
  induction s with
  | nil => cases h
  | cons d s ih =>
    have hrest : c ∈ collapse s → c ∈ d :: s ∨ c = ' ' := fun h =>
      (ih h).imp_left (List.mem_cons_of_mem _)
    rw [collapse_cons] at h
    split at h
    · split at h
      · exact hrest h
      · exact (List.mem_cons.mp h).elim .inr hrest
    · exact (List.mem_cons.mp h).elim (fun h => .inl (h ▸ List.mem_cons_self)) hrest

/-- A text without blanks at its ends is stripped. -/
theorem strip_eq_self_iff :
    strip s = s ↔ s = [] ∨ ∃ core c, s = core ++ [c] ∧ Solid core c := by
  constructor
  · intro h
    rcases exists_strip s with hblank | ⟨blank, core, c, r, rfl, hblank, hsolid, hr⟩
    · rw [strip_eq_nil hblank] at h
      exact .inl h.symm
    · rw [strip_append hblank hsolid hr] at h
      exact .inr ⟨core, c, h.symm, hsolid⟩
  · rintro (rfl | ⟨core, c, rfl, hsolid⟩)
    · rfl
    · have hnone : isBlankText [] = true := rfl
      exact strip_append hnone hsolid hnone

end Text

namespace Prose

open Text

variable {c : Char} {s t part : List Char}

/-! ### Tags -/

/-- The text is a tag. -/
def IsTag (part : List Char) : Prop :=
  ∃ inner, inner ≠ [] ∧ '>' ∉ inner ∧ part = '<' :: (inner ++ ['>'])

/-- No opening bracket in the text starts a tag. -/
inductive Untagged : List Char → Prop
  | nil : Untagged []
  | cons {c : Char} {s : List Char} (h : c = '<' → tagLength? s = none) (hs : Untagged s) :
      Untagged (c :: s)

/-- An opening bracket starts no tag if a closing one comes next or none at all. -/
theorem tagLength?_eq_none_iff : tagLength? s = none ↔ s.head? = some '>' ∨ '>' ∉ s := by
  cases s with
  | nil => simp [tagLength?]
  | cons c s =>
    by_cases hc : c = '>'
    · simp [tagLength?, hc]
    · have hlength : ((c :: s).takeWhile (· != '>')).length = (c :: s).length ↔ '>' ∉ c :: s := by
        constructor
        · intro h hmem
          have hall := List.takeWhile_eq_self_iff.mp ((List.takeWhile_prefix _).eq_of_length h)
          simpa using hall '>' hmem
        · intro h
          rw [List.takeWhile_eq_self_iff.mpr]
          intro d hd
          rw [bne_iff_ne]
          rintro rfl
          exact h hd
      have hne : ((c :: s).takeWhile (· != '>')).isEmpty = false := by simp [hc]
      unfold tagLength?
      simp only [hne, Bool.false_or, beq_iff_eq, hlength]
      simp [hc]

theorem Untagged.of_append_left (h : Untagged (s ++ t)) : Untagged t := by
  induction s with
  | nil => exact h
  | cons c s ih => cases h with
    | cons _ hs => exact ih hs

theorem Untagged.of_append_right (h : Untagged (s ++ t)) : Untagged s := by
  induction s with
  | nil => exact .nil
  | cons c s ih => cases h with
    | cons hc hs =>
      refine .cons (fun heq => ?_) (ih hs)
      rw [tagLength?_eq_none_iff] at hc ⊢
      rcases hc heq with hhead | hnone
      · cases s with
        | nil => exact .inr List.not_mem_nil
        | cons d s => exact .inl hhead
      · exact .inr fun hmem => hnone (List.mem_append_left _ hmem)

theorem Untagged.of_isInfix (h : Untagged s) (ht : t <:+: s) : Untagged t := by
  obtain ⟨before, after, rfl⟩ := ht
  exact h.of_append_right.of_append_left

/-- No opening bracket starts a tag exactly if no part of the text is one. -/
theorem untagged_iff : Untagged s ↔ ∀ part, part <:+: s → ¬ IsTag part := by
  constructor
  · rintro h part hpart ⟨inner, hne, hinner, rfl⟩
    cases h.of_isInfix hpart with
    | cons htag _ =>
      rcases tagLength?_eq_none_iff.mp (htag rfl) with hhead | hnone
      · obtain ⟨c, inner, rfl⟩ := List.exists_cons_of_ne_nil hne
        obtain rfl : c = '>' := Option.some.inj hhead
        exact hinner List.mem_cons_self
      · exact hnone (List.mem_append_right _ (List.mem_singleton_self _))
  · intro h
    induction s with
    | nil => exact .nil
    | cons c s ih =>
      refine .cons ?_ (ih fun part hpart => h part (hpart.trans (List.suffix_cons c s).isInfix))
      rintro rfl
      by_contra hsome
      rw [tagLength?_eq_none_iff, not_or, not_not] at hsome
      -- what stands before the first closing bracket makes a tag
      obtain ⟨inner, after, rfl, hinner⟩ := List.eq_append_cons_of_mem hsome.2
      refine h ('<' :: (inner ++ ['>'])) ⟨[], after, by simp⟩ ⟨inner, ?_, hinner, rfl⟩
      rintro rfl
      exact hsome.1 rfl

/-! ### One pass -/

theorem mem_of_mem_dropTags {skip : Nat} (h : c ∈ dropTags skip s) : c ∈ s := by
  induction s generalizing skip with
  | nil => cases skip <;> cases h
  | cons d s ih =>
    cases skip with
    | succ skip => exact List.mem_cons_of_mem _ (ih h)
    | zero =>
      have hkept : c ∈ d :: dropTags 0 s → c ∈ d :: s := fun h =>
        (List.mem_cons.mp h).elim (fun h => h ▸ List.mem_cons_self) fun h =>
          List.mem_cons_of_mem _ (ih h)
      rw [dropTags] at h
      split at h
      · split at h
        · exact List.mem_cons_of_mem _ (ih h)
        · exact hkept h
      · exact hkept h

/-- A closing bracket is kept where no tag is open. -/
theorem dropTags_cons_of_ne (h : c ≠ '<') : dropTags 0 (c :: s) = c :: dropTags 0 s := by
  rw [dropTags, if_neg h]

/-- What starts no tag starts none when the tags after it have been dropped. -/
theorem tagLength?_dropTags (h : tagLength? s = none) : tagLength? (dropTags 0 s) = none := by
  rw [tagLength?_eq_none_iff] at h ⊢
  rcases h with hhead | hnone
  · obtain ⟨rest, rfl⟩ := List.head?_eq_some_iff.mp hhead
    rw [dropTags_cons_of_ne (by decide)]
    exact .inl rfl
  · exact .inr fun hmem => hnone (mem_of_mem_dropTags hmem)

/-- One pass drops all tags, whatever has been skipped before. -/
theorem untagged_dropTags (skip : Nat) (s : List Char) : Untagged (dropTags skip s) := by
  induction s generalizing skip with
  | nil => cases skip <;> exact .nil
  | cons c s ih =>
    cases skip with
    | succ skip => exact ih skip
    | zero =>
      rw [dropTags]
      split
      · split
        · exact ih _
        · next hnone => exact .cons (fun _ => tagLength?_dropTags hnone) (ih 0)
      · next hc => exact .cons (fun h => absurd h hc) (ih 0)

theorem untagged_withoutTags (s : List Char) : Untagged (withoutTags s) := untagged_dropTags 0 s

theorem Untagged.withoutTags_eq (h : Untagged s) : withoutTags s = s := by
  unfold withoutTags
  induction h with
  | nil => rfl
  | @cons c s hc _ ih =>
    rw [dropTags, ih]
    split
    · next heq => rw [hc heq]
    · rfl

/-! ### Collapsing keeps texts untagged -/

theorem tagLength?_collapse (h : tagLength? s = none) : tagLength? (collapse s) = none := by
  rw [tagLength?_eq_none_iff] at h ⊢
  rcases h with hhead | hnone
  · obtain ⟨rest, rfl⟩ := List.head?_eq_some_iff.mp hhead
    exact .inl rfl
  · refine .inr fun hmem => ?_
    rcases mem_of_mem_collapse hmem with hmem | h
    · exact hnone hmem
    · exact absurd h (by decide)

theorem Untagged.collapse (h : Untagged s) : Untagged (Text.collapse s) := by
  induction h with
  | nil => exact .nil
  | @cons c s hc _ ih =>
    rw [collapse_cons]
    split
    · split
      · exact ih
      · exact .cons (fun h => absurd h (by decide)) ih
    · exact .cons (fun heq => tagLength?_collapse (hc heq)) ih

/-! ### Tidy texts -/

/-- The text has no tags in it, and each blank in it is a single space between two characters that
are no blanks. -/
structure Tidy (s : List Char) : Prop where
  untagged : ∀ part, part <:+: s → ¬ IsTag part
  spaced : ∀ before c after, s = before ++ c :: after → isBlank c = true → c = ' ' ∧
    (∃ b, before.getLast? = some b ∧ isBlank b = false) ∧
    ∃ a, after.head? = some a ∧ isBlank a = false

/-- A text is tidy if none of the three steps of cleaning has anything to do. -/
theorem tidy_iff : Tidy s ↔ Untagged s ∧ Spaced s ∧ strip s = s := by
  constructor
  · intro h
    refine ⟨untagged_iff.mpr h.untagged, spaced_iff.mpr fun before c after heq hc => ?_,
      strip_eq_self_iff.mpr ?_⟩
    · obtain ⟨hspace, -, a, ha, hb⟩ := h.spaced before c after heq hc
      exact ⟨hspace, by rw [startsBlank, ha, Option.any_some, hb]⟩
    · rcases List.eq_nil_or_concat' s with rfl | ⟨core, c, rfl⟩
      · exact .inl rfl
      · refine .inr ⟨core, c, rfl, ?_, ?_⟩
        · by_contra hc
          obtain ⟨-, -, a, ha, -⟩ := h.spaced core c [] rfl (Bool.not_eq_false _ ▸ hc)
          cases ha
        · have hne : core ++ [c] ≠ [] := by simp
          obtain ⟨a, y, heq⟩ := List.exists_cons_of_ne_nil hne
          refine ⟨a, y, ?_, heq⟩
          by_contra ha
          obtain ⟨-, ⟨b, hb, -⟩, -⟩ := h.spaced [] a y heq (Bool.not_eq_false _ ▸ ha)
          cases hb
  · rintro ⟨htags, hspaced, hstrip⟩
    refine ⟨untagged_iff.mp htags, ?_⟩
    rintro before c after rfl hc
    obtain ⟨hspace, hafter⟩ := spaced_iff.mp hspaced before c after rfl hc
    -- there is something on both sides, as there are no blanks at the ends
    obtain ⟨core, d, hlast, hsolid⟩ : ∃ core d, before ++ c :: after = core ++ [d] ∧ Solid core d :=
      (strip_eq_self_iff.mp hstrip).resolve_left (by simp)
    refine ⟨hspace, ?_, ?_⟩
    · rcases List.eq_nil_or_concat' before with rfl | ⟨front, b, rfl⟩
      · obtain ⟨a, y, ha, heq⟩ := hsolid.first
        rw [← hlast] at heq
        rw [(List.cons.inj heq).1, ha] at hc
        cases hc
      · refine ⟨b, by simp, ?_⟩
        by_contra hb
        have hnext := (spaced_iff.mp hspaced front b (c :: after) (by simp)
          (Bool.not_eq_false _ ▸ hb)).2
        rw [startsBlank, List.head?_cons, Option.any_some, hc] at hnext
        cases hnext
    · cases after with
      | nil =>
        obtain rfl : c = d := (List.cons.inj (List.append_inj' hlast rfl).2).1
        rw [hsolid.last] at hc
        cases hc
      | cons a after => exact ⟨a, rfl, hafter⟩

/-- A cleaned description is tidy. -/
theorem tidy_cleanChars (s : List Char) : Tidy (cleanChars s) := by
  have hwithin : cleanChars s <:+: Text.collapse (withoutTags s) := strip_within _
  refine tidy_iff.mpr ⟨(untagged_withoutTags s).collapse.of_isInfix hwithin,
    (spaced_collapse _).of_isInfix hwithin, strip_eq_self_iff.mpr ?_⟩
  rcases exists_strip (Text.collapse (withoutTags s)) with
    hblank | ⟨blank, core, c, r, heq, hblank, hsolid, hr⟩
  · exact .inl (strip_eq_nil hblank)
  · exact .inr ⟨core, c, by rw [cleanChars, heq, strip_append hblank hsolid hr], hsolid⟩

/-- The tidy texts are the ones that cleaning leaves as they are. -/
theorem cleanChars_eq_self_iff : cleanChars s = s ↔ Tidy s := by
  constructor
  · intro h
    exact h ▸ tidy_cleanChars s
  · intro h
    obtain ⟨htags, hspaced, hstrip⟩ := tidy_iff.mp h
    rw [cleanChars, htags.withoutTags_eq, hspaced.collapse_eq, hstrip]

theorem tidy_clean (s : String) : Tidy (clean s).toList := by
  rw [clean, onChars, String.toList_ofList]
  exact tidy_cleanChars _

theorem clean_eq_self_iff {s : String} : clean s = s ↔ Tidy s.toList := by
  rw [← cleanChars_eq_self_iff, clean, onChars, ← String.toList_inj, String.toList_ofList]

theorem clean_clean (s : String) : clean (clean s) = clean s := clean_eq_self_iff.mpr (tidy_clean s)

/-! ### Cleaning again -/

theorem ofMember_eq_ok {entries : Entries} {key d : String} (h : ofMember entries key = .ok d) :
    d = "" ∨ ∃ s, d = clean s := by
  unfold ofMember ofValue at h
  split at h
  · split at h
    · next s _ => exact .inr ⟨s, (Except.ok.inj h).symm⟩
    · split at h
      · cases h
      · exact .inl (Except.ok.inj h).symm
  · exact .inl (Except.ok.inj h).symm

/-- What is read as a description from a mapping is tidy. -/
theorem tidy_of_ofMember {entries : Entries} {key d : String} (h : ofMember entries key = .ok d) :
    Tidy d.toList := by
  rcases ofMember_eq_ok h with rfl | ⟨s, rfl⟩
  · exact clean_eq_self_iff.mp (by decide)
  · exact tidy_clean s

theorem docstring_clean (s : String) : docstring (clean s) = docstring s := by
  have hclean : (clean s).toList = cleanChars s.toList := by
    rw [clean, onChars, String.toList_ofList]
  rw [docstring, docstring, onChars, onChars, docstringChars, docstringChars, hclean,
    cleanChars_eq_self_iff.mpr (tidy_cleanChars _)]

/-- Cleaning settles at once: a cleaned description has no tags in it and no blanks but single
spaces inside, so that cleaning it again changes nothing. That is so where it is made ready for a
docstring and where it is read from a mapping once more; and whatever has been read as a description
is written as it is where a field has it. -/
theorem clean_settles (s : String) :
    Tidy (clean s).toList ∧ clean (clean s) = clean s ∧ docstring (clean s) = docstring s ∧
    (∀ (entries : Entries) key, entries.text? key = some (.text (clean s)) →
      ofMember entries key = .ok (clean s)) ∧
    ∀ (entries : Entries) key description, ofMember entries key = .ok description →
      Tidy description.toList ∧ clean description = description ∧
      ∀ quoteRefs (f : Field Shape), f.description = description →
        (TypesModule.fieldText quoteRefs f).comment = description := by
  refine ⟨tidy_clean s, clean_clean s, docstring_clean s, fun entries key hkey => ?_,
    fun entries key description hread => ?_⟩
  · rw [ofMember, hkey]
    exact congrArg Except.ok (clean_clean s)
  · have htidy := tidy_of_ofMember hread
    refine ⟨htidy, clean_eq_self_iff.mpr htidy, fun quoteRefs f hf => ?_⟩
    rw [TypesModule.fieldText, hf, clean_eq_self_iff.mpr htidy]

/-- A description in which some brackets make tags and others do not. -/
def bracketed : String := " 1 <\n2 <b>and</b>\t <> <<i> 3 >  2 < "

theorem clean_settles_bracketed :
    clean bracketed = "1 and <> 3 > 2 <" ∧
    ofMember [(.text "description", .text bracketed)] "description" = .ok "1 and <> 3 > 2 <" ∧
    ∀ f : Field Shape, f.description = "1 and <> 3 > 2 <" →
      (TypesModule.fieldText false f).comment = f.description := by
  have hread : ofMember [(.text "description", .text bracketed)] "description" =
      .ok "1 and <> 3 > 2 <" := by decide
  obtain ⟨-, -, -, -, hsettled⟩ := clean_settles bracketed
  exact ⟨by decide, hread, fun f hf => hf ▸ (hsettled _ _ _ hread).2.2 false f hf⟩

end Prose

end RouteStubs
