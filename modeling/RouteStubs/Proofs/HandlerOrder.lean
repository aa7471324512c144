import RouteStubs.Proofs.HandlerName

/-!
# Names of handlers, one after the other

Handlers are named in the order of their operations. What a handler is called depends on those
before it and on none after it, so operations that are added at the end rename nothing. A name that is
asked for once, and is not reserved, is kept unless a handler before it has come to it with a method or
a number added; then it is the later one that gets a number.

## Main definitions

* `HandlerName.Suffixed`: names that a pair of a name and a method leads to when the name is taken.

## Main statements

* `HandlerName.distinct_append`: what the handlers of a longer list are called.
* `HandlerName.distinct_prefix`: the handlers of a list keep their names in a longer one.
* `HandlerName.given_distinct`: each handler has the name it asks for, or that name with something
  added.
* `HandlerName.isSegmentChar_of_mem_distinct`: the characters of distinct names of handlers.
* `HandlerName.distinct_keeps_iff`: which names that are asked for once are kept.
-/

namespace RouteStubs

theorem Name.fresh_eq_self_iff {base : String} {taken : List String} :
    fresh base taken = base ↔ base ∉ taken := by
  constructor
  · intro h
    rw [← h]
    exact fresh_notMem base taken
  · intro h
    rw [fresh, if_neg (by simpa using h)]

namespace HandlerName

variable {name method : String} {names taken seen : List String} {pairs : List (String × String)}

/-! ### Longer lists -/

/-- Of the names that have been seen it counts only which they are. -/
theorem withMethods_congr {others : List String} (h : ∀ name, name ∈ seen ↔ name ∈ others) :
    withMethods seen pairs = withMethods others pairs := by
  induction pairs generalizing seen others with
  | nil => rfl
  | cons first rest ih =>
    obtain ⟨name, method⟩ := first
    by_cases hname : name ∈ seen
    · have hother : name ∈ others := (h name).mp hname
      rw [withMethods, withMethods, if_pos (by simpa using hname), if_pos (by simpa using hother),
        ih h]
    · have hother : name ∉ others := fun hm => hname ((h name).mpr hm)
      have hcons : ∀ other, other ∈ name :: seen ↔ other ∈ name :: others := by
        intro other
        rw [List.mem_cons, List.mem_cons, h]
      rw [withMethods, withMethods, if_neg (by simpa using hname), if_neg (by simpa using hother),
        ih hcons]

theorem withMethods_append (seen : List String) (before after : List (String × String)) :
    withMethods seen (before ++ after) =
      withMethods seen before ++ withMethods (before.map Prod.fst ++ seen) after := by
  induction before generalizing seen with
  | nil => rfl
  | cons first rest ih =>
    obtain ⟨name, method⟩ := first
    rw [List.cons_append, withMethods, withMethods]
    split
    · next hname =>
      -- the name counts as seen already
      rw [ih, List.cons_append]
      congr 2
      apply withMethods_congr
      intro other
      have hseen : name ∈ seen := by simpa using hname
      simp only [List.map_cons, List.cons_append, List.mem_cons, List.mem_append]
      constructor
      · exact .inr
      · rintro (rfl | h)
        · exact .inr hseen
        · exact h
    · rw [ih, List.cons_append]
      congr 2
      apply withMethods_congr
      intro other
      simp only [List.map_cons, List.cons_append, List.mem_cons, List.mem_append]
      exact or_left_comm

theorem numbered_append (taken before after : List String) :
    numbered taken (before ++ after) =
      numbered taken before ++ numbered ((numbered taken before).reverse ++ taken) after := by
  induction before generalizing taken with
  | nil => rfl
  | cons first rest ih =>
    rw [List.cons_append, numbered, numbered, ih, List.cons_append, List.reverse_cons,
      List.append_assoc]
    rfl

/-- The handlers of a longer list: those of its front, and the others with these taken. -/
theorem distinct_append (before after : List (String × String)) :
    distinct (before ++ after) = distinct before ++
      numbered ((distinct before).reverse ++ reserved)
        (withMethods (before.map Prod.fst ++ reserved) after) := by
  rw [distinct, withMethods_append, numbered_append]
  rfl

/-- Handlers keep their names when operations are added at the end. -/
theorem distinct_prefix (before after : List (String × String)) :
    distinct before <+: distinct (before ++ after) :=
  ⟨_, (distinct_append before after).symm⟩

/-! ### Names that are kept -/

/-- The names that a name with a method leads to when the name is taken: with the method added, with
a number added, or with both. -/
def Suffixed (pair : String × String) (name : String) : Prop :=
  name = pair.1 ++ "_" ++ pair.2 ∨
    ∃ k, name = Name.numbered pair.1 k ∨ name = Name.numbered (pair.1 ++ "_" ++ pair.2) k

theorem eq_or_exists_of_fresh (base : String) (taken : List String) :
    Name.fresh base taken = base ∨ ∃ k, Name.fresh base taken = Name.numbered base k := by
  unfold Name.fresh
  split
  · exact .inr ⟨_, rfl⟩
  · exact .inl rfl

/-- Each handler has the name it asks for, or that name with something added. -/
theorem given_numbered (taken seen : List String) (pairs : List (String × String)) :
    List.Forall₂ (fun pair name => name = pair.1 ∨ Suffixed pair name) pairs
      (numbered taken (withMethods seen pairs)) := by
  induction pairs generalizing taken seen with
  | nil => exact .nil
  | cons first rest ih =>
    obtain ⟨name, method⟩ := first
    rw [withMethods]
    split
    · rw [numbered]
      refine .cons (.inr ?_) (ih _ _)
      rcases eq_or_exists_of_fresh (name ++ "_" ++ method) taken with h | ⟨k, h⟩
      · exact .inl h
      · exact .inr ⟨k, .inr h⟩
    · rw [numbered]
      refine .cons ?_ (ih _ _)
      rcases eq_or_exists_of_fresh name taken with h | ⟨k, h⟩
      · exact .inl h
      · exact .inr (.inr ⟨k, .inl h⟩)

theorem given_distinct (pairs : List (String × String)) :
    List.Forall₂ (fun pair name => name = pair.1 ∨ Suffixed pair name) pairs (distinct pairs) :=
  given_numbered _ _ _

theorem exists_of_getElem?_distinct {j : Nat} (h : (distinct pairs)[j]? = some name) :
    ∃ pair, pairs[j]? = some pair ∧ (name = pair.1 ∨ Suffixed pair name) := by
  obtain ⟨hj, hget⟩ := List.getElem?_eq_some_iff.mp h
  have hlt : j < pairs.length := length_distinct pairs ▸ hj
  refine ⟨pairs[j], List.getElem?_eq_getElem hlt, ?_⟩
  rw [← hget]
  exact (given_distinct pairs).get hlt hj

theorem exists_of_mem_distinct (h : name ∈ distinct pairs) :
    ∃ pair ∈ pairs, name = pair.1 ∨ Suffixed pair name := by
  obtain ⟨j, hj⟩ := List.mem_iff_getElem?.mp h
  obtain ⟨pair, hpair, hgiven⟩ := exists_of_getElem?_distinct hj
  exact ⟨pair, List.mem_of_getElem? hpair, hgiven⟩

/-- The names of handlers are made of small letters, digits and underscores, as long as the names that
are asked for and the methods are. -/
theorem isSegmentChar_of_mem_distinct
    (h : ∀ pair ∈ pairs, (∀ c ∈ pair.1.toList, Name.isSegmentChar c = true) ∧
      ∀ c ∈ pair.2.toList, Name.isSegmentChar c = true) :
    ∀ name ∈ distinct pairs, ∀ c ∈ name.toList, Name.isSegmentChar c = true := by
  intro name hname
  obtain ⟨⟨base, method⟩, hpair, hgiven⟩ := exists_of_mem_distinct hname
  obtain ⟨hbase, hmethod⟩ := h _ hpair
  have hadded : ∀ c ∈ (base ++ "_" ++ method).toList, Name.isSegmentChar c = true := by
    rw [String.toList_append, String.toList_append, List.forall_mem_append, List.forall_mem_append]
    exact ⟨⟨hbase, List.all_eq_true.mp (by decide)⟩, hmethod⟩
  rcases hgiven with rfl | rfl | ⟨k, rfl | rfl⟩
  · exact hbase
  · exact hadded
  · exact Name.isSegmentChar_numbered hbase k
  · exact Name.isSegmentChar_numbered hadded k

/-- A name that nobody before asks for is kept unless a handler before has got it. -/
theorem distinct_middle_iff {before after : List (String × String)}
    (hp : pairs = before ++ (name, method) :: after) (hb : name ∉ before.map Prod.fst)
    (hr : name ∉ reserved) :
    (distinct pairs)[before.length]? = some name ↔ name ∉ distinct before := by
  have hseen : name ∉ before.map Prod.fst ++ reserved := by
    rw [List.mem_append, not_or]
    exact ⟨hb, hr⟩
  rw [hp, distinct_append, ← length_distinct before, List.getElem?_append_right (Nat.le_refl _),
    Nat.sub_self, withMethods, if_neg (by simpa using hseen), numbered, List.getElem?_cons_zero,
    Option.some_inj, Name.fresh_eq_self_iff, List.mem_append, List.mem_reverse]
  simp only [hr, or_false]

/-- The handlers before a place are those of the pairs before it. -/
theorem mem_distinct_take_iff {i : Nat} (hi : i ≤ pairs.length) :
    name ∈ distinct (pairs.take i) ↔ ∃ j < i, (distinct pairs)[j]? = some name := by
  obtain ⟨later, hlater⟩ := distinct_prefix (pairs.take i) (pairs.drop i)
  rw [List.take_append_drop] at hlater
  have hlen : (distinct (pairs.take i)).length = i := by
    rw [length_distinct, List.length_take, Nat.min_eq_left hi]
  have hget : ∀ j < i, (distinct pairs)[j]? = (distinct (pairs.take i))[j]? := by
    intro j hj
    rw [← hlater, List.getElem?_append_left (by omega)]
  rw [List.mem_iff_getElem?]
  constructor
  · rintro ⟨j, hj⟩
    have hlt : j < i := hlen ▸ (List.getElem?_eq_some_iff.mp hj).1
    exact ⟨j, hlt, by rw [hget j hlt, hj]⟩
  · rintro ⟨j, hlt, hj⟩
    exact ⟨j, by rw [← hget j hlt, hj]⟩

/-- A name that is asked for once, and is not reserved, is kept exactly when no handler before has got
it, and one that has got it had something added to the name that it asks for. -/
theorem distinct_keeps_iff {i : Nat} (hi : pairs[i]? = some (name, method))
    (honce : (pairs.map Prod.fst).count name = 1) (hr : name ∉ reserved) :
    ((distinct pairs)[i]? = some name ↔ ∀ j < i, (distinct pairs)[j]? ≠ some name) ∧
      ∀ j < i, (distinct pairs)[j]? = some name →
        ∃ pair, pairs[j]? = some pair ∧ Suffixed pair name := by
  obtain ⟨hlt, hget⟩ := List.getElem?_eq_some_iff.mp hi
  have hsplit : pairs = pairs.take i ++ (name, method) :: pairs.drop (i + 1) := by
    rw [← hget, List.getElem_cons_drop, List.take_append_drop]
  have hlen : (pairs.take i).length = i := by
    rw [List.length_take, Nat.min_eq_left (Nat.le_of_lt hlt)]
  -- the one that asks for the name is the one at this place
  have hb : name ∉ (pairs.take i).map Prod.fst := by
    rw [hsplit, List.map_append, List.map_cons, List.count_append, List.count_cons_self] at honce
    rw [← List.count_eq_zero]
    omega
  constructor
  · have hmiddle := distinct_middle_iff hsplit hb hr
    rw [hlen] at hmiddle
    rw [hmiddle, mem_distinct_take_iff (Nat.le_of_lt hlt)]
    simp only [not_exists, not_and, ne_eq]
  · intro j hj hname
    obtain ⟨pair, hpair, hgiven⟩ := exists_of_getElem?_distinct hname
    refine ⟨pair, hpair, hgiven.resolve_left ?_⟩
    rintro rfl
    apply hb
    rw [List.mem_map]
    refine ⟨pair, List.mem_iff_getElem?.mpr ⟨j, ?_⟩, rfl⟩
    rw [List.getElem?_take_of_lt hj, hpair]

/-- In the list of a word asked for twice and of another one, the other is kept. -/
theorem distinct_keeps_iff_other :
    ((distinct [("a", "get"), ("a", "post"), ("b", "get")])[2]? = some "b" ↔
      ∀ j < 2, (distinct [("a", "get"), ("a", "post"), ("b", "get")])[j]? ≠ some "b") ∧
      ∀ j < 2, (distinct [("a", "get"), ("a", "post"), ("b", "get")])[j]? = some "b" →
        ∃ pair, [("a", "get"), ("a", "post"), ("b", "get")][j]? = some pair ∧ Suffixed pair "b" :=
  distinct_keeps_iff rfl (by decide) (by decide)

/-- Not every name that is asked for once is kept: here the second handler comes to it first. -/
theorem not_distinct_keeps : ¬ ∀ (pairs : List (String × String)) (i : Nat) (name method : String),
    pairs[i]? = some (name, method) → (pairs.map Prod.fst).count name = 1 → name ∉ reserved →
      (distinct pairs)[i]? = some name := by
  intro h
  have hkept := h [("a", "get"), ("a", "post"), ("a_post", "get")] 2 "a_post" "get" rfl (by decide)
    (by decide)
  revert hkept
  decide +kernel

end HandlerName

end RouteStubs
