import Mathlib.Data.List.Induction
import RouteStubs.Name.Operation
import RouteStubs.Proofs.SegmentName

/-!
# Words and their plurals

A plural is made by the ending of the word, and it is taken apart by its own ending. That does not
always tell the word. The `ies` of `movies` is an `ie` with an `s`, but it is taken for a `y` that
became `ies`. The `es` of `axes` is a silent `e` with an `s`, but it is taken for the `es` of words
that end in a hissing sound. Words with such an ending do not come back from their plurals. All
other words do, and with them the names of the operations on a collection: its path has the plural,
and the names have the word.

## Main definitions

* `Name.Plural`: the forms of a plural.
* `Name.Misread`: the words whose plurals are taken for those of others.
* `Name.resourceWords`, `Name.isMember`, `Name.verbFor`: what the name of an operation is made from.

## Main statements

* `Name.Plural.singularizeChars_eq_self_iff`: the words that come back from their plurals.
* `Name.ofOperation_of_resource`: the name of an operation on a resource of one word.
* `Name.inflection_returns_iff`: the words that come back, alone and in names of operations.
-/

namespace RouteStubs.Name

open Text

variable {v w p : List Char}

/-! ### Endings -/

theorem endsInOneOf_iff {endings : List String} :
    endsInOneOf endings w ↔ ∃ ending ∈ endings, ending.toList <:+ w := by
  rw [endsInOneOf, List.any_eq_true]
  simp only [List.isSuffixOf_iff_suffix]

/-- Endings are compared from the last letter on. -/
theorem endsInOneOf_eq (endings : List String) (w : List Char) :
    endsInOneOf endings w =
      endings.any fun ending => ending.toList.reverse.isPrefixOf w.reverse := rfl

theorem endsInOneOf_cons (ending : String) (endings : List String) :
    endsInOneOf (ending :: endings) w ↔ endsInOneOf [ending] w ∨ endsInOneOf endings w := by
  simp [endsInOneOf]

theorem endsInOneOf_subset {endings others : List String} (hsub : endings ⊆ others)
    (h : endsInOneOf endings w) : endsInOneOf others w := by
  obtain ⟨ending, hmem, hw⟩ := endsInOneOf_iff.mp h
  exact endsInOneOf_iff.mpr ⟨ending, hsub hmem, hw⟩

theorem endsInOneOf_s_iff : endsInOneOf ["s"] w ↔ w.getLast? = some 's' := by
  cases w using List.reverseRecOn with
  | nil => decide
  | append_singleton v c =>
    rw [List.getLast?_concat, Option.some_inj]
    simpa [endsInOneOf_eq] using eq_comm

/-! ### The plural -/

/-- The forms of the plural of a word that does not end in `s`. -/
inductive Plural : List Char → List Char → Prop
  /-- A `y` becomes `ies`. -/
  | consonantY (v : List Char) : Plural (v ++ ['y']) (v ++ ['i', 'e', 's'])
  /-- After a hissing sound there is an `e` before the `s`. -/
  | hissing {w : List Char} (h : endsInOneOf ["sh", "ch", "x", "z"] w) : Plural w (w ++ ['e', 's'])
  /-- Other words only get an `s`. -/
  | plain {w : List Char} (h : ¬ endsInOneOf ["s", "sh", "ch", "x", "z"] w) : Plural w (w ++ ['s'])

theorem exists_of_endsInConsonantY (h : endsInConsonantY w.reverse = true) :
    ∃ v, w = v ++ ['y'] := by
  suffices hr : ∃ r, w.reverse = 'y' :: r by
    obtain ⟨r, hr⟩ := hr
    exact ⟨r.reverse, by rw [← List.reverse_cons, ← hr, List.reverse_reverse]⟩
  unfold endsInConsonantY at h
  split at h
  · next heq => exact ⟨_, heq⟩
  · next heq => exact ⟨_, heq⟩
  · cases h

theorem plural_pluralizeChars (hs : ¬ endsInOneOf ["s"] w) : Plural w (pluralizeChars w) := by
  rw [pluralizeChars, if_neg hs]
  split
  · next hy =>
    obtain ⟨v, rfl⟩ := exists_of_endsInConsonantY hy
    rw [List.dropLast_concat]
    exact .consonantY v
  · split
    · next hh => exact .hissing hh
    · next hh => exact .plain (by rw [endsInOneOf_cons, not_or]; exact ⟨hs, hh⟩)

/-- A plural is the front of the word and an ending in `s`. -/
theorem Plural.exists_ending (h : Plural w p) :
    ∃ v ending, p = v ++ ending ∧ v <+: w ∧ (∀ c ∈ ending, isSmall c = true) ∧
      ending.getLast? = some 's' := by
  cases h with
  | consonantY v => exact ⟨v, _, rfl, List.prefix_append v _, List.all_eq_true.mp rfl, rfl⟩
  | hissing => exact ⟨w, _, rfl, List.prefix_refl w, List.all_eq_true.mp rfl, rfl⟩
  | plain => exact ⟨w, _, rfl, List.prefix_refl w, List.all_eq_true.mp rfl, rfl⟩

theorem getLast?_pluralizeChars (w : List Char) : (pluralizeChars w).getLast? = some 's' := by
  by_cases hs : endsInOneOf ["s"] w
  · rw [pluralizeChars, if_pos hs]
    exact endsInOneOf_s_iff.mp hs
  · obtain ⟨v, ending, hp, -, -, hlast⟩ := (plural_pluralizeChars hs).exists_ending
    rw [hp, List.getLast?_append, hlast]
    rfl

theorem toList_pluralize (w : String) : (pluralize w).toList = pluralizeChars w.toList := by
  rw [pluralize, onChars, String.toList_ofList]

/-- A plural is its own plural. -/
theorem pluralize_pluralize (w : String) : pluralize (pluralize w) = pluralize w := by
  have hs : endsInOneOf ["s"] (pluralize w).toList := by
    rw [endsInOneOf_s_iff, toList_pluralize, getLast?_pluralizeChars]
  rw [← String.toList_inj, toList_pluralize (pluralize w), pluralizeChars, if_pos hs]

/-! ### The singular of a plural -/

theorem singularizeChars_ies (v : List Char) :
    singularizeChars (v ++ ['i', 'e', 's']) = v ++ ['y'] := by
  simp [singularizeChars, endsInOneOf_eq]

theorem singularizeChars_es (hi : ¬ endsInOneOf ["i"] v) :
    singularizeChars (v ++ ['e', 's']) =
      if endsInOneOf ["sh", "ch", "x", "z", "ss"] v then v else v ++ ['e'] := by
  have hies : ¬ endsInOneOf ["ies"] (v ++ ['e', 's']) := by simpa [endsInOneOf_eq] using hi
  have hsounds : endsInOneOf ["shes", "ches", "xes", "zes", "sses"] (v ++ ['e', 's']) =
      endsInOneOf ["sh", "ch", "x", "z", "ss"] v := by
    simp [endsInOneOf_eq]
  have hs : endsInOneOf ["s"] (v ++ ['e', 's']) && !endsInOneOf ["ss"] (v ++ ['e', 's']) := by
    simp [endsInOneOf_eq, List.isPrefixOf]
  rw [singularizeChars, if_neg hies, hsounds, if_pos hs]
  split
  · simp
  · simp

theorem singularizeChars_s (h : ¬ endsInOneOf ["e", "s"] w) :
    singularizeChars (w ++ ['s']) = w := by
  cases w using List.reverseRecOn with
  | nil => decide
  | append_singleton v c =>
    have hc : 'e' ≠ c ∧ 's' ≠ c := by simpa [endsInOneOf_eq] using h
    simp [singularizeChars, endsInOneOf_eq, List.isPrefixOf, hc]

/-- The endings of words whose plurals are taken for those of others. -/
def misreadEndings : List String := ["ie", "she", "che", "xe", "ze", "sse"]

theorem endsInOneOf_misreadEndings (v : List Char) :
    endsInOneOf misreadEndings (v ++ ['e']) = endsInOneOf ["i", "sh", "ch", "x", "z", "ss"] v := by
  simp [endsInOneOf_eq, misreadEndings]

theorem not_endsInOneOf_misreadEndings (h : ¬ endsInOneOf ["e"] w) :
    ¬ endsInOneOf misreadEndings w := by
  cases w using List.reverseRecOn with
  | nil => decide
  | append_singleton v c =>
    have hc : 'e' ≠ c := by simpa [endsInOneOf_eq] using h
    simp [endsInOneOf_eq, misreadEndings, hc]

theorem not_endsInOneOf_of_hissing (h : endsInOneOf ["sh", "ch", "x", "z"] w) :
    ¬ endsInOneOf ["e"] w ∧ ¬ endsInOneOf ["i"] w := by
  obtain ⟨ending, hending, v, rfl⟩ := endsInOneOf_iff.mp h
  simp only [List.mem_cons, List.not_mem_nil, or_false] at hending
  rcases hending with rfl | rfl | rfl | rfl <;> simp [endsInOneOf_eq]

theorem Plural.singularizeChars_eq_self_iff (h : Plural w p) :
    singularizeChars p = w ↔ ¬ endsInOneOf misreadEndings w := by
  cases h with
  | consonantY v => simp [singularizeChars_ies, endsInOneOf_eq, misreadEndings]
  | hissing h =>
    obtain ⟨he, hi⟩ := not_endsInOneOf_of_hissing h
    rw [singularizeChars_es hi, if_pos (endsInOneOf_subset (by simp) h)]
    exact iff_of_true rfl (not_endsInOneOf_misreadEndings he)
  | plain h =>
    rw [endsInOneOf_cons, not_or] at h
    by_cases he : endsInOneOf ["e"] w
    · -- the plural ends as if the `e` had come with the `s`
      obtain ⟨v, rfl⟩ : ['e'] <:+ w := by simpa [endsInOneOf] using he
      rw [endsInOneOf_misreadEndings, endsInOneOf_cons, List.append_assoc, List.singleton_append]
      by_cases hi : endsInOneOf ["i"] v
      · obtain ⟨u, rfl⟩ : ['i'] <:+ v := by simpa [endsInOneOf] using hi
        rw [List.append_assoc, List.singleton_append, singularizeChars_ies]
        exact iff_of_false (by simp) (not_not.mpr (.inl hi))
      · rw [singularizeChars_es hi]
        split
        · next hh => exact iff_of_false (by simp) (not_not.mpr (.inr hh))
        · next hh => exact iff_of_true rfl (not_or.mpr ⟨hi, hh⟩)
    · have hes : ¬ endsInOneOf ["e", "s"] w := by
        rw [endsInOneOf_cons, not_or]
        exact ⟨he, h.1⟩
      exact iff_of_true (singularizeChars_s hes) (not_endsInOneOf_misreadEndings he)

/-- The words whose plurals are taken for those of others. -/
def Misread (w : String) : Prop := ∃ ending ∈ misreadEndings, ending.toList <:+ w.toList

instance (w : String) : Decidable (Misread w) :=
  inferInstanceAs (Decidable (∃ ending ∈ misreadEndings, ending.toList <:+ w.toList))

theorem singularize_pluralize_eq_self_iff {w : String} (hs : w.toList.getLast? ≠ some 's') :
    singularize (pluralize w) = w ↔ ¬ Misread w := by
  rw [ne_eq, ← endsInOneOf_s_iff] at hs
  rw [Misread, ← endsInOneOf_iff, ← (plural_pluralizeChars hs).singularizeChars_eq_self_iff,
    singularize, onChars, toList_pluralize, ← String.toList_inj, String.toList_ofList]

example : singularize (pluralize "axe") = "ax" := by decide

/-! ### Names of operations -/

variable {method path word : String}

/-- The words of a path that name the resource. -/
def resourceWords (path : String) : List String :=
  (((resourceSegments path.toList).map segmentChars).filter (!·.isEmpty)).map String.ofList

/-- Whether a path leads to a member of a collection: it has a parameter. -/
def isMember (path : String) : Bool := (filledSegments path.toList).any opensParameter

/-- The verb in the name of an operation. -/
def verbFor (method path : String) : String := verb (lowerCase method) (isMember path)

/-- A list is named by the plural of the resource. What is done to a member, or makes one, is named
by the singular. -/
theorem ofOperation_of_resource (h : resourceWords path = [word]) :
    ofOperation method path = verbFor method path ++ "_" ++
      if verbFor method path == "list" then pluralize word
      else if isMember path || verbFor method path == "create" then singularize word
      else word := by
  rw [resourceWords] at h
  simp only [ofOperation, h]
  rfl

/-! ### Paths to collections -/

/-- The path of a collection. -/
def collectionPath (collection : String) : String := "/" ++ collection

/-- The path of a member of a collection, with a parameter that says which. -/
def memberPath (collection parameter : String) : String :=
  "/" ++ collection ++ "/\x7b" ++ parameter ++ "\x7d"

/-- A name for a collection: one in small letters that ends in `s`. -/
structure IsCollection (p : List Char) : Prop extends IsSegment p where
  plural : p.getLast? = some 's'

theorem IsSegment.isCollection (h : IsSegment w) : IsCollection (pluralizeChars w) := by
  refine ⟨?_, getLast?_pluralizeChars w⟩
  by_cases hs : endsInOneOf ["s"] w
  · rwa [pluralizeChars, if_pos hs]
  · obtain ⟨v, ending, hp, hv, hsmall, hlast⟩ := (plural_pluralizeChars hs).exists_ending
    have hne : ending ≠ [] := by
      rintro rfl
      cases hlast
    exact hp ▸ h.append hv hsmall hne

theorem IsCollection.ne_nil (h : IsCollection p) : p ≠ [] := by
  rintro rfl
  cases h.plural

theorem IsCollection.opensParameter_eq (h : IsCollection p) : opensParameter p = false := by
  obtain ⟨c, rest, rfl⟩ := List.exists_cons_of_ne_nil h.ne_nil
  have hc : c ≠ '{' := by
    rintro rfl
    exact h.notMem (by decide) List.mem_cons_self
  simp [opensParameter, hc]

theorem IsCollection.isVersion_eq (h : IsCollection p) : isVersion p = false := by
  unfold isVersion
  split
  · next rest =>
    have hrest : rest.getLast? = some 's' := by
      have hlast := h.plural
      cases rest with
      | nil => cases hlast
      | cons c rest => exact hlast
    have hpoint : '.' ∉ rest := fun hm => h.notMem (by decide) (List.mem_cons_of_mem _ hm)
    have hall : rest.all isDecimal = false :=
      List.all_eq_false.mpr ⟨'s', List.mem_of_getLast? hrest, by decide⟩
    simp [hrest, pieces_of_notMem hpoint, hall]
  · rfl

theorem IsCollection.isPreamble_eq (h : IsCollection p) : isPreamble p = false := by
  have hapi : p ≠ ['a', 'p', 'i'] := by
    rintro rfl
    cases h.plural
  simp [isPreamble, h.lower_eq, hapi, h.isVersion_eq]

theorem filledSegments_append (s more : List Char) :
    filledSegments (s ++ '/' :: more) = filledSegments s ++ filledSegments more := by
  rw [filledSegments, pieces_append_sep, List.filter_append, filledSegments, filledSegments]

theorem filledSegments_of_notMem (hne : p ≠ []) (h : '/' ∉ p) : filledSegments p = [p] := by
  simp [filledSegments, pieces_of_notMem h, hne]

theorem IsCollection.filledSegments_eq (h : IsCollection p) : filledSegments ('/' :: p) = [p] := by
  rw [← List.nil_append ('/' :: p), filledSegments_append,
    filledSegments_of_notMem h.ne_nil (h.notMem (by decide))]
  rfl

/-- Where only parameters come after it, the name of a collection is the word for the resource. -/
theorem IsCollection.resourceWords_eq {parameters : List (List Char)} (h : IsCollection word.toList)
    (hpath : filledSegments path.toList = word.toList :: parameters)
    (hparameters : ∀ q ∈ parameters, opensParameter q = true) :
    resourceWords path = [word] := by
  have hrest : parameters.filter (!opensParameter ·) = [] := by simpa using hparameters
  have hsegments : resourceSegments path.toList = [word.toList] := by
    rw [resourceSegments, hpath, List.dropWhile_cons_of_neg (by simp [h.isPreamble_eq]),
      List.filter_cons_of_pos (by simp [h.opensParameter_eq]), hrest]
  simp [resourceWords, hsegments, h.segmentChars_eq, h.ne_nil]

theorem IsCollection.resource_collectionPath (h : IsCollection word.toList) :
    resourceWords (collectionPath word) = [word] ∧ isMember (collectionPath word) = false := by
  have hfilled : filledSegments (collectionPath word).toList = [word.toList] := by
    rw [collectionPath, String.toList_append]
    exact h.filledSegments_eq
  constructor
  · exact h.resourceWords_eq hfilled (List.forall_mem_nil _)
  · simp [isMember, hfilled, h.opensParameter_eq]

theorem IsCollection.resource_memberPath (h : IsCollection word.toList) {parameter : String}
    (hslash : '/' ∉ parameter.toList) : resourceWords (memberPath word parameter) = [word] ∧
      isMember (memberPath word parameter) = true := by
  have hfilled : filledSegments (memberPath word parameter).toList =
      [word.toList, '{' :: parameter.toList ++ ['}']] := by
    have hpath : (memberPath word parameter).toList =
        ('/' :: word.toList) ++ '/' :: ('{' :: parameter.toList ++ ['}']) := by
      simp [memberPath]
    rw [hpath, filledSegments_append, h.filledSegments_eq,
      filledSegments_of_notMem (by simp) (by simpa using hslash)]
    rfl
  constructor
  · exact h.resourceWords_eq hfilled (List.forall_mem_singleton.mpr rfl)
  · simp [isMember, hfilled, opensParameter]

/-! ### Words that come back -/

/-- A word that does not end in `s` comes back from its plural exactly if the plural is not taken
for that of another word. Where the plural is all that a path says about the resource, the list is
named by the plural, and what is done to a member or makes one is named by the word exactly if it
comes back. Each word in small letters has such paths: that of the collection and those of its
members. -/
theorem inflection_returns_iff {w : String} (hs : w.toList.getLast? ≠ some 's') :
    (singularize (pluralize w) = w ↔ ¬ Misread w) ∧
    (∀ method path, resourceWords path = [pluralize w] →
      (verbFor method path = "list" → ofOperation method path = "list_" ++ pluralize w) ∧
      (verbFor method path ≠ "list" → isMember path = true ∨ verbFor method path = "create" →
        (ofOperation method path = verbFor method path ++ "_" ++ w ↔ ¬ Misread w))) ∧
    (segment w = w →
      (resourceWords (collectionPath (pluralize w)) = [pluralize w] ∧
        isMember (collectionPath (pluralize w)) = false) ∧
      ∀ parameter : String, '/' ∉ parameter.toList →
        resourceWords (memberPath (pluralize w) parameter) = [pluralize w] ∧
          isMember (memberPath (pluralize w) parameter) = true) := by
  have hreturns := singularize_pluralize_eq_self_iff hs
  refine ⟨hreturns, fun method path hpath => ⟨fun hlist => ?_, fun hlist hsingular => ?_⟩,
    fun hw => ?_⟩
  · rw [ofOperation_of_resource hpath, if_pos (by simpa using hlist), hlist, pluralize_pluralize]
    rfl
  · rw [ofOperation_of_resource hpath, if_neg (by simpa using hlist),
      if_pos (by simpa using hsingular), ← hreturns, String.append_right_inj]
  · have hcollection : IsCollection (pluralize w).toList := by
      rw [toList_pluralize]
      exact (segment_eq_self_iff.mp hw).isCollection
    exact ⟨hcollection.resource_collectionPath,
      fun parameter hslash => hcollection.resource_memberPath hslash⟩

/-- A word that comes back, and the operations on what it names. -/
theorem inflection_returns_box :
    "box".toList.getLast? ≠ some 's' ∧ singularize (pluralize "box") = "box" ∧
      ofOperation "GET" "/api/v1/Boxes" = "list_boxes" ∧
      ofOperation "POST" "/boxes" = "create_box" ∧
      ofOperation "PUT" (memberPath (pluralize "box") "boxId") = "update_box" := by
  have hs : "box".toList.getLast? ≠ some 's' := by decide
  have hread : ¬ Misread "box" := by decide
  obtain ⟨hreturns, hnames, hpaths⟩ := inflection_returns_iff hs
  obtain ⟨hwords, hmember⟩ := (hpaths (by decide)).2 "boxId" (by decide)
  have hlist := (hnames "GET" "/api/v1/Boxes" (by decide)).1 (by decide)
  have hcreate := ((hnames "POST" "/boxes" (by decide)).2 (by decide) (.inr (by decide))).mpr hread
  have hupdate := ((hnames "PUT" _ hwords).2 (by decide) (.inl hmember)).mpr hread
  exact ⟨hs, hreturns.mpr hread, hlist, hcreate, hupdate⟩

/-- Not every word comes back, and not every operation on a member is named by the word. -/
theorem not_inflection_returns :
    (¬ ∀ w : String, w.toList.getLast? ≠ some 's' → singularize (pluralize w) = w) ∧
      ¬ ∀ w parameter : String, w.toList.getLast? ≠ some 's' → segment w = w →
        '/' ∉ parameter.toList →
          ofOperation "GET" (memberPath (pluralize w) parameter) = "get_" ++ w := by
  have hs : "movie".toList.getLast? ≠ some 's' := by decide
  constructor
  · intro h
    have hmovie := h "movie" hs
    revert hmovie
    decide
  · intro h
    have hmovie := h "movie" "movieId" hs (by decide) (by decide)
    revert hmovie
    decide

end RouteStubs.Name
