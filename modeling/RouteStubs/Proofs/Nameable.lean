import RouteStubs.Proofs.Registry
import RouteStubs.Proofs.Resolver

/-!
# Texts that give names

A text gives a name if a letter or digit of ASCII is in it, whatever the fallback is. Otherwise all is
up to the fallback, and there is no name if that is empty. A reference has no fallback for its parts:
it gets a name if it is that of a component, or if each part of it that names something gives a name.

## Main definitions

* `Name.Nameable`: a text that gives a name.
* `Registry.Reached`: the registries that come of giving names.
* `Registry.namers`, `Registry.Nameless`: the parts of a reference that name what it leads to, and a
  reference with such a part that gives no name.

## Main statements

* `Name.exists_of_nameable`, `Name.typeStyle_of_not_nameable`: the names of texts.
* `Registry.nameFor_of_nameless`, `Registry.nameFor_of_not_nameless`: the names of references.
-/

namespace RouteStubs

open Text

/-! ### Texts -/

namespace Name

variable {s name : String} {c : Char} {cs : List Char}

/-- A letter or digit of ASCII is in the text. -/
def Nameable (s : String) : Prop := ∃ c ∈ s.toList, isWordChar c = true

instance (s : String) : Decidable (Nameable s) :=
  decidable_of_iff (s.toList.any isWordChar = true) List.any_eq_true

theorem runs_eq_nil_iff {keep : Char → Bool} : runs keep cs = [] ↔ ∀ c ∈ cs, keep c = false := by
  induction cs with
  | nil => simp [runs]
  | cons c rest ih =>
    rw [List.forall_mem_cons, ← ih, runs.eq_def]
    dsimp only
    by_cases hc : keep c = true
    · rw [if_pos hc]
      simp only [hc, Bool.true_eq_false, false_and, iff_false]
      split
      · simp
      · split
        · split <;> simp
        · simp
    · rw [if_neg hc]
      simp [hc]

theorem ne_nil_of_mem_runs {keep : Char → Bool} {run : List Char} (h : run ∈ runs keep cs) :
    run ≠ [] := by
  induction cs generalizing run with
  | nil => cases h
  | cons c rest ih =>
    rw [runs.eq_def] at h
    dsimp only at h
    split at h
    · split at h
      · rw [List.mem_singleton.mp h]
        simp
      · split at h
        · split at h
          · rw [List.mem_singleton.mp h]
            simp
          · next first others hruns =>
            rcases List.mem_cons.mp h with rfl | h
            · simp
            · exact ih (hruns ▸ List.mem_cons_of_mem _ h)
        · rcases List.mem_cons.mp h with rfl | h
          · simp
          · exact ih h
    · exact ih h

/-- Nothing of a text is kept just if it gives no name. -/
theorem typeChars_eq_nil_iff : typeChars s.toList = [] ↔ ¬ Nameable s := by
  have hempty : typeChars s.toList = [] ↔ runs isWordChar s.toList = [] := by
    constructor
    · intro h
      cases hruns : runs isWordChar s.toList with
      | nil => rfl
      | cons run others =>
        have hrun : run ≠ [] := ne_nil_of_mem_runs (hruns ▸ List.mem_cons_self)
        rw [typeChars, hruns, List.flatMap_cons, List.append_eq_nil_iff] at h
        cases run with
        | nil => exact absurd rfl hrun
        | cons c rest => cases h.1
    · intro h
      rw [typeChars, h]
      rfl
  rw [hempty, runs_eq_nil_iff, Nameable]
  simp

/-- The name that the fallback gives where a text gives none. -/
def ofFallback (fallback : String) : Except Fault String :=
  (withoutLeadingDigit fallback.toList).map fun name => String.ofList (avoiding keywords name)

theorem typeStyle_of_not_nameable (h : ¬ Nameable s) (fallback : String) :
    typeStyle s fallback = ofFallback fallback := by
  simp only [typeStyle, typeChars_eq_nil_iff.mpr h, List.isEmpty_nil, if_true, ofFallback]
  cases withoutLeadingDigit fallback.toList <;> rfl

/-- A text that gives a name gives it whatever the fallback is. -/
theorem typeStyle_of_nameable (h : Nameable s) (fallback fallback' : String) :
    typeStyle s fallback = typeStyle s fallback' := by
  have hkept : (typeChars s.toList).isEmpty = false := by
    rw [List.isEmpty_eq_false_iff]
    exact fun hnil => typeChars_eq_nil_iff.mp hnil h
  simp only [typeStyle, hkept, Bool.false_eq_true, if_false]

theorem exists_of_nameable (h : Nameable s) (fallback : String) :
    ∃ name, typeStyle s fallback = .ok name ∧ Legal name := by
  have hmodel : "Model".toList ≠ [] := by decide
  have hword : "Model".toList.all isWordChar = true := by decide
  -- the name does not depend on the fallback, so one may be taken that is a word
  rw [typeStyle_of_nameable h fallback "Model"]
  obtain ⟨name, hname⟩ := exists_typeStyle s hmodel
  obtain ⟨hs, hk⟩ := spelled_typeStyle (List.all_eq_true.mp hword) hname
  refine ⟨name, hname, ?_⟩
  rw [← String.ofList_toList (s := name)] at hk ⊢
  exact hs.legal hk

theorem ofFallback_empty : ofFallback "" = .error (.defect .nothingNameable) := rfl

theorem ofFallback_model : ofFallback "Model" = .ok "Model" := by decide

end Name

/-! ### References -/

namespace Registry

open Name

variable {reserved : List String} {r : Registry} {ref id : String} {segments : List String}

/-- The base for the name of a reference. -/
def base (ref : String) : Except Fault String :=
  match componentName? ref with
  | some name => .ok name
  | none => pointerBase ref

theorem nameFor_run_of_some (h : r.index.lookup ref = some id) :
    (nameFor ref).runFrom r = (.ok id, r) := by
  rw [nameFor, Step.runFrom_bind, Step.runFrom_get]
  simp only [h, Step.runFrom_pure]

theorem nameFor_run_of_none (h : r.index.lookup ref = none) :
    (nameFor ref).runFrom r =
      match base ref with
      | .ok base => (reserve ref base .schema).runFrom r
      | .error fault => (.error fault, r) := by
  rw [nameFor, Step.runFrom_bind, Step.runFrom_get]
  simp only [h, Step.runFrom_bind, Step.runFrom_ofExcept]
  unfold base
  cases componentName? ref with
  | some name => rfl
  | none => cases pointerBase ref <;> rfl

/-- What registries come to: references are given names or are refused, and names are given for
places. -/
inductive Reached (reserved : List String) : Registry → Prop
  | start : Reached reserved ⟨reserved, [], []⟩
  | named {r : Registry} (h : Reached reserved r) (ref : String) :
      Reached reserved ((nameFor ref).runFrom r).2
  | placed {r : Registry} (h : Reached reserved r) (key base : String) (origin : Origin) :
      Reached reserved ((reserve key base origin).runFrom r).2

/-- The names in the index are in the style of declarations. -/
def IndexStyled (r : Registry) : Prop := ∀ key id, r.index.lookup key = some id → Styled id

theorem IndexStyled.reserve (h : r.IndexStyled) (key base : String) (origin : Origin) :
    ((reserve key base origin).runFrom r).2.IndexStyled := by
  obtain ⟨id, _, hrun, hnext, rfl⟩ := (reserve_ends r key base origin).exists_ok
  rw [hrun]
  intro other id' hid'
  rw [lookup_index_add] at hid'
  split at hid'
  · cases hid'
    exact hnext.styled
  · exact h other id' hid'

theorem Reached.indexStyled (h : Reached reserved r) : r.IndexStyled := by
  induction h with
  | start => exact fun _ _ hid => by cases hid
  | @named r _ ref ih =>
    cases hid : r.index.lookup ref with
    | some id =>
      rw [nameFor_run_of_some hid]
      exact ih
    | none =>
      rw [nameFor_run_of_none hid]
      split
      · exact ih.reserve ref _ .schema
      · exact ih
  | placed _ key base origin ih => exact ih.reserve key base origin

/-- The parts of a reference that name what it leads to: the name of the component, or the segments
that do not only say where a schema stands. -/
def namers (ref : String) (segments : List String) : List String :=
  match componentName? ref with
  | some name => [name]
  | none => segments.filter (!structural.contains ·)

/-- The reference is not that of a component, and one of the parts that name it gives no name. -/
def Nameless (ref : String) (segments : List String) : Prop :=
  componentName? ref = none ∧ ∃ s ∈ namers ref segments, ¬ Nameable s

theorem mapM_typeStyle_error {several : List String} (h : ∃ s ∈ several, ¬ Nameable s) :
    several.mapM (fun s => typeStyle s "") = .error (.defect .nothingNameable) := by
  induction several with
  | nil =>
    obtain ⟨s, hs, -⟩ := h
    cases hs
  | cons s rest ih =>
    rw [List.mapM_cons]
    by_cases hs : Nameable s
    · obtain ⟨name, hname, -⟩ := exists_of_nameable hs ""
      obtain ⟨t, ht, hno⟩ := h
      have htrest : t ∈ rest := (List.mem_cons.mp ht).resolve_left fun heq => hno (heq ▸ hs)
      rw [hname]
      simp only [bind, Except.bind, ih ⟨t, htrest, hno⟩]
    · rw [typeStyle_of_not_nameable hs, ofFallback_empty]
      rfl

theorem exists_mapM_typeStyle {several : List String} (h : ∀ s ∈ several, Nameable s) :
    ∃ names, several.mapM (fun s => typeStyle s "") = .ok names := by
  induction several with
  | nil => exact ⟨[], rfl⟩
  | cons s rest ih =>
    rw [List.forall_mem_cons] at h
    obtain ⟨name, hname, -⟩ := exists_of_nameable h.1 ""
    obtain ⟨names, hnames⟩ := ih h.2
    refine ⟨name :: names, ?_⟩
    rw [List.mapM_cons, hname]
    simp only [bind, Except.bind, hnames]
    rfl

theorem base_of_nameless (hs : Pointer.segments ref = .ok segments) (h : Nameless ref segments) :
    base ref = .error (.defect .nothingNameable) := by
  obtain ⟨hno, hunnamed⟩ := h
  rw [namers, hno] at hunnamed
  rw [base, hno, pointerBase, hs]
  simp only [bind, Except.bind]
  split
  · next hnil =>
    rw [hnil] at hunnamed
    obtain ⟨s, hmem, -⟩ := hunnamed
    cases hmem
  · rw [mapM_typeStyle_error hunnamed]

/-- A reference that has a base and no part that gives a name is named by the fallback. -/
theorem exists_base (hs : Pointer.segments ref = .ok segments) (h : ¬ Nameless ref segments) :
    ∃ b, base ref = .ok b ∧
      ((∀ s ∈ namers ref segments, ¬ Nameable s) → typeStyle b "Model" = .ok "Model") := by
  unfold base
  cases hname : componentName? ref with
  | some name =>
    refine ⟨name, rfl, fun hall => ?_⟩
    rw [namers, hname] at hall
    rw [typeStyle_of_not_nameable (hall name (List.mem_singleton_self _)), ofFallback_model]
  | none =>
    have hall : ∀ s ∈ namers ref segments, Nameable s := by
      intro s hmem
      by_contra hno
      exact h ⟨hname, s, hmem, hno⟩
    rw [namers, hname] at hall ⊢
    simp only [pointerBase, hs, bind, Except.bind]
    split
    · exact ⟨"Model", rfl, fun _ => by decide⟩
    · next hne =>
      obtain ⟨names, hnames⟩ := exists_mapM_typeStyle hall
      rw [hnames]
      refine ⟨_, rfl, fun hnone => ?_⟩
      cases hfilter : segments.filter (!structural.contains ·) with
      | nil => exact absurd hfilter hne
      | cons s rest =>
        dsimp only at hall hnone
        rw [hfilter] at hall hnone
        exact absurd (hall s List.mem_cons_self) (hnone s List.mem_cons_self)

/-- A reference that has no name yet, and that has a part that gives none, gets none. -/
theorem nameFor_of_nameless (hs : Pointer.segments ref = .ok segments)
    (hnew : r.index.lookup ref = none) (h : Nameless ref segments) :
    (nameFor ref).runFrom r = (.error (.defect .nothingNameable), r) := by
  rw [nameFor_run_of_none hnew, base_of_nameless hs h]

/-- Each other reference gets a name, which is the fallback if no part of it gives one. -/
theorem nameFor_of_not_nameless (hr : Reached reserved r) (hs : Pointer.segments ref = .ok segments)
    (h : r.index.lookup ref = none → ¬ Nameless ref segments) :
    ∃ id r', (nameFor ref).runFrom r = (.ok id, r') ∧ Legal id ∧ r'.index.lookup ref = some id ∧
      (r.index.lookup ref = none → (∀ s ∈ namers ref segments, ¬ Nameable s) →
        id = fresh "Model" r.taken) := by
  cases hid : r.index.lookup ref with
  | some id =>
    exact ⟨id, r, nameFor_run_of_some hid, (hr.indexStyled ref id hid).legal, hid, nofun⟩
  | none =>
    obtain ⟨b, hb, hmodel⟩ := exists_base hs (h hid)
    obtain ⟨id, _, hrun, hnext, rfl⟩ := (reserve_ends r ref b .schema).exists_ok
    refine ⟨id, r.add ⟨id, ref, .schema⟩, ?_, hnext.styled.legal,
      by rw [lookup_index_add]; exact if_pos rfl, fun _ hall => ?_⟩
    · rw [nameFor_run_of_none hid, hb]
      exact hrun
    · obtain ⟨style, hstyle, rfl⟩ := hnext
      rw [hmodel hall] at hstyle
      cases hstyle
      rfl

end Registry

end RouteStubs
