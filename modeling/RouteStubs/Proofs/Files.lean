import RouteStubs.File.Tree

/-!
# What writing does to the files

Making directories and writing files leaves the directories and the files where they are: nothing is
removed, no file becomes a directory and no directory a file. So a path that leads somewhere goes on
leading there, and a file that is new or changed is one that has been written.

## Main definitions

* `Files.Changes written before after`: the files after some writes, where `written` tells what may
  have been written to which place.

## Main statements

* `Files.Changes.locate`: paths go on leading where they lead.
* `Files.makeDirectories_changes`: making directories changes no file.
* `Files.write_run`: a write that fails changes nothing, and any other one writes its content where
  its path leads.
-/

namespace RouteStubs.Files

variable {fs before mid after : Files} {place q : Location} {path : Path} {content : ByteArray}

theorem lookup_append_of_eq_none {entries : List (Location × FileEntry)} {entry : FileEntry}
    (h : entries.lookup place = none) :
    (entries ++ [(place, entry)]).lookup q =
      if q = place then some entry else entries.lookup q := by
  rw [List.lookup_append]
  by_cases hq : q = place
  · subst hq
    simp [h]
  · have hq' : (q == place) = false := by simpa using hq
    simp [hq, hq', List.lookup_cons]

theorem lookup_replace (entries : List (Location × FileEntry)) (entry : FileEntry) :
    (entries.map fun e => if e.1 == place then (place, entry) else e).lookup q =
      if q = place then (entries.lookup place).map fun _ => entry else entries.lookup q := by
  induction entries with
  | nil => simp
  | cons e rest ih =>
    obtain ⟨p, old⟩ := e
    by_cases hp : p = place
    · subst hp
      by_cases hq : q = p
      · simp [hq]
      · have hq' : (q == p) = false := by simpa using hq
        simpa [hq, hq', List.lookup_cons] using ih
    · have hp' : (place == p) = false := by simpa using Ne.symm hp
      by_cases hq : q = p
      · subst hq
        simp [hp]
      · have hq' : (q == p) = false := by simpa using hq
        simpa [hp, hp', hq', List.lookup_cons] using ih

/-- What is put at a place is there, and all else stays. -/
theorem at?_put (hp : place ≠ []) (entry : FileEntry) :
    (fs.put place entry).at? q = if q = place then some entry else fs.at? q := by
  have hlookup : (fs.put place entry).entries.lookup q =
      if q = place then some entry else fs.entries.lookup q := by
    unfold put
    split
    · next h =>
      obtain ⟨old, hold⟩ := Option.isSome_iff_exists.mp h
      rw [lookup_replace, hold]
      rfl
    · next h =>
      exact lookup_append_of_eq_none (by rwa [Bool.not_eq_true, Option.isSome_eq_false_iff,
        Option.isNone_iff_eq_none] at h)
  unfold at?
  by_cases hq : q = []
  · subst hq
    simp [Ne.symm hp]
  · simp only [List.isEmpty_iff, hq, if_false, hlookup]

@[simp] theorem here_put (entry : FileEntry) : (fs.put place entry).here = fs.here := by
  unfold put
  split <;> rfl

@[simp] theorem at?_nil : fs.at? [] = some .directory := rfl

/-- A path that leads to a file leads to what is read from it. -/
theorem read_eq_ok : fs.read path = .ok content ↔
    ∃ place, fs.locate path = .ok place ∧ fs.at? place = some (.file content) := by
  unfold read
  cases fs.locate path with
  | error problem => simp [bind, Except.bind]
  | ok place =>
    simp only [bind, Except.bind, Except.ok.injEq, exists_eq_left']
    split
    · next h => simp [h, throw, throwThe, MonadExceptOf.throw]
    · next h => simp [h, throw, throwThe, MonadExceptOf.throw]
    · next h => simp [h, pure, Except.pure]

/-! ### Changes -/

/-- The files after some writes: all directories and files are still there, and the files that are
new or changed have been written. -/
structure Changes (written : Location → ByteArray → Prop) (before after : Files) : Prop where
  /-- The directory that one is in. -/
  here : after.here = before.here
  /-- Directories stay. -/
  directory : ∀ {place}, before.at? place = some .directory → after.at? place = some .directory
  /-- Files stay files. -/
  file : ∀ {place old}, before.at? place = some (.file old) →
    ∃ new, after.at? place = some (.file new)
  /-- What is in a file was in it before, or it has been written. -/
  content : ∀ {place new}, after.at? place = some (.file new) →
    before.at? place = some (.file new) ∨ written place new

namespace Changes

variable {written written' : Location → ByteArray → Prop}

theorem refl (fs : Files) : Changes written fs fs := ⟨rfl, id, fun h => ⟨_, h⟩, .inl⟩

theorem trans (h : Changes written before mid) (h' : Changes written mid after) :
    Changes written before after where
  here := h'.here.trans h.here
  directory hp := h'.directory (h.directory hp)
  file hp := (h.file hp).elim fun _ hm => h'.file hm
  content hp := (h'.content hp).elim h.content .inr

theorem imp (h : Changes written before after)
    (hw : ∀ place content, written place content → written' place content) :
    Changes written' before after :=
  ⟨h.here, h.directory, h.file, fun hp => (h.content hp).imp_right (hw _ _)⟩

/-- A name that leads from one place to another goes on doing so. -/
theorem follow (h : Changes written before after) {name : String}
    (hf : before.follow place name = .ok q) : after.follow place name = .ok q := by
  unfold Files.follow at hf ⊢
  split at hf
  · cases hf
  · cases hf
  · next hd => simpa [h.directory hd] using hf

/-- A path that leads to a place goes on leading there. -/
theorem locate (h : Changes written before after) (hl : before.locate path = .ok place) :
    after.locate path = .ok place := by
  unfold Files.locate at hl ⊢
  rw [h.here]
  generalize (if path.root == "" then before.here else []) = start at hl ⊢
  generalize path.segments = names at hl ⊢
  induction names generalizing start with
  | nil => exact hl
  | cons name rest ih =>
    rw [List.foldlM_cons] at hl ⊢
    cases hf : before.follow start name with
    | error problem => simp [hf, bind, Except.bind] at hl
    | ok next =>
      rw [hf] at hl
      rw [h.follow hf]
      exact ih next hl

/-- A directory is made where there was nothing. -/
theorem makeDirectory (h : fs.at? place = none) : Changes written fs (fs.put place .directory) := by
  have hp : place ≠ [] := by
    rintro rfl
    simp at h
  refine ⟨here_put _, fun {q} hq => ?_, fun {q _} hq => ?_, fun {q _} hq => ?_⟩
  all_goals rw [at?_put hp] at *
  · split <;> first | rfl | exact hq
  · have hne : q ≠ place := by
      rintro rfl
      simp [h] at hq
    exact ⟨_, (if_neg hne).trans hq⟩
  · split at hq
    · cases hq
    · exact .inl hq

/-- A file is written where there is no directory. -/
theorem write (h : fs.at? place ≠ some .directory) :
    Changes (fun q new => q = place ∧ new = content) fs (fs.put place (.file content)) := by
  have hp : place ≠ [] := by
    rintro rfl
    exact h rfl
  refine ⟨here_put _, fun {q} hq => ?_, fun {q _} hq => ?_, fun {q _} hq => ?_⟩
  all_goals rw [at?_put hp] at *
  · have hne : q ≠ place := by
      rintro rfl
      exact h hq
    exact (if_neg hne).trans hq
  · split
    · exact ⟨_, rfl⟩
    · exact ⟨_, hq⟩
  · split at hq
    · next he =>
      cases hq
      exact .inr ⟨he, rfl⟩
    · exact .inl hq

end Changes

/-! ### Making directories and writing files -/

variable {written : Location → ByteArray → Prop}

theorem makeDirectory_changes (h : before.makeDirectory path = .ok after) :
    Changes written before after := by
  unfold Files.makeDirectory at h
  cases hl : before.locate path with
  | error problem => simp [hl, bind, Except.bind] at h
  | ok place =>
    simp only [hl, bind, Except.bind] at h
    split at h
    · cases h
    · next hn =>
      cases h
      exact .makeDirectory hn

theorem run_bind {ε α β : Type} (step : ExceptT ε (StateM Files) α)
    (next : α → ExceptT ε (StateM Files) β) (fs : Files) :
    (step >>= next).run.run fs =
      match step.run.run fs with
      | (.ok a, fs') => (next a).run.run fs'
      | (.error e, fs') => (.error e, fs') := by
  simp only [ExceptT.run_bind, StateT.run_bind]
  cases step.run.run fs with
  | mk outcome fs' => cases outcome <;> rfl

theorem run_get_bind {ε β : Type} (next : Files → ExceptT ε (StateM Files) β) (fs : Files) :
    (get >>= next).run.run fs = (next fs).run.run fs := rfl

theorem run_ofExcept {ε α : Type} (outcome : Except ε α) (fs : Files) :
    (MonadExcept.ofExcept outcome : ExceptT ε (StateM Files) α).run.run fs = (outcome, fs) := by
  cases outcome <;> rfl

/-- Making a directory a second time, after those around it. -/
theorem makeAgain_changes (h : Changes written fs mid) :
    Changes written fs ((do
      match (← get).makeDirectory path with
      | .ok fs => set fs
      | .error .missing => throw (path, .missing)
      | .error problem => MonadExcept.ofExcept ((← get).unlessDirectory path problem) :
        ExceptT (Path × Problem) (StateM Files) Unit).run.run mid).2 := by
  rw [run_get_bind]
  cases hd : mid.makeDirectory path with
  | ok fs' => exact h.trans (makeDirectory_changes hd)
  | error problem =>
    cases problem with
    | missing => exact h
    | _ =>
      simp only [run_get_bind, run_ofExcept]
      exact h

theorem makeFrom_changes (steps : Nat) (path : Path) (fs : Files) :
    Changes written fs ((makeFrom steps path).run.run fs).2 := by
  induction steps generalizing path fs with
  | zero => exact .refl fs
  | succ steps ih =>
    rw [makeFrom, run_get_bind]
    cases hd : fs.makeDirectory path with
    | ok fs' => exact makeDirectory_changes hd
    | error problem =>
      cases problem with
      | missing =>
        by_cases he : path.segments.isEmpty
        · simp only [he, if_true]
          exact .refl fs
        · simp only [he, Bool.false_eq_true, if_false]
          rw [run_bind]
          have hi := ih path.parent fs
          split
          · next fs' hr =>
            rw [hr] at hi
            exact makeAgain_changes hi
          · next hr => exact hr ▸ hi
      | _ =>
        simp only [run_get_bind, run_ofExcept]
        exact .refl fs

/-- Making directories changes no file. -/
theorem makeDirectories_changes (path : Path) (fs : Files) :
    Changes written fs ((makeDirectories path).run.run fs).2 := makeFrom_changes _ path fs

/-- A file is written to the place that its path leads to, or nothing is. -/
theorem write_run (path : Path) (content : ByteArray) (fs : Files) :
    (∃ place, fs.locate path = .ok place ∧ fs.at? place ≠ some .directory ∧
      (write path content).run.run fs = (.ok (), fs.put place (.file content))) ∨
    ∃ problem, (write path content).run.run fs = (.error (path, problem), fs) := by
  rw [write, run_get_bind]
  cases fs.locate path with
  | error problem => exact .inr ⟨problem, rfl⟩
  | ok place =>
    dsimp only
    split
    · exact .inr ⟨.directory, rfl⟩
    · next h => exact .inl ⟨place, rfl, h, rfl⟩

end RouteStubs.Files
