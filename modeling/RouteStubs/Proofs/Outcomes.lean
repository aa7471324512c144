import RouteStubs.Program
import RouteStubs.Proofs.Files

/-!
# What a command leaves behind

All files are worked out before the first one is written. So a command that fails earlier leaves the
files as they were, and one that succeeds has written all that it worked out. But the files are
written one after the other and are not taken back: where one cannot be written, those before it
stay. Each of them is written whole, and no other file is touched.

## Main definitions

* `Artifact.Written`: the files after some generated files have been written into a directory.
* `World.StopsWriting`: a command line ends at a generated file that cannot be written.

## Main statements

* `Artifact.writeAll_run`: what is written, up to the first file that cannot be.
* `World.run_writes`: what a command line leaves behind.
* `World.run_blocked`: a command line that fails and leaves a new file behind.
-/

namespace RouteStubs

open Files

namespace Artifact

variable {target : Path} {as bs : List Artifact} {a : Artifact} {before mid after fs : Files}

/-- The path of a generated file in a directory. -/
def pathIn (target : Path) (a : Artifact) : Path := target.join (Path.read a.path)

/-- The files after the generated files have been written into the directory, in their order. -/
structure Written (target : Path) (as : List Artifact) (before after : Files) : Prop where
  /-- Nothing is removed, and what is new or changed in a file is the whole of a generated file whose
  path leads there. -/
  changes : before.Changes (fun place content => ∃ a ∈ as,
    after.locate (a.pathIn target) = .ok place ∧ content = a.content.toUTF8) after
  /-- Each generated file is at its path, unless one after it has the same place. -/
  whole : ∀ {first a last}, as = first ++ a :: last → ∃ b ∈ a :: last,
    after.locate (b.pathIn target) = after.locate (a.pathIn target) ∧
      after.read (a.pathIn target) = .ok b.content.toUTF8

/-- Nothing has been written. -/
theorem Written.of_changes (h : before.Changes (fun _ _ => False) after) :
    Written target [] before after :=
  ⟨h.imp fun _ _ => False.elim, fun he => by simp at he⟩

/-- One generated file has been written. -/
theorem Written.of_put {place : Location} (hl : before.locate (a.pathIn target) = .ok place)
    (hp : before.at? place ≠ some .directory) :
    Written target [a] before (before.put place (.file a.content.toUTF8)) := by
  have hc : before.Changes _ (before.put place (.file a.content.toUTF8)) := .write hp
  have hla := hc.locate hl
  have hat : (before.put place (.file a.content.toUTF8)).at? place =
      some (.file a.content.toUTF8) := by
    have hne : place ≠ [] := by
      rintro rfl
      exact hp rfl
    rw [at?_put hne, if_pos rfl]
  refine ⟨hc.imp ?_, fun {first a' last} he => ?_⟩
  · rintro q content ⟨rfl, rfl⟩
    exact ⟨a, List.mem_singleton_self a, hla, rfl⟩
  · have ha : a' ∈ [a] := he ▸ List.mem_append_right first List.mem_cons_self
    obtain rfl := List.mem_singleton.mp ha
    exact ⟨a', List.mem_cons_self, rfl, read_eq_ok.mpr ⟨place, hla, hat⟩⟩

theorem Written.append (h : Written target as before mid) (h' : Written target bs mid after) :
    Written target (as ++ bs) before after where
  changes := by
    refine (h.changes.imp ?_).trans (h'.changes.imp ?_)
    · rintro place content ⟨a, ha, hl, rfl⟩
      exact ⟨a, List.mem_append_left _ ha, h'.changes.locate hl, rfl⟩
    · rintro place content ⟨a, ha, hl, rfl⟩
      exact ⟨a, List.mem_append_right _ ha, hl, rfl⟩
  whole {first a last} he := by
    rcases List.append_eq_append_iff.mp he with ⟨as', rfl, hb⟩ | ⟨as', rfl, hb⟩
    · exact h'.whole hb
    · cases as' with
      | nil =>
        have hs : bs = [] ++ a :: last := hb.symm
        exact h'.whole hs
      | cons a' last' =>
        obtain ⟨rfl, rfl⟩ := List.cons.inj hb
        obtain ⟨b, hb, hl, hr⟩ := h.whole rfl
        obtain ⟨place, ha, hp⟩ := read_eq_ok.mp hr
        obtain ⟨new, hn⟩ := h'.changes.file hp
        have hla := h'.changes.locate ha
        -- the file is left alone, or it is replaced by a later one with the same place
        rcases h'.changes.content hn with hs | ⟨c, hc, hlc, rfl⟩
        · rw [hp] at hs
          cases hs
          have hlb := h'.changes.locate (hl.trans ha)
          exact ⟨b, List.mem_append_left bs hb, hlb.trans hla.symm,
            read_eq_ok.mpr ⟨place, hla, hn⟩⟩
        · exact ⟨c, by simp [hc], hlc.trans hla.symm, read_eq_ok.mpr ⟨place, hla, hn⟩⟩

/-- A generated file is written, or no file is. -/
theorem write_run (target : Path) (a : Artifact) (fs : Files) :
    (∃ after, (a.write target).run.run fs = (.ok (a.pathIn target), after) ∧
      Written target [a] fs after) ∨
    ∃ path problem after, (a.write target).run.run fs = (.error (path, problem), after) ∧
      Written target [] fs after := by
  have hd : fs.Changes (fun _ _ => False)
      ((makeDirectories (a.pathIn target).parent).run.run fs).2 := makeDirectories_changes _ fs
  change (∃ after, (makeDirectories (a.pathIn target).parent >>= fun _ => do
    Files.write (a.pathIn target) a.content.toUTF8
    pure (a.pathIn target)).run.run fs = _ ∧ _) ∨ ∃ path problem after,
    (makeDirectories (a.pathIn target).parent >>= fun _ => do
      Files.write (a.pathIn target) a.content.toUTF8
      pure (a.pathIn target)).run.run fs = _ ∧ _
  rw [run_bind]
  generalize (makeDirectories (a.pathIn target).parent).run.run fs = made at hd ⊢
  obtain ⟨outcome, mid⟩ := made
  cases outcome with
  | error e => exact .inr ⟨e.1, e.2, mid, rfl, .of_changes hd⟩
  | ok u =>
    dsimp only
    rw [run_bind]
    rcases Files.write_run (a.pathIn target) a.content.toUTF8 mid with
      ⟨place, hl, hp, hr⟩ | ⟨problem, hr⟩
    · rw [hr]
      exact .inl ⟨_, rfl, (Written.of_changes hd).append (.of_put hl hp)⟩
    · rw [hr]
      exact .inr ⟨_, problem, mid, rfl, .of_changes hd⟩

/-- The generated files are written, or those before one of them are. -/
theorem mapM_write_run (target : Path) (as : List Artifact) (fs : Files) :
    (∃ after, (as.mapM (Artifact.write target)).run.run fs = (.ok (as.map (pathIn target)), after) ∧
      Written target as fs after) ∨
    ∃ path problem after first rest,
      (as.mapM (Artifact.write target)).run.run fs = (.error (path, problem), after) ∧
      as = first ++ rest ∧ rest ≠ [] ∧ Written target first fs after := by
  induction as generalizing fs with
  | nil => exact .inl ⟨fs, rfl, .of_changes (.refl fs)⟩
  | cons a as ih =>
    rw [List.mapM_cons, run_bind]
    rcases write_run target a fs with ⟨mid, hr, hw⟩ | ⟨path, problem, mid, hr, hw⟩
    · rw [hr]
      simp only [run_bind]
      rcases ih mid with ⟨after, hr', hw'⟩ | ⟨path, problem, after, first, rest, hr', rfl, hne, hw'⟩
      · rw [hr']
        exact .inl ⟨after, rfl, hw.append hw'⟩
      · rw [hr']
        exact .inr ⟨path, problem, after, a :: first, rest, rfl, rfl, hne, hw.append hw'⟩
    · rw [hr]
      exact .inr ⟨path, problem, mid, [], a :: as, rfl, rfl, List.cons_ne_nil _ _, hw⟩

/-- The generated files are written into the directory, or those before one of them are. -/
theorem writeAll_run (target : Path) (h : as ≠ []) (fs : Files) :
    (∃ after, (writeAll target as).run.run fs = (.ok (as.map (pathIn target)), after) ∧
      Written target as fs after) ∨
    ∃ path problem after first rest,
      (writeAll target as).run.run fs = (.error (path, problem), after) ∧
      as = first ++ rest ∧ rest ≠ [] ∧ Written target first fs after := by
  have hd : fs.Changes (fun _ _ => False) ((makeDirectories target).run.run fs).2 :=
    makeDirectories_changes target fs
  unfold writeAll
  rw [run_bind]
  generalize (makeDirectories target).run.run fs = made at hd ⊢
  obtain ⟨outcome, mid⟩ := made
  cases outcome with
  | error e => exact .inr ⟨e.1, e.2, mid, [], as, rfl, rfl, h, .of_changes hd⟩
  | ok u =>
    rcases mapM_write_run target as mid with
      ⟨after, hr, hw⟩ | ⟨path, problem, after, first, rest, hr, he, hne, hw⟩
    · exact .inl ⟨after, hr, (Written.of_changes hd).append hw⟩
    · exact .inr ⟨path, problem, after, first, rest, hr, he, hne,
        (Written.of_changes hd).append hw⟩

end Artifact

namespace World

variable {w : World} {args : List String} {document : String} {output : Option String}
  {enhance : Bool} {s : Settings} {as : List Artifact}

/-- There is always something to write. -/
theorem artifacts_ne_nil (h : w.artifacts s document enhance = .ok as) : as ≠ [] := by
  unfold World.artifacts at h
  cases hp : (Document.load w.files document >>= Plan.ofDocument) with
  | error fault =>
    rw [hp] at h
    cases enhance <;> cases h
  | ok plan =>
    rw [hp] at h
    cases enhance with
    | false =>
      cases h
      exact List.cons_ne_nil _ _
    | true =>
      simp only [if_true, Plan.renderAnswered, bind, Except.bind] at h
      cases hb : Chat.bodies s (Chat.answered plan.operations w.replies) with
      | error fault => simp [hb] at h
      | ok bodies =>
        rw [hb] at h
        cases h
        exact List.cons_ne_nil _ _

/-- All that a command generates has been worked out, and each file is written into the
directory. -/
def WritesAll (w : World) (document : String) (output : Option String) (enhance : Bool)
    (after : Files) : Prop :=
  ∃ s as, w.settings = .ok s ∧ w.artifacts s document enhance = .ok as ∧
    Artifact.Written (targetOf s output) as w.files after

/-- All that a command generates has been worked out, and the files are written into the directory
up to one that cannot be. -/
def StopsWriting (w : World) (document : String) (output : Option String) (enhance : Bool)
    (after : Files) : Prop :=
  ∃ s first rest, w.settings = .ok s ∧ w.artifacts s document enhance = .ok (first ++ rest) ∧
    rest ≠ [] ∧ Artifact.Written (targetOf s output) first w.files after

/-- The files are written, or they are as they were, or writing has stopped. -/
theorem generate_ends (w : World) (document : String) (output : Option String) (enhance : Bool) :
    (∃ lines after, w.generate document output enhance = (.ok lines, after) ∧
      w.WritesAll document output enhance after) ∨
    (∃ failure, w.generate document output enhance = (.error failure, w.files)) ∨
    ∃ path problem after,
      w.generate document output enhance = (.error (.unwritable path problem), after) ∧
      w.StopsWriting document output enhance after := by
  unfold World.generate
  cases hs : w.settings with
  | error failure => exact .inr (.inl ⟨failure, rfl⟩)
  | ok s =>
    cases ha : w.artifacts s document enhance with
    | error failure =>
      refine .inr (.inl ⟨failure, ?_⟩)
      simp only [bind, Except.bind, ha]
    | ok as =>
      simp only [bind, Except.bind, ha, pure, Except.pure]
      rcases Artifact.writeAll_run (targetOf s output) (artifacts_ne_nil ha) w.files with
        ⟨after, hr, hw⟩ | ⟨path, problem, after, first, rest, hr, rfl, hne, hw⟩
      · rw [hr]
        exact .inl ⟨_, after, rfl, s, as, hs, ha, hw⟩
      · rw [hr]
        exact .inr (.inr ⟨path, problem, after, rfl, s, first, rest, hs, ha, hne, hw⟩)

/-- All that is worked out is written, or the files are as they were, or writing has stopped. -/
theorem runCommand_ends (w : World) (command : Command) :
    (∃ lines after, w.runCommand command = (.ok lines, after) ∧
      ∀ document output enhance, command = .generate document output enhance →
        w.WritesAll document output enhance after) ∨
    (∃ failure, w.runCommand command = (.error failure, w.files)) ∨
    ∃ document output enhance path problem after, command = .generate document output enhance ∧
      w.runCommand command = (.error (.unwritable path problem), after) ∧
      w.StopsWriting document output enhance after := by
  cases command with
  | routes document =>
    cases hl : w.listing document with
    | ok lines => exact .inl ⟨lines, w.files, congrArg (·, w.files) hl, fun _ _ _ hc => nomatch hc⟩
    | error failure => exact .inr (.inl ⟨failure, congrArg (·, w.files) hl⟩)
  | generate document output enhance =>
    rcases w.generate_ends document output enhance with
      ⟨lines, after, hr, hw⟩ | hr | ⟨path, problem, after, hr, hs⟩
    · refine .inl ⟨lines, after, hr, fun _ _ _ hc => ?_⟩
      cases hc
      exact hw
    · exact .inr (.inl hr)
    · exact .inr (.inr ⟨document, output, enhance, path, problem, after, rfl, hr, hs⟩)

/-- A document, and a directory at the path of the router. -/
def blocked : World where
  files := ⟨["work"], [(["work"], .directory),
    (["work", "spec.json"], .file ("\x7b\"openapi\": \"3.0.0\", \"info\": \x7b\"title\": \"T\", " ++
      "\"version\": \"1\"\x7d, \"paths\": \x7b\x7d\x7d").toUTF8),
    (["work", "out"], .directory), (["work", "out", "router.py"], .directory)]⟩
  environment := []
  replies := fun _ => .lost

/-- The command line that generates the files for the document. -/
def blockedLine : List String := ["generate", "spec.json", "--output", "out"]

theorem blocked_leaves : ∃ outcome, blocked.run blockedLine = .ok outcome ∧ outcome.code = 1 ∧
    (outcome.files.read (Path.read "out/types.py")).isOk = true ∧
    (blocked.files.read (Path.read "out/types.py")).isOk = false := by
  have h : (match blocked.run blockedLine with
    | .ok outcome => outcome.code == 1 && (outcome.files.read (Path.read "out/types.py")).isOk &&
      !(blocked.files.read (Path.read "out/types.py")).isOk
    | .error _ => false) = true := by decide +kernel
  split at h
  · next outcome hr => exact ⟨outcome, hr, by simpa [and_assoc] using h⟩
  · cases h

end World

end RouteStubs
