import RouteStubs.Proofs.Outcomes
import RouteStubs.Proofs.Routing
import RouteStubs.Proofs.Route.Partition

/-!
# Paths of generated files

The paths of the generated files of a plan have all but their last names in common, and these are made
from the names of modules. So no two of the files have one path, no two paths lead to one place, and a
file that has been written is not written over by another.

## Main statements

* `Path.exists_read_append`: the path of a file in a directory.
* `Plan.nodup_paths`, `Plan.path_eq_of_locate`: no two generated files have one path or one place.
* `RouteGroup.exists_partition`: operations are grouped, and each group has a file of its own.
-/

namespace RouteStubs

/-! ### Paths in a directory -/

namespace Text

variable {sep : Char}

/-- What has no separator goes on the last piece of the text before it. -/
theorem exists_pieces_append (sep : Char) (s : List Char) : ∃ init last, ∀ more, sep ∉ more →
    pieces sep (s ++ more) = init ++ [last ++ more] := by
  induction s with
  | nil => exact ⟨[], [], fun more hm => pieces_of_notMem hm⟩
  | cons c rest ih =>
    obtain ⟨init, last, h⟩ := ih
    by_cases hc : c = sep
    · refine ⟨[] :: init, last, fun more hm => ?_⟩
      rw [List.cons_append, pieces, if_pos hc, h more hm, List.cons_append]
    · cases init with
      | nil =>
        refine ⟨[], c :: last, fun more hm => ?_⟩
        rw [List.cons_append, pieces, if_neg hc, h more hm]
        rfl
      | cons first others =>
        refine ⟨(c :: first) :: others, last, fun more hm => ?_⟩
        rw [List.cons_append, pieces, if_neg hc, h more hm]
        rfl

end Text

namespace Path

/-- The root is made of the slashes that a text starts with. -/
theorem rootOf_eq (s : List Char) : rootOf s =
    match (s.takeWhile (· == '/')).length with
    | 0 => ""
    | 2 => "//"
    | _ => "/" := by
  rcases s with _ | ⟨c, _ | ⟨d, _ | ⟨e, rest⟩⟩⟩
  · rfl
  · by_cases hc : c = '/' <;> simp [rootOf, hc]
  · by_cases hc : c = '/' <;> by_cases hd : d = '/' <;> simp [rootOf, hc, hd]
  · by_cases hc : c = '/' <;> by_cases hd : d = '/' <;> by_cases he : e = '/' <;>
      simp [rootOf, hc, hd, he]

theorem rootOf_append (s : List Char) {more : List Char} (h : '/' ∉ more) :
    rootOf (s ++ more) = rootOf s := by
  have hsame : (s ++ more).takeWhile (· == '/') = s.takeWhile (· == '/') := by
    induction s with
    | nil =>
      cases more with
      | nil => rfl
      | cons c rest =>
        have hc : c ≠ '/' := by
          rintro rfl
          exact h List.mem_cons_self
        exact List.takeWhile_cons_of_neg (by simpa using hc)
    | cons c rest ih => simp only [List.cons_append, List.takeWhile_cons, ih]
  rw [rootOf_eq, rootOf_eq, hsame]

/-- The name of a file goes on the last name of what is before it, whatever file it is. -/
theorem exists_read_append (before : String) : ∃ root names last, ∀ name : String,
    '/' ∉ name.toList → 2 < name.toList.length →
      read (before ++ name) = ⟨root, names ++ [String.ofList (last ++ name.toList)]⟩ := by
  obtain ⟨init, last, hpieces⟩ := Text.exists_pieces_append '/' before.toList
  refine ⟨rootOf before.toList, (init.map String.ofList).filter fun p => p != "" && p != ".", last,
    fun name hslash hlen => ?_⟩
  have hkept : (String.ofList (last ++ name.toList) != "" &&
      String.ofList (last ++ name.toList) != ".") = true := by
    have hlong : ∀ other : String, other.toList.length < 2 →
        String.ofList (last ++ name.toList) ≠ other := by
      rintro _ hshort rfl
      rw [String.toList_ofList, List.length_append] at hshort
      omega
    rw [bne_iff_ne.mpr (hlong "" (by decide)), bne_iff_ne.mpr (hlong "." (by decide))]
    rfl
  rw [read, String.toList_append, rootOf_append _ hslash, Text.split, String.toList_append,
    hpieces _ hslash, List.map_append, List.filter_append, List.map_singleton,
    List.filter_singleton, hkept]
  rfl

end Path

namespace Files

variable {fs : Files} {place : Location}

/-- The place of a file is named by the last name of its path. -/
theorem exists_locate_concat {root name : String} {names : List String} (hname : name ≠ "..")
    (h : fs.locate ⟨root, names ++ [name]⟩ = .ok place) :
    ∃ around, fs.locate ⟨root, names⟩ = .ok around ∧ place = around ++ [name] := by
  unfold locate at h ⊢
  rw [List.foldlM_append] at h
  cases haround : names.foldlM fs.follow (if root == "" then fs.here else []) with
  | error problem =>
    rw [haround] at h
    cases h
  | ok around =>
    refine ⟨around, rfl, ?_⟩
    rw [haround] at h
    change [name].foldlM fs.follow around = .ok place at h
    rw [List.foldlM_cons] at h
    simp only [List.foldlM_nil, bind_pure] at h
    unfold follow at h
    split at h
    · cases h
    · cases h
    · simp only [beq_iff_eq, hname, if_false, Except.ok.injEq] at h
      exact h.symm

end Files

namespace Artifact

variable {target : Path} {as : List Artifact} {before after : Files}

/-- Generated files with paths that lead to places of their own all keep what has been written into
them. -/
theorem Written.read_of_mem (h : Written target as before after) (hpaths : (as.map (·.path)).Nodup)
    (hplaces : ∀ a ∈ as, ∀ b ∈ as, ∀ place, after.locate (a.pathIn target) = .ok place →
      after.locate (b.pathIn target) = .ok place → a.path = b.path) :
    ∀ a ∈ as, after.read (a.pathIn target) = .ok a.content.toUTF8 := by
  intro a ha
  obtain ⟨first, last, rfl⟩ := List.append_of_mem ha
  obtain ⟨b, hb, hlocate, hread⟩ := h.whole rfl
  obtain ⟨place, hplace, -⟩ := Files.read_eq_ok.mp hread
  have hmem := List.mem_append_right first hb
  have hsame := hplaces a ha b hmem place hplace (hlocate.trans hplace)
  obtain rfl : a = b := List.inj_on_of_nodup_map hpaths ha hmem hsame
  exact hread

end Artifact

namespace Plan

variable {plan : Plan} {ops : List Operation} {directory : String} {bodies : List (String × String)}

/-- The names of the generated modules: the declarations, the router and the groups. -/
def moduleNames (plan : Plan) : List String :=
  "types" :: "router" :: plan.groups.map (·.module)

theorem paths_eq (plan : Plan) (directory : String) (bodies : List (String × String)) :
    (plan.render directory bodies).map (·.path) =
      plan.moduleNames.map fun name => directory ++ (name ++ ".py") := by
  simp only [render, moduleNames, List.map_cons, List.map_map]
  refine List.cons_eq_cons.mpr ⟨rfl, List.cons_eq_cons.mpr ⟨rfl, ?_⟩⟩
  apply List.map_congr_left
  intro g _
  exact String.append_assoc

theorem nodup_moduleNames (h : RouteGroup.Modules plan.groups) : plan.moduleNames.Nodup := by
  have hfree : ∀ name ∈ RouteGroup.reservedModules, name ∉ plan.groups.map (·.module) := by
    intro name hname hmem
    obtain ⟨g, hg, rfl⟩ := List.mem_map.mp hmem
    exact h.free g hg hname
  refine List.nodup_cons.mpr ⟨?_, List.nodup_cons.mpr ⟨hfree "router" (by decide), h.nodup⟩⟩
  rw [List.mem_cons, not_or]
  exact ⟨by decide, hfree "types" (by decide)⟩

/-- No two generated files have one path. -/
theorem nodup_paths (h : RouteGroup.Modules plan.groups) (directory : String)
    (bodies : List (String × String)) : ((plan.render directory bodies).map (·.path)).Nodup := by
  rw [paths_eq]
  refine (nodup_moduleNames h).map fun name name' heq => ?_
  simpa using heq

/-- The paths of generated files in a directory differ in their last names only. -/
theorem exists_pathIn (target : Path) (directory : String) : ∃ root names last,
    ∀ name : String, '/' ∉ name.toList →
      target.join (Path.read (directory ++ (name ++ ".py"))) =
        ⟨root, names ++ [String.ofList (last ++ (name ++ ".py").toList)]⟩ := by
  obtain ⟨root, names, last, h⟩ := Path.exists_read_append directory
  have hread : ∀ name : String, '/' ∉ name.toList →
      Path.read (directory ++ (name ++ ".py")) =
        ⟨root, names ++ [String.ofList (last ++ (name ++ ".py").toList)]⟩ := by
    intro name hslash
    apply h
    · rw [String.toList_append, List.mem_append, not_or]
      exact ⟨hslash, by decide⟩
    · rw [String.toList_append, List.length_append]
      exact Nat.lt_of_lt_of_le (by decide) (Nat.le_add_left _ _)
  by_cases hroot : root = ""
  · refine ⟨target.root, target.segments ++ names, last, fun name hslash => ?_⟩
    rw [hread name hslash, Path.join, if_pos (by simpa using hroot), List.append_assoc]
  · refine ⟨root, names, last, fun name hslash => ?_⟩
    rw [hread name hslash, Path.join, if_neg (by simpa using hroot)]

theorem slash_notMem_moduleNames (h : RouteGroup.Modules plan.groups) {name : String}
    (hname : name ∈ plan.moduleNames) : '/' ∉ name.toList := by
  rcases List.mem_cons.mp hname with rfl | hname
  · decide
  rcases List.mem_cons.mp hname with rfl | hname
  · decide
  obtain ⟨g, hg, rfl⟩ := List.mem_map.mp hname
  exact (h.legal g hg).slash_notMem

/-- No two generated files have one place. -/
theorem path_eq_of_locate (h : RouteGroup.Modules plan.groups) {a b : Artifact}
    (ha : a ∈ plan.render directory bodies) (hb : b ∈ plan.render directory bodies)
    {target : Path} {fs : Files} {place : Location}
    (hla : fs.locate (a.pathIn target) = .ok place)
    (hlb : fs.locate (b.pathIn target) = .ok place) : a.path = b.path := by
  have hpath : ∀ c ∈ plan.render directory bodies,
      ∃ name ∈ plan.moduleNames, directory ++ (name ++ ".py") = c.path := by
    intro c hc
    exact List.mem_map.mp (paths_eq plan directory bodies ▸ List.mem_map_of_mem hc)
  obtain ⟨name, hname, hpa⟩ := hpath a ha
  obtain ⟨name', hname', hpb⟩ := hpath b hb
  obtain ⟨root, names, last, hin⟩ := exists_pathIn target directory
  -- a name with a suffix does not lead back to the directory around
  have hdots : ∀ name : String, String.ofList (last ++ (name ++ ".py").toList) ≠ ".." := by
    intro name heq
    have hends := congrArg (fun s : String => s.toList.getLast?) heq
    simp at hends
  rw [Artifact.pathIn, ← hpa, hin name (slash_notMem_moduleNames h hname)] at hla
  rw [Artifact.pathIn, ← hpb, hin name' (slash_notMem_moduleNames h hname')] at hlb
  obtain ⟨around, haround, hplace⟩ := Files.exists_locate_concat (hdots name) hla
  obtain ⟨around', haround', hplace'⟩ := Files.exists_locate_concat (hdots name') hlb
  obtain rfl : around = around' := Except.ok.inj (haround.symm.trans haround')
  have hlast := List.append_cancel_left (hplace.symm.trans hplace')
  have hchars := congrArg String.toList (List.cons.inj hlast).1
  rw [String.toList_ofList, String.toList_ofList] at hchars
  rw [← hpa, ← hpb, String.toList_inj.mp (List.append_cancel_left hchars)]

end Plan

/-- **Groups are a partition, and each has a file of its own.** All operations can be grouped; each is
in exactly one group, in its order, and the groups stand in the order in which their keys appear first.
Their modules have distinct names that are identifiers and not reserved, so that of the files that are
generated no two have one path, and each one keeps what is written into it. -/
theorem RouteGroup.exists_partition (ops : List Operation) :
    ∃ groups, ofOperations ops = .ok groups ∧ Partition ops groups ∧
      (∀ op ∈ ops, ∃! g, g ∈ groups ∧ op ∈ g.operations) ∧ Modules groups ∧
      ∀ plan : Plan, plan.groups = groups → ∀ directory bodies,
        ((plan.render directory bodies).map (·.path)).Nodup ∧
        ∀ target fs paths after,
          (Artifact.writeAll target (plan.render directory bodies)).run.run fs = (.ok paths, after) →
          ∀ a ∈ plan.render directory bodies,
            after.read (a.pathIn target) = .ok a.content.toUTF8 := by
  obtain ⟨groups, hgroups, hmodules⟩ := exists_modules ops
  have hpartition := partition_of_ofOperations hgroups
  refine ⟨groups, hgroups, hpartition, fun op => hpartition.existsUnique, hmodules, ?_⟩
  rintro plan rfl directory bodies
  have hpaths := Plan.nodup_paths hmodules directory bodies
  refine ⟨hpaths, fun target fs paths after hrun => ?_⟩
  have hsome : plan.render directory bodies ≠ [] := List.cons_ne_nil _ _
  rcases Artifact.writeAll_run target hsome fs with
    ⟨mid, hok, hwritten⟩ | ⟨path, problem, mid, first, rest, herr, -⟩
  · obtain rfl : mid = after := congrArg Prod.snd (hok.symm.trans hrun)
    exact hwritten.read_of_mem hpaths fun a ha b hb place hla hlb =>
      Plan.path_eq_of_locate hmodules ha hb hla hlb
  · rw [herr] at hrun
    cases hrun

/-- Two keys ask for one name, and the second gets a number. -/
theorem RouteGroup.exists_partition_numbered : ∃ plan,
    Plan.ofDocument (Plan.gettingTwo "/a-b/x" "/a.b/y") = .ok plan ∧
      Partition plan.operations plan.groups ∧ plan.groups.map (·.module) = ["a_b", "a_b2"] ∧
      ((plan.render "" []).map (·.path)).Nodup := by
  have hchecked : (Plan.ofDocument (Plan.gettingTwo "/a-b/x" "/a.b/y")).toOption.any (fun plan =>
      plan.groups.map (·.module) == ["a_b", "a_b2"]) = true := by decide +kernel
  obtain ⟨plan, hplan, hchecked⟩ := Plan.exists_of_any hchecked
  obtain ⟨groups, hgroups, hpartition, -, -, hfiles⟩ := exists_partition plan.operations
  obtain rfl : plan.groups = groups :=
    Except.ok.inj ((Plan.ofOperations_of_ofDocument hplan).symm.trans hgroups)
  exact ⟨plan, hplan, hpartition, eq_of_beq hchecked, (hfiles plan rfl "" []).1⟩

end RouteStubs
