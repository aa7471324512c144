import RouteStubs.Proofs.Render.Lines
import RouteStubs.Render.RouterModule

/-!
# What the router module has beside its code

All that the router module says about a document is in one docstring; what it does with route groups is
in code, as literals and names.

## Main definitions

* `RouterModule.remarks`: the docstrings and the comments that the module is written with.

## Main statements

* `RouterModule.remarks?_render`: the module has these docstrings and comments, and no others.
-/

namespace RouteStubs.RouterModule

open Text

variable {groups : List RouteGroup} {title version : String}

/-- The docstring of the module. -/
def moduleDoc (title version : String) : List String :=
  ["Request router for " ++ Prose.docstring title ++ " " ++ Prose.docstring version ++ ".",
    "",
    "Generated by apistub. Looks only at the first path segment of a request and",
    "forwards it to the matching route group."]

/-- The docstrings and the comments of the module. -/
def remarks (title version : String) : List Remark :=
  [.docstring (linesChars (moduleDoc title version)),
    .comment " Route group name -> dispatcher module".toList,
    .comment " First path segment -> dispatcher module".toList,
    .comment " Groups keyed by tag, tried when no prefix matches".toList,
    .docstring "Forward ``request`` to its route group, or answer 404.".toList]

/-- An entry that leads from a text to a module. -/
theorem silent_entry {module : String} (h : Tame module) (key : String) :
    Silent ("    " ++ quoted key ++ ": " ++ module ++ ",").toList :=
  silent_append (silent_append (Shape.silent_literal (Tame.silent (.of_chars rfl (by decide))) (.text key) (by decide)
    (by decide)) h.silent) (Tame.silent (.of_chars rfl (by decide)))

theorem writesLines_head (title version : String) :
    WritesLines (["\"\"\"Request router for " ++ Prose.docstring title ++ " " ++
          Prose.docstring version ++ ".",
        "",
        "Generated by apistub. Looks only at the first path segment of a request and",
        "forwards it to the matching route group.",
        "\"\"\"",
        "",
        "from __future__ import annotations",
        "",
        "from collections.abc import Mapping",
        "from types import ModuleType",
        "from typing import Any",
        "",
        "import httpx",
        ""]) [.docstring (linesChars (moduleDoc title version))] True := by
  have hinner : ∀ l ∈ ["",
      "Generated by apistub. Looks only at the first path segment of a request and",
      "forwards it to the matching route group."], Tame l :=
    List.forall_mem_cons.mpr ⟨by decide, List.forall_mem_cons.mpr ⟨.of_chars rfl (by decide),
      List.forall_mem_singleton.mpr (.of_chars rfl (by decide))⟩⟩
  have hline : "\"\"\"Request router for " = "\"\"\"" ++ "Request router for " := rfl
  have hdoc := writesLines_titled hline (.of_chars rfl (by decide)) hinner title version
  have himports : WritesLines ["", "from __future__ import annotations", "",
      "from collections.abc import Mapping", "from types import ModuleType", "from typing import Any",
      "", "import httpx", ""] [] True := writesLines_static (by repeat constructor) (by decide +kernel)
  exact (hdoc.append himports).congr (by rw [and_true])

/-- The module has the docstrings and the comments that it is written with, and no others. -/
theorem remarks?_render (h : ∀ g ∈ groups, Tame g.module) (title version directory : String) :
    remarks? (render groups title version directory).content.toList =
      some (remarks title version) := by
  have hmodules : WritesLines (groups.map fun g => "from . import " ++ g.module) [] True :=
    writesLines_map fun g hg => Tame.silent (Tame.append (.of_chars rfl (by decide)) (h g hg))
  have hkeys : WritesLines (groups.map fun g => "    " ++ quoted g.key ++ ": " ++ g.module ++ ",") []
      True := writesLines_map fun g hg => silent_entry (h g hg) g.key
  have hsegments : WritesLines (groups.filterMap fun g =>
      g.segment?.map fun segment => "    " ++ quoted segment ++ ": " ++ g.module ++ ",") [] True := by
    rw [← List.map_id (List.filterMap _ _)]
    refine writesLines_map fun line hline => ?_
    obtain ⟨g, hg, hentry⟩ := List.mem_filterMap.mp hline
    obtain ⟨segment, -, rfl⟩ := Option.map_eq_some_iff.mp hentry
    exact silent_entry (h g hg) segment
  have htags : WritesLines ((groups.filter (·.byTag)).map fun g => "    " ++ g.module ++ ",") []
      True := writesLines_map fun g hg =>
    Tame.silent ((Tame.append (.of_chars rfl (by decide)) (h g (List.mem_of_mem_filter hg))).append (.of_chars rfl (by decide)))
  have hall : WritesLines (moduleLines groups title version)
      ([.docstring (linesChars (moduleDoc title version))] ++ [] ++
        [.comment " Route group name -> dispatcher module".toList] ++ [] ++
        [.comment " First path segment -> dispatcher module".toList] ++ [] ++
        [.comment " Groups keyed by tag, tried when no prefix matches".toList] ++ [] ++
        [.docstring "Forward ``request`` to its route group, or answer 404.".toList]) _ :=
    ((((((((writesLines_head title version).append hmodules).append
      (writesLines_static (by repeat constructor) (by decide +kernel))).append hkeys).append
      (writesLines_static (by repeat constructor) (by decide +kernel))).append hsegments).append
      (writesLines_static (by repeat constructor) (by decide +kernel))).append htags).append
      (writesLines_static (by repeat constructor) (by decide +kernel))
  rw [render, Artifact.toList_lines]
  exact hall.iff.mpr (by simp)

end RouteStubs.RouterModule
