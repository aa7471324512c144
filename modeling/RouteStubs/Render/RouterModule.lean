import RouteStubs.Prose
import RouteStubs.Render.Artifact
import RouteStubs.Route.Group
import RouteStubs.Text.Quoted

/-!
# The router module

One module sends each request on to the module of its route group.

## Main definitions

* `RouterModule.render`: the module.
-/

namespace RouteStubs.RouterModule

open Text

/-- The lines of the module. -/
def moduleLines (groups : List RouteGroup) (title version : String) : List String :=
  ["\"\"\"Request router for " ++ Prose.docstring title ++ " " ++ Prose.docstring version ++ ".",
    "",
    "Generated by apistub. Looks only at the first path segment of a request and",
    "forwards it to the matching route group.",
    "\"\"\"",
    "",
    "from __future__ import annotations",
    "",
    "from collections.abc import Mapping",
    "from types import ModuleType",
    "from typing import Any",
    "",
    "import httpx",
    ""] ++
  (groups.map fun g => "from . import " ++ g.module) ++
  ["",
    "# Route group name -> dispatcher module",
    "GROUPS: dict[str, ModuleType] = \x7b"] ++
  (groups.map fun g => "    " ++ quoted g.key ++ ": " ++ g.module ++ ",") ++
  ["\x7d",
    "",
    "# First path segment -> dispatcher module",
    "PREFIXES: dict[str, ModuleType] = \x7b"] ++
  (groups.filterMap fun g =>
    g.segment?.map fun segment => "    " ++ quoted segment ++ ": " ++ g.module ++ ",") ++
  ["\x7d",
    "",
    "# Groups keyed by tag, tried when no prefix matches",
    "FALLBACKS: tuple[ModuleType, ...] = ("] ++
  ((groups.filter (·.byTag)).map fun g => "    " ++ g.module ++ ",") ++
  [")",
    "",
    "",
    "def dispatch(request: httpx.Request, env: Mapping[str, Any] | None = None) -> httpx.Response:",
    "    \"\"\"Forward ``request`` to its route group, or answer 404.\"\"\"",
    "    path = request.url.path",
    "    prefix = path.lstrip(\"/\").split(\"/\", 1)[0]",
    "    group = PREFIXES.get(prefix)",
    "    if group is not None:",
    "        return group.dispatch(request, env)",
    "    for group in FALLBACKS:",
    "        if group.match(request.method, path) is not None:",
    "            return group.dispatch(request, env)",
    "    return httpx.Response(",
    "        404,",
    "        json=\x7b\"error\": \"Not found\", \"path\": path, \"groups\": list(GROUPS)\x7d,",
    "    )"]

/-- The module for route groups. -/
def render (groups : List RouteGroup) (title version directory : String) : Artifact :=
  { path := directory ++ "router.py"
    content := Artifact.lines (moduleLines groups title version)
    description := "Request router over " ++ toString groups.length ++ " route groups" }

end RouteStubs.RouterModule
