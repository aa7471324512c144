import RouteStubs.Prose
import RouteStubs.Render.Artifact
import RouteStubs.Render.TypeText
import RouteStubs.Route.Group
import RouteStubs.Text.Lines

/-!
# Modules of handlers

Each route group becomes a module with a function for each operation, to be filled in, a table of
routes, and the code that finds the handler of a request.

## Main definitions

* `HandlerModule.placeholder`: the body of a handler that is not filled in.
* `HandlerModule.docstringOf`: the documentation of a handler.
* `HandlerModule.render`: the module.
-/

namespace RouteStubs.HandlerModule

open Text

/-- The body of a handler that is not filled in: an answer that says so. -/
def placeholder (op : Operation) : String :=
  "return httpx.Response(\n    501,\n    json=\x7b\"error\": \"Not implemented\", " ++
    "\"operationId\": " ++ quoted op.operationId ++ "\x7d,\n)"

/-- Whether something has to be there. -/
def requirement (required : Bool) : String := if required then "required" else "optional"

/-- The type expression of a body that may be missing. -/
def bodyText : Option Shape → String
  | none => "no content"
  | some node => node.typeText false

/-- The descriptions of an operation, each once. -/
def aboutLines (op : Operation) : List String :=
  [op.summary, op.description].foldl (fun lines text =>
    if text == "" || lines.contains (Prose.docstring text) then lines
    else lines ++ [Prose.docstring text]) [op.verb ++ " " ++ Prose.docstring op.path]

/-- The facts about an operation, one to a line. -/
def detailLines (op : Operation) : List String :=
  let list (texts : List String) : String := ", ".intercalate (texts.map Prose.docstring)
  ["Operation: " ++ Prose.docstring op.operationId] ++
  (if op.tags.isEmpty then [] else ["Tags: " ++ list op.tags]) ++
  (match op.parametersType with
    | some type => if type == "" then [] else ["Parameters: models." ++ type]
    | none => []) ++
  (op.parameters.map fun p =>
    "  " ++ Prose.docstring p.name ++ " (" ++ p.location.display ++ ", " ++
      requirement p.required ++ "): " ++ p.node.typeText false) ++
  (match op.requestBody with
    | some node =>
      ["Request body (" ++ requirement op.requestBodyRequired ++ "): " ++ node.typeText false]
    | none => []) ++
  (if op.responses.isEmpty then [] else
    "Responses:" :: op.responses.map fun (status, node) =>
      "  " ++ Prose.docstring status ++ ": " ++ bodyText node) ++
  (if op.security.isEmpty then [] else ["Security: " ++ list op.security])

/-- The documentation of a handler. -/
def docstringOf (op : Operation) : String :=
  "\n\n    ".intercalate
    (aboutLines op ++ (if op.deprecated then ["Deprecated."] else []) ++
      ["\n    ".intercalate (detailLines op)])

/-- A body inside a function. -/
def bodyInside (body : String) : String :=
  onChars (fun s => indent [' ', ' ', ' ', ' '] (trim (· == '\n') s)) body

/-- The body of a handler: the one that is given, or the placeholder. -/
def bodyFor (bodies : List (String × String)) (op : Operation) : String :=
  match bodies.lookup op.handler with
  | some body => if body == "" then placeholder op else body
  | none => placeholder op

/-- The lines of a handler. -/
def handlerLines (bodies : List (String × String)) (op : Operation) : List String :=
  ["",
    "",
    "def " ++ op.handler ++ "(",
    "    request: httpx.Request, env: Mapping[str, Any], params: dict[str, str]",
    ") -> httpx.Response:",
    "    \"\"\"" ++ docstringOf op,
    "    \"\"\"",
    bodyInside (bodyFor bodies op)]

/-- Texts as a tuple. -/
def tupleText (texts : List String) : String :=
  match texts with
  | [only] => "(" ++ quoted only ++ ",)"
  | several => "(" ++ ", ".intercalate (several.map quoted) ++ ")"

/-- The line of a route. -/
def routeLine (op : Operation) : String :=
  "    (" ++ quoted op.verb ++ ", " ++ tupleText (Route.segments op.path) ++ ", " ++ op.handler ++
    "),"

/-- The lines before the handlers. -/
def headLines (key title version typesModule : String) : List String :=
  ["\"\"\"Request handlers for the " ++ Prose.docstring key ++ " route group.",
    "",
    Prose.docstring title ++ " " ++ Prose.docstring version ++
      ". Generated by apistub: fill in the handler bodies;",
    "routing below them is regenerated from the OpenAPI document.",
    "\"\"\"",
    "",
    "from __future__ import annotations",
    "",
    "from collections.abc import Callable, Mapping",
    "from typing import TYPE_CHECKING, Any",
    "",
    "import httpx",
    "",
    "if TYPE_CHECKING:",
    "    from . import " ++ typesModule ++ " as models  # noqa: F401",
    "",
    "GROUP = " ++ quoted key,
    "",
    "Handler = Callable[[httpx.Request, Mapping[str, Any], dict[str, str]], httpx.Response]"]

/-- The code that finds the handler of a request. -/
def routingLines : List String :=
  [")",
    "",
    "",
    "def _segments(path: str) -> tuple[str, ...]:",
    "    stripped = path.strip(\"/\")",
    "    return tuple(stripped.split(\"/\")) if stripped else ()",
    "",
    "",
    "def _bind(template: tuple[str, ...], segments: tuple[str, ...]) -> dict[str, str] | None:",
    "    if len(template) != len(segments):",
    "        return None",
    "    params: dict[str, str] = \x7b\x7d",
    "    for expected, actual in zip(template, segments):",
    "        if expected.startswith(\"\x7b\") and expected.endswith(\"\x7d\"):",
    "            if not actual:",
    "                return None",
    "            params[expected[1:-1]] = actual",
    "        elif expected != actual:",
    "            return None",
    "    return params",
    "",
    "",
    "def match(method: str, path: str) -> tuple[Handler, dict[str, str]] | None:",
    "    \"\"\"Return the handler and path parameters for a request, if any.\"\"\"",
    "    segments = _segments(path)",
    "    for route_method, template, handler in ROUTES:",
    "        if route_method != method.upper():",
    "            continue",
    "        params = _bind(template, segments)",
    "        if params is not None:",
    "            return handler, params",
    "    return None",
    "",
    "",
    "def dispatch(request: httpx.Request, env: Mapping[str, Any] | None = None) -> httpx.Response:",
    "    \"\"\"Route ``request`` to its handler, or answer 404.\"\"\"",
    "    found = match(request.method, request.url.path)",
    "    if found is None:",
    "        return httpx.Response(",
    "            404,",
    "            json=\x7b",
    "                \"error\": \"Not found\",",
    "                \"group\": GROUP,",
    "                \"method\": request.method,",
    "                \"path\": request.url.path,",
    "            \x7d,",
    "        )",
    "    handler, params = found",
    "    return handler(request, env if env is not None else \x7b\x7d, params)"]

/-- The lines of the module. -/
def moduleLines (g : RouteGroup) (title version typesModule : String)
    (bodies : List (String × String)) : List String :=
  headLines g.key title version typesModule ++
  g.operations.flatMap (handlerLines bodies) ++
  ["", "", "# Literal segments are listed before parameters at the same position.",
    "ROUTES: tuple[tuple[str, tuple[str, ...], Handler], ...] = ("] ++
  g.routes.map routeLine ++ routingLines

/-- The module of a route group. -/
def render (g : RouteGroup) (title version typesPath directory : String)
    (bodies : List (String × String)) : Artifact :=
  { path := directory ++ g.module ++ ".py"
    content := Artifact.lines
      (moduleLines g title version (Artifact.moduleName typesPath) bodies)
    description := "Handlers for route group " ++ quoted g.key ++ " (" ++
      toString g.operations.length ++ " operations)" }

end RouteStubs.HandlerModule
