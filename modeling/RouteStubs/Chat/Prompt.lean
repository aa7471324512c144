import RouteStubs.Render.HandlerModule

/-!
# Prompts

What a chat service is asked: to write the body of a handler, from what is known of its operation.

## Main definitions

* `Prompt.role`: what the service is told about its task.
* `Prompt.ofOperation`: the request for one body.
-/

namespace RouteStubs.Prompt

/-- What the service is told about its task. -/
def role : String :=
  "You are a Python expert writing HTTP request handlers. " ++
    "Answer with Python statements only, no explanations."

/-- Facts as the items of a list, one to a line. -/
def listed (facts : List String) : String :=
  if facts.isEmpty then "- none" else "\n".intercalate (facts.map ("- " ++ ·))

/-- What is known of a parameter. -/
def parameterFact (p : Parameter) : String :=
  p.name ++ " (" ++ p.location.display ++ ", " ++ HandlerModule.requirement p.required ++ "): " ++
    p.node.typeText false

/-- What is known of a response. -/
def responseFact (response : String × Option Shape) : String :=
  response.1 ++ ": " ++ HandlerModule.bodyText response.2

/-- What the document says about an operation: the long description, or else the short one. -/
def about (op : Operation) : String :=
  if op.description != "" then op.description
  else if op.summary != "" then op.summary
  else "No description provided"

/-- The request for the body of a handler. -/
def ofOperation (op : Operation) : String :=
  "\n".intercalate
    ["Write the body of this Python handler function:",
      "",
      "def " ++ op.handler ++ "(request: httpx.Request, env: Mapping[str, Any], " ++
        "params: dict[str, str]) -> httpx.Response:",
      "",
      "Operation ID: " ++ op.operationId,
      "Method: " ++ op.verb,
      "Path: " ++ op.path,
      "Description: " ++ about op,
      "Parameters:",
      listed (op.parameters.map parameterFact),
      "Request body: " ++ (op.requestBody.map (·.typeText false)).getD "none",
      "Responses:",
      listed (op.responses.map responseFact),
      "",
      "Requirements:",
      "- Path parameters are in `params`; read the query from `request.url.params`",
      "  and the JSON body with `json.loads(request.content)` (import inside the body)",
      "- `httpx` is already imported; return an `httpx.Response`",
      "- Include proper error handling and TODO comments for business logic",
      "- Return only the function body, without the `def` line"]

end RouteStubs.Prompt
