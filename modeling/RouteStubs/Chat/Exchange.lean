import RouteStubs.Chat.Address
import RouteStubs.Chat.Prompt
import RouteStubs.Fault
import RouteStubs.Settings

/-!
# Exchanges with a chat service

One request for each operation, and what may come back. Only an answer that says that it has
succeeded counts, and of it only the text of the first choice.

## Main definitions

* `Chat.Request`: a request, as `Chat.request` makes it for an operation.
* `Chat.Reply`: what comes back, and `Chat.Reply.text?`, the text in it.
* `Chat.sends`: whether a request can be sent at all.
-/

namespace RouteStubs.Chat

/-- A request. -/
structure Request where
  /-- The method. -/
  method : String
  /-- The address that the request is sent to. -/
  url : String
  /-- The header that authorises the request. -/
  authorization : String
  /-- The header that says what the body of the request is. -/
  contentType : String
  /-- The seconds that the service has for an answer. -/
  timeout : Binary64
  /-- The body of the request. -/
  payload : Value

/-- What comes back for a request. -/
inductive Reply where
  /-- Nothing: the request has failed on its way. -/
  | lost
  /-- An answer whose body is a document. -/
  | document (status : Int) (body : Value)
  /-- An answer whose body is a text. -/
  | text (status : Int) (body : String)
  /-- An answer whose body cannot be decoded as a text. -/
  | undecodable (status : Int)

/-! ### Requests -/

/-- The address that requests are sent to. -/
def address? (s : Settings) : Option Address :=
  Address.read? (Text.onChars (Text.trimRight (· == '/')) s.apiUrl ++ "/chat/completions")

/-- The address that requests are sent to. That no address can be read is a defect of the whole
run. -/
def address (s : Settings) : Except Fault Address :=
  match address? s with
  | some a => .ok a
  | none => .error (.defect .badAddress)

/-- A mapping with text keys. -/
def mapping (entries : List (String × Value)) : Value :=
  .mapping 0 (entries.map fun e => (.text e.1, e.2))

/-- A message in a role. -/
def message (role content : String) : Value :=
  mapping [("role", .text role), ("content", .text content)]

/-- The header that authorises a request: the credentials of the address, or else the key. -/
def authorization (s : Settings) (a : Address) : String :=
  match a.credentials? with
  | some bytes => "Basic " ++ String.ofList (base64 bytes)
  | none => "Bearer " ++ s.apiKey

/-- The request for the body of a handler. -/
def request (s : Settings) (a : Address) (op : Operation) : Request :=
  { method := "POST"
    url := (if a.isAbsolute then a else a.fromRoot).text
    authorization := authorization s (if a.isAbsolute then a else a.fromRoot)
    contentType := "application/json"
    timeout := s.timeout
    payload := mapping
      [("model", .text s.model),
        ("messages", .list [message "system" Prompt.role,
          message "user" (Prompt.ofOperation op)]),
        ("max_tokens", .scalar (.int s.maxTokens)),
        ("temperature", .scalar (.real s.temperature))] }

/-- Whether a request can be sent: a header holds ASCII only. -/
def sends (s : Settings) : Bool := s.apiKey.toList.all fun c => c.toNat < 128

/-! ### Replies -/

/-- A text without the mark of its encoding. -/
def withoutMark (s : String) : List Char :=
  match s.toList with
  | '\ufeff' :: rest => rest
  | all => all

/-- The body of a reply that says that it has succeeded. -/
def Reply.body? : Reply → Option Value
  | .lost => none
  | .document status body => if 200 ≤ status ∧ status < 300 then some body else none
  | .text status body =>
    if 200 ≤ status ∧ status < 300 then Json.readFrom? 0 (withoutMark body) else none
  | .undecodable _ => none

/-- The first item of a list. -/
def firstItem? : Value → Option Value
  | .list (v :: _) => some v
  | _ => none

/-- The text of the first choice in the body of a reply. -/
def contentOf? (body : Value) : Option String := do
  let choice ← (body.member? "choices").bind firstItem?
  match ← (choice.member? "message").bind (·.member? "content") with
  | .scalar (.text s) => some s
  | _ => none

/-- The text of the first choice in a reply. -/
def Reply.text? (reply : Reply) : Option String := reply.body?.bind contentOf?

end RouteStubs.Chat
