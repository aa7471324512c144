import Mathlib.Data.Option.Basic
import RouteStubs.Chat.Bodies
import RouteStubs.Proofs.Keyed
import RouteStubs.Proofs.Route.Names

/-!
# Whose answer becomes which body

The answers are matched with the operations by their places, and the bodies are kept under the names
of the handlers. These names are all different, so each handler gets the body in the answer for its
own operation, or keeps its placeholder. No answer stops the files from being generated. What does is
an address that cannot be read: the first request fails on it before anything is sent.

## Main definitions

* `Chat.bodyFrom?`: the body in what comes back, under the settings.
* `Chat.Misdirected`: somebody is asked at an address that cannot be read.
* `Chat.Filled`: what the bodies for operations are.

## Main statements

* `Body.works_of_ofAnswer?`: what is taken from an answer works as a body.
* `Chat.bodies_eq`: the bodies for operations with different handlers.
* `Plan.renderAnswered_filled`: how generating with answers ends.
* `Plan.not_renderAnswered_always`: an address that cannot be read ends it.
-/

namespace RouteStubs

namespace Body

/-- A body that is not blank, does not start with a function, and works as the block of a handler. -/
structure Works (body : String) : Prop where
  notBlank : Text.isBlankText body.toList = false
  noFunction : startsWithFunction body.toList = false
  usable : isUsable body.toList = true

/-- What is taken from an answer works as a body. -/
theorem works_of_ofAnswer? {answer body : String} (h : ofAnswer? answer = some body) :
    Works body := by
  unfold ofAnswer? at h
  dsimp only at h
  generalize written answer.toList = text at h
  split at h
  · cases h
  · next hfits =>
    simp only [Bool.or_eq_true, Bool.not_eq_true', not_or, Bool.not_eq_true,
      Bool.not_eq_false] at hfits
    obtain ⟨⟨hblank, hfunction⟩, husable⟩ := hfits
    obtain rfl : String.ofList text = body := Option.some.inj h
    constructor <;> rwa [String.toList_ofList]

theorem Works.ne_empty {body : String} (h : Works body) : body ≠ "" := by
  rintro rfl
  have hblank := h.notBlank
  rw [String.toList_empty] at hblank
  cases hblank

end Body

namespace Chat

variable {s : Settings} {a : Address} {pairs : List (Operation × Reply)} {reply : Reply}
  {operations : List Operation} {replies : Nat → Reply} {body : String}

/-! ### The bodies of operations -/

/-- The body in what comes back, if anybody is asked at all. -/
def bodyFrom? (s : Settings) (reply : Reply) : Option String :=
  if s.enhances then (address? s).bind fun a => bodyOf? s a reply else none

/-- Somebody is asked about operations, at an address that cannot be read. -/
def Misdirected (s : Settings) (operations : List Operation) : Prop :=
  s.enhances = true ∧ operations ≠ [] ∧ address? s = none

/-- A body comes from the text of an answer. -/
theorem exists_of_bodyFrom? (h : bodyFrom? s reply = some body) :
    ∃ answer, reply.text? = some answer ∧ Body.ofAnswer? answer = some body := by
  unfold bodyFrom? at h
  split at h
  · obtain ⟨a, -, h⟩ := Option.bind_eq_some_iff.mp h
    unfold bodyOf? at h
    split at h
    · exact Option.bind_eq_some_iff.mp h
    · cases h
  · cases h

theorem bodyFrom?_eq_none (s : Settings) (h : reply.text? = none) : bodyFrom? s reply = none := by
  rw [Option.eq_none_iff_forall_ne_some]
  intro body hbody
  obtain ⟨answer, htext, -⟩ := exists_of_bodyFrom? hbody
  rw [h] at htext
  cases htext

/-- With different handlers no body takes the place of another. -/
theorem foldl_addBody (known : List (String × String))
    (h : (pairs.map fun p => p.1.handler).Nodup)
    (hknown : ∀ p ∈ pairs, known.lookup p.1.handler = none) :
    pairs.foldl (addBody s a) known =
      known ++ pairs.filterMap fun p => (bodyOf? s a p.2).map (p.1.handler, ·) := by
  induction pairs generalizing known with
  | nil => simp
  | cons first rest ih =>
    rw [List.map_cons, List.nodup_cons] at h
    obtain ⟨hnew, hrest⟩ := h
    obtain ⟨hfirst, hothers⟩ := List.forall_mem_cons.mp hknown
    rw [List.foldl_cons, addBody, List.filterMap_cons]
    cases hb : bodyOf? s a first.2 with
    | none => simpa [hb] using ih known hrest hothers
    | some body =>
      simp only [Option.map_some]
      rw [Keyed.put_eq_append hfirst, ih _ hrest, List.append_assoc, List.singleton_append]
      -- the handlers that are still to come are not the one that was just added
      intro p hp
      have hne : p.1.handler ≠ first.1.handler := fun he =>
        hnew (he ▸ List.mem_map_of_mem hp)
      rw [List.lookup_append, hothers p hp, Option.none_or]
      simp [List.lookup_cons, beq_eq_false_iff_ne.mpr hne]

/-- The bodies for operations with different handlers, in the order of the operations. -/
theorem bodies_eq (h : (pairs.map fun p => p.1.handler).Nodup)
    (hm : ¬ Misdirected s (pairs.map Prod.fst)) :
    bodies s pairs =
      .ok (pairs.filterMap fun p => (bodyFrom? s p.2).map (p.1.handler, ·)) := by
  unfold bodies bodyFrom?
  cases he : s.enhances with
  | false => simp
  | true =>
    cases pairs with
    | nil => simp
    | cons first rest =>
      cases ha : address? s with
      | none => exact absurd ⟨he, by simp, ha⟩ hm
      | some a =>
        have hfold := foldl_addBody (s := s) (a := a) [] h (by simp)
        simpa [address, ha, Except.map] using hfold

/-- An address that cannot be read is a defect, whatever the answers would have been. -/
theorem bodies_misdirected (h : Misdirected s (pairs.map Prod.fst)) :
    bodies s pairs = .error (.defect .badAddress) := by
  obtain ⟨he, hne, ha⟩ := h
  have hsome : pairs.isEmpty = false := by
    cases pairs with
    | nil => exact absurd rfl hne
    | cons _ _ => rfl
  simp [bodies, address, he, ha, hsome, Except.map]

/-! ### Answers by place -/

theorem map_fst_answered (operations : List Operation) (replies : Nat → Reply) :
    (answered operations replies).map Prod.fst = operations := by
  simp [answered, Function.comp_def]

theorem map_handler_answered (operations : List Operation) (replies : Nat → Reply) :
    ((answered operations replies).map fun p => p.1.handler) = operations.map (·.handler) := by
  calc (answered operations replies).map (fun p => p.1.handler)
      = ((answered operations replies).map Prod.fst).map (·.handler) := by
        rw [List.map_map]
        rfl
    _ = operations.map (·.handler) := by rw [map_fst_answered]

theorem mem_answered_iff {p : Operation × Reply} : p ∈ answered operations replies ↔
    ∃ i, operations[i]? = some p.1 ∧ replies i = p.2 := by
  simp only [answered, List.mem_map, Prod.exists, List.mem_zipIdx_iff_getElem?]
  constructor
  · rintro ⟨op, i, hop, rfl⟩
    exact ⟨i, hop, rfl⟩
  · rintro ⟨i, hop, hreply⟩
    exact ⟨p.1, i, hop, Prod.ext rfl hreply⟩

/-- The bodies are those that the answers hold for the operations. -/
structure Filled (s : Settings) (operations : List Operation) (replies : Nat → Reply)
    (bodies : List (String × String)) : Prop where
  /-- No handler has two bodies. -/
  nodup : (bodies.map Prod.fst).Nodup
  /-- Each body is for the handler of an operation, is taken from the text of the answer for it, and
  works. -/
  source : ∀ name body, (name, body) ∈ bodies → ∃ i op answer, operations[i]? = some op ∧
    op.handler = name ∧ (replies i).text? = some answer ∧ Body.ofAnswer? answer = some body ∧
      Body.Works body
  /-- The body of a handler is the one in the answer for its operation. -/
  own : ∀ i op, operations[i]? = some op →
    bodies.lookup op.handler = bodyFrom? s (replies i)
  /-- What is written is this body, or else the placeholder. -/
  written : ∀ i op, operations[i]? = some op → HandlerModule.bodyFor bodies op =
    (bodyFrom? s (replies i)).getD (HandlerModule.placeholder op)

/-- Operations with different handlers get the bodies in the answers for them. -/
theorem filled_bodies (h : (operations.map (·.handler)).Nodup) (replies : Nat → Reply)
    (hm : ¬ Misdirected s operations) :
    ∃ found, bodies s (answered operations replies) = .ok found ∧
      Filled s operations replies found := by
  have hhandlers : ((answered operations replies).map fun p => p.1.handler).Nodup := by
    rw [map_handler_answered]
    exact h
  have hown : ∀ i op, operations[i]? = some op →
      ((answered operations replies).filterMap fun p =>
        (bodyFrom? s p.2).map (p.1.handler, ·)).lookup op.handler = bodyFrom? s (replies i) :=
    fun i op hop => by
      have hmem : (op, replies i) ∈ answered operations replies :=
        mem_answered_iff.mpr ⟨i, hop, rfl⟩
      exact Keyed.lookup_filterMap (fun p : Operation × Reply => bodyFrom? s p.2) hhandlers hmem
  refine ⟨_, bodies_eq hhandlers (by rwa [map_fst_answered]), ?_, ?_, hown, ?_⟩
  · exact Keyed.nodup_keys_filterMap _ hhandlers
  · intro name body hmem
    obtain ⟨p, hp, hbody⟩ := List.mem_filterMap.mp hmem
    obtain ⟨i, hop, hreply⟩ := mem_answered_iff.mp hp
    obtain ⟨body', hfrom, heq⟩ := Option.map_eq_some_iff.mp hbody
    cases heq
    obtain ⟨answer, htext, hanswer⟩ := exists_of_bodyFrom? hfrom
    exact ⟨i, p.1, answer, hop, rfl, hreply ▸ htext, hanswer, Body.works_of_ofAnswer? hanswer⟩
  · intro i op hop
    rw [HandlerModule.bodyFor, hown i op hop]
    cases hfrom : bodyFrom? s (replies i) with
    | none => rfl
    | some body =>
      -- a body that was taken from an answer is not empty
      obtain ⟨answer, -, hanswer⟩ := exists_of_bodyFrom? hfrom
      have hne := (Body.works_of_ofAnswer? hanswer).ne_empty
      simp [hne]

end Chat

/-- The marks in which a part of an address ends, as a list of characters. -/
theorem Address.upTo_eq (marks : String) (s : List Char) :
    upTo marks s = s.span fun c => !marks.toList.contains c := by
  unfold upTo
  congr 1
  funext c
  simp

namespace Plan

variable {document : Value} {plan : Plan}

/-- With an address that can be read each handler gets the body in the answer for its operation. -/
theorem exists_renderAnswered (h : ofDocument document = .ok plan) {s : Settings}
    (replies : Nat → Chat.Reply) (hm : ¬ Chat.Misdirected s plan.operations) : ∃ bodies,
      Chat.bodies s (Chat.answered plan.operations replies) = .ok bodies ∧
      Chat.Filled s plan.operations replies bodies ∧
      plan.renderAnswered s replies = .ok (plan.render s.directory bodies) := by
  have hnodup := (named_of_ofDocument h).nodup_handlers
  obtain ⟨bodies, hbodies, hfilled⟩ := Chat.filled_bodies hnodup replies hm
  refine ⟨bodies, hbodies, hfilled, ?_⟩
  rw [renderAnswered, hbodies]
  rfl

/-- With an address that cannot be read there are no files. -/
theorem renderAnswered_misdirected {s : Settings} (replies : Nat → Chat.Reply)
    (hm : Chat.Misdirected s plan.operations) :
    Chat.bodies s (Chat.answered plan.operations replies) = .error (.defect .badAddress) ∧
      plan.renderAnswered s replies = .error (.defect .badAddress) := by
  have hbodies : Chat.bodies s (Chat.answered plan.operations replies) =
      .error (.defect .badAddress) := by
    apply Chat.bodies_misdirected
    rwa [Chat.map_fst_answered]
  refine ⟨hbodies, ?_⟩
  rw [renderAnswered, hbodies]
  rfl

/-- A document with one operation. -/
def helloDocument : Value :=
  .mapping 0 [(.text "openapi", .text "3.0.0"),
    (.text "info", .mapping 1 [(.text "title", .text "T"), (.text "version", .text "1")]),
    (.text "paths", .mapping 2 [(.text "/hello", .mapping 3 [(.text "get", .mapping 4
      [(.text "operationId", .text "hello")])])])]

/-- The default settings, with a key for the service at an address. -/
def askingAt (apiUrl : String) : Settings where
  outputDir := "generated"
  artifactRoot := ""
  apiUrl := apiUrl
  apiKey := "key"
  model := "gpt-3.5-turbo"
  timeout := Binary64.ofInt 30
  maxTokens := 1000
  temperature := Binary64.ofRatio false 7 10

/-- An answer with a text. -/
def saying (text : String) : Chat.Reply :=
  .document 200 (Chat.mapping [("choices", .list [Chat.mapping [("message",
    Chat.mapping [("content", .text text)])]])])

theorem ofDocument_hello : ∃ plan, ofDocument helloDocument = .ok plan ∧
    plan.operations.map (·.handler) = ["hello"] := by
  have hchecked : (ofDocument helloDocument).toOption.any (fun plan =>
      plan.operations.map (·.handler) == ["hello"]) = true := by decide +kernel
  obtain ⟨plan, hplan, htest⟩ := exists_of_any hchecked
  exact ⟨plan, hplan, eq_of_beq htest⟩

/-- The word `port` is no number of a socket. -/
theorem misdirected_hello {operations : List Operation} (h : operations ≠ []) :
    Chat.Misdirected (askingAt "http://host:port") operations := by
  refine ⟨by decide +kernel, h, ?_⟩
  unfold Chat.address? Address.read?
  simp only [Address.upTo_eq]
  decide +kernel

/-- An address with a host alone can be read. -/
theorem not_misdirected_hello (operations : List Operation) :
    ¬ Chat.Misdirected (askingAt "http://host") operations := by
  rintro ⟨-, -, hnone⟩
  have hreadable : Chat.address? (askingAt "http://host") ≠ none := by
    unfold Chat.address? Address.read?
    simp only [Address.upTo_eq]
    decide +kernel
  exact hreadable hnone

/-- The text of an answer is the body. -/
theorem bodyFrom?_saying :
    Chat.bodyFrom? (askingAt "http://host") (saying "return None") = some "return None" := by
  unfold Chat.bodyFrom? Chat.address? Address.read?
  simp only [Address.upTo_eq]
  decide +kernel

end Plan

end RouteStubs
