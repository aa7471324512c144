import Mathlib.Data.List.Sort
import RouteStubs.Proofs.Route.Segments

/-!
# The most specific route

A module of handlers tries its routes in an order in which the more specific templates come first.
So the first that matches a request is a most specific one of those that match. The functions that
the routing code calls are there as long as no handler has their name.

## Main definitions

* `Operation.Matches`: an operation matches a request.
* `Route.MostSpecific`: an operation matches a request, and none that does is more specific.
* `RouteGroup.Unshadowed`: no handler has the name of a function that the routing code calls.
* `RouteGroup.Gives`: what a module answers to a request.

## Main statements

* `RouteGroup.pairwise_routes`: the order of the routes.
* `RouteGroup.match?_cases`: what is found is a most specific operation that matches, and nothing is
  found only if none matches.
* `RouteGroup.exists_gives`: a module always answers.
-/

namespace RouteStubs

/-! ### The order of patterns -/

namespace Route

theorem patternLe_refl (a : List Bool) : patternLe a a = true := by
  induction a with
  | nil => rfl
  | cons first rest ih => simpa [patternLe] using ih

/-- One pattern comes before another by what follows equal first segments, or else when it starts
with a literal segment and the other with a parameter. -/
theorem patternLe_cons_iff {x y : Bool} {a b : List Bool} : patternLe (x :: a) (y :: b) = true ↔
    (x = y ∧ patternLe a b = true) ∨ (x = false ∧ y = true) := by
  rw [patternLe]
  cases x <;> cases y <;> simp

theorem patternLe_trans {a b c : List Bool} (hab : patternLe a b = true)
    (hbc : patternLe b c = true) : patternLe a c = true := by
  induction a generalizing b c with
  | nil => rfl
  | cons x a ih =>
    cases b with
    | nil => cases hab
    | cons y b =>
      cases c with
      | nil => cases hbc
      | cons z c =>
        rw [patternLe_cons_iff] at hab hbc ⊢
        rcases hab with ⟨rfl, hab⟩ | ⟨rfl, rfl⟩
        · rcases hbc with ⟨rfl, hbc⟩ | hbc
          · exact .inl ⟨rfl, ih hab hbc⟩
          · exact .inr hbc
        · rcases hbc with ⟨rfl, _⟩ | ⟨hy, _⟩
          · exact .inr ⟨rfl, rfl⟩
          · cases hy

theorem patternLe_total (a b : List Bool) : (patternLe a b || patternLe b a) = true := by
  rw [Bool.or_eq_true]
  induction a generalizing b with
  | nil => exact .inl rfl
  | cons x a ih =>
    cases b with
    | nil => exact .inr rfl
    | cons y b =>
      rw [patternLe_cons_iff, patternLe_cons_iff]
      rcases Bool.eq_false_or_eq_true x with rfl | rfl <;>
        rcases Bool.eq_false_or_eq_true y with rfl | rfl
      · simpa using ih b
      · exact .inr (.inr ⟨rfl, rfl⟩)
      · exact .inl (.inr ⟨rfl, rfl⟩)
      · simpa using ih b

/-- What starts with a literal segment comes before what starts with a parameter. -/
theorem patternLe_of_heads {a b : List Bool} (ha : a.head? = some false)
    (hb : b.head? = some true) : patternLe a b = true := by
  cases a with
  | nil => cases ha
  | cons x as =>
    cases b with
    | nil => cases hb
    | cons y bs =>
      obtain rfl : x = false := Option.some_inj.mp ha
      obtain rfl : y = true := Option.some_inj.mp hb
      rfl

end Route

/-! ### Operations that match -/

/-- The operation has the method of a request, and its template fits the path. -/
def Operation.Matches (op : Operation) (method path : String) : Prop :=
  op.verb = Text.upperCase method ∧ Route.Fits (Route.segments op.path) (Route.segments path)

instance (op : Operation) (method path : String) : Decidable (op.Matches method path) :=
  inferInstanceAs (Decidable (_ ∧ _))

/-- One operation of several matches a request, and of those that do none is more specific. -/
structure Route.MostSpecific (ops : List Operation) (method path : String) (op : Operation) :
    Prop where
  mem : op ∈ ops
  matched : op.Matches method path
  le : ∀ other ∈ ops, other.Matches method path →
    Route.patternLe (Route.pattern op.path) (Route.pattern other.path) = true

theorem Route.MostSpecific.congr {ops ops' : List Operation} {method path : String}
    {op : Operation} (h : Route.MostSpecific ops method path op)
    (hmem : ∀ op, op ∈ ops ↔ op ∈ ops') : Route.MostSpecific ops' method path op where
  mem := (hmem op).mp h.mem
  matched := h.matched
  le := fun other ho hm => h.le other ((hmem other).mpr ho) hm

/-! ### The routes of a module -/

namespace RouteGroup

variable {g : RouteGroup} {method path : String} {op : Operation}

/-- The functions of the language that the routing code of a module calls by name. -/
def called : List String := ["len", "zip", "tuple"]

/-- No handler has the name of a function that the routing code calls. -/
def Unshadowed (g : RouteGroup) : Prop := ∀ op ∈ g.operations, op.handler ∉ called

theorem Unshadowed.call (h : g.Unshadowed) {function : String} (hf : function ∈ called) :
    g.call function = .ok () := by
  have hno : g.shadows function = false := by
    rw [shadows, List.any_eq_false]
    intro op hop heq
    rw [beq_iff_eq] at heq
    exact h op hop (heq ▸ hf)
  rw [RouteGroup.call, if_neg (by simp [hno])]

/-- The more specific templates come first. -/
theorem pairwise_routes (g : RouteGroup) : g.routes.Pairwise fun a b =>
    Route.patternLe (Route.pattern a.path) (Route.pattern b.path) = true := by
  unfold routes
  apply List.pairwise_mergeSort
  · intro a b c hab hbc
    exact Route.patternLe_trans hab hbc
  · intro a b
    exact Route.patternLe_total _ _

theorem mem_routes_iff : op ∈ g.routes ↔ op ∈ g.operations := List.mem_mergeSort

/-- A route binds its parameters for the paths that fit it. -/
theorem Unshadowed.bindRoute (h : g.Unshadowed) (template segments : List String) :
    g.bindRoute template segments = .ok (Route.bind? template segments) := by
  rw [RouteGroup.bindRoute, h.call (by simp [called])]
  by_cases hlen : template.length = segments.length
  · simp only [hlen, bne_self_eq_false, h.call (show "zip" ∈ called by simp [called])]
    rfl
  · have hnone : Route.bind? template segments = none :=
      Route.bind?_eq_none_iff.mpr fun hfits => hlen hfits.length_eq
    simp only [hnone, bne_iff_ne.mpr hlen]
    rfl

/-- The first match in a list of routes, the more specific before the others, is a most specific
one. -/
theorem firstMatch_cases (h : g.Unshadowed) (method path : String) {routes : List Operation}
    (sorted : routes.Pairwise fun a b =>
      Route.patternLe (Route.pattern a.path) (Route.pattern b.path) = true) :
    (∃ op bound, g.firstMatch (Text.upperCase method) (Route.segments path) routes
        = .ok (some (op, bound)) ∧ Route.MostSpecific routes method path op) ∨
    (g.firstMatch (Text.upperCase method) (Route.segments path) routes = .ok none ∧
      ∀ op ∈ routes, ¬op.Matches method path) := by
  induction routes with
  | nil => exact .inr ⟨rfl, fun op hop => absurd hop List.not_mem_nil⟩
  | cons first rest ih =>
    obtain ⟨hfirst, hrest⟩ := List.pairwise_cons.mp sorted
    -- a route that does not match is passed over
    have hskip : ¬first.Matches method path →
        g.firstMatch (Text.upperCase method) (Route.segments path) (first :: rest) =
          g.firstMatch (Text.upperCase method) (Route.segments path) rest := by
      intro hnot
      rw [firstMatch]
      by_cases hverb : first.verb = Text.upperCase method
      · have hnone : Route.bind? (Route.segments first.path) (Route.segments path) = none :=
          Route.bind?_eq_none_iff.mpr fun hfits => hnot ⟨hverb, hfits⟩
        rw [if_neg (by simpa using hverb), h.bindRoute, hnone]
        rfl
      · rw [if_pos (by simpa using hverb)]
    by_cases hm : first.Matches method path
    · obtain ⟨bound, hbound⟩ := Option.isSome_iff_exists.mp ((Route.isSome_bind? _ _).mpr hm.2)
      refine .inl ⟨first, bound, ?_, List.mem_cons_self, hm, ?_⟩
      · rw [firstMatch, if_neg (by simpa using hm.1), h.bindRoute, hbound]
        rfl
      · intro other ho _
        rcases List.mem_cons.mp ho with rfl | ho
        · exact Route.patternLe_refl _
        · exact hfirst other ho
    · rw [hskip hm]
      rcases ih hrest with ⟨op, bound, hfound, hop⟩ | ⟨hnone, hno⟩
      · refine .inl ⟨op, bound, hfound, List.mem_cons_of_mem _ hop.mem, hop.matched, ?_⟩
        intro other ho hmatch
        rcases List.mem_cons.mp ho with rfl | ho
        · exact absurd hmatch hm
        · exact hop.le other ho hmatch
      · refine .inr ⟨hnone, fun op hop => ?_⟩
        rcases List.mem_cons.mp hop with rfl | hop
        · exact hm
        · exact hno op hop

/-- A module finds a most specific operation that matches, or none if none matches. -/
theorem match?_cases (h : g.Unshadowed) (method path : String) :
    (∃ op bound, g.match? method path = .ok (some (op, bound)) ∧
      Route.MostSpecific g.operations method path op) ∨
    (g.match? method path = .ok none ∧ ∀ op ∈ g.operations, ¬op.Matches method path) := by
  have hmatch : g.match? method path =
      g.firstMatch (Text.upperCase method) (Route.segments path) g.routes := by
    rw [match?, h.call (by simp [called])]
    split <;> rfl
  rw [hmatch]
  rcases firstMatch_cases h method path g.pairwise_routes with
    ⟨op, bound, hfound, hop⟩ | ⟨hnone, hno⟩
  · exact .inl ⟨op, bound, hfound, hop.congr fun _ => mem_routes_iff⟩
  · exact .inr ⟨hnone, fun op hop => hno op (mem_routes_iff.mpr hop)⟩

/-! ### The answers of a module -/

/-- The answer of a module none of whose operations matches. -/
def notFound (g : RouteGroup) (method path : String) : Route.Answer :=
  ⟨404, .mapping 0 [(.text "error", .text "Not found"), (.text "group", .text g.key),
    (.text "method", .text method), (.text "path", .text path)]⟩

/-- What a module answers to a request: a most specific operation that matches, or that there is
none. -/
inductive Gives (g : RouteGroup) (method path : String) : Route.Answer → Prop
  | handled {op : Operation} (h : Route.MostSpecific g.operations method path op) :
    g.Gives method path (placeholderAnswer op)
  | missed (h : ∀ op ∈ g.operations, ¬op.Matches method path) :
    g.Gives method path (g.notFound method path)

/-- A module answers every request. -/
theorem exists_gives (h : g.Unshadowed) (method path : String) :
    ∃ answer, g.dispatch method path = .ok answer ∧ g.Gives method path answer := by
  rcases match?_cases h method path with ⟨op, bound, hfound, hop⟩ | ⟨hnone, hno⟩
  · refine ⟨placeholderAnswer op, ?_, .handled hop⟩
    rw [dispatch, hfound]
    rfl
  · refine ⟨g.notFound method path, ?_, .missed hno⟩
    rw [dispatch, hnone]
    rfl

/-- If an operation of a module matches, then the module answers with one of the most specific. -/
theorem exists_mostSpecific (h : g.Unshadowed) (hop : op ∈ g.operations)
    (hm : op.Matches method path) : ∃ best, g.dispatch method path = .ok (placeholderAnswer best) ∧
      Route.MostSpecific g.operations method path best := by
  obtain ⟨answer, hanswer, hgives⟩ := exists_gives h method path
  cases hgives with
  | handled hbest => exact ⟨_, hanswer, hbest⟩
  | missed hno => exact absurd hm (hno op hop)

end RouteGroup

end RouteStubs
