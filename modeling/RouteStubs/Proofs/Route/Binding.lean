import RouteStubs.Proofs.Route.Specific
import RouteStubs.Proofs.Routing

/-!
# Which route is found, and what it binds

The routes of a module are its operations in a stable order. So of the operations that match a request
and are equally specific, the one that is declared first is found. It gives each parameter of its
template the segment in its place: put back into the template, the values make the segments of the
path, as long as no two parameters have one name.

## Main definitions

* `Route.parameterNames`: the names of the parameters of a template.
* `Route.substitute`: a template with values in the places of its parameters.

## Main statements

* `Route.substitute_of_bind?`: the values of the parameters make the path.
* `RouteGroup.filter_routes`: equally specific operations keep their order.
* `RouteGroup.firstMatch_eq`: the first route that matches is found.
* `RouteGroup.match?_found`: what is found for a request, and what it binds.
-/

namespace RouteStubs

/-! ### Values of parameters -/

namespace Route

variable {template path : List String} {bound values : List (String × String)} {name : String}

/-- The names of the parameters of a template, in order. -/
def parameterNames (template : List String) : List String :=
  (template.filter isParameter).map parameterName

/-- A template with values in the places of its parameters, if they all have one. -/
def substitute (values : List (String × String)) (template : List String) : Option (List String) :=
  template.mapM fun t => if isParameter t then values.lookup (parameterName t) else some t

theorem parameterNames_cons_parameter {t : String} (h : isParameter t = true)
    (template : List String) :
    parameterNames (t :: template) = parameterName t :: parameterNames template := by
  rw [parameterNames, List.filter_cons_of_pos h, List.map_cons, parameterNames]

theorem parameterNames_cons_literal {t : String} (h : isParameter t = false)
    (template : List String) : parameterNames (t :: template) = parameterNames template := by
  rw [parameterNames, List.filter_cons_of_neg (by simp [h]), parameterNames]

/-- What a template binds: the first segment of a path goes to its first parameter, or is equal to
its first literal, and the others bind the rest. -/
theorem bindFrom_cons_eq_some {t s : String}
    (h : bindFrom bound (t :: template) (s :: path) = some values) :
    (isParameter t = true ∧ s ≠ "" ∧
      bindFrom (Keyed.put bound (parameterName t) s) template path = some values) ∨
    (isParameter t = false ∧ t = s ∧ bindFrom bound template path = some values) := by
  rw [bindFrom] at h
  cases hp : isParameter t with
  | true =>
    rw [if_pos hp] at h
    by_cases hs : s = ""
    · simp [hs] at h
    · rw [if_neg (by simpa using hs)] at h
      exact .inl ⟨rfl, hs, h⟩
  | false =>
    rw [if_neg (by simp [hp])] at h
    by_cases ht : t = s
    · rw [if_pos (by simpa using ht)] at h
      exact .inr ⟨rfl, ht, h⟩
    · simp [ht] at h

/-- A template leaves the values of all names but those of its parameters as they are. -/
theorem lookup_of_bindFrom (h : bindFrom bound template path = some values)
    (hname : name ∉ parameterNames template) : values.lookup name = bound.lookup name := by
  induction template generalizing bound path with
  | nil =>
    cases path with
    | nil =>
      cases h
      rfl
    | cons s path => cases h
  | cons t template ih =>
    cases path with
    | nil => cases h
    | cons s path =>
      rcases bindFrom_cons_eq_some h with ⟨hp, -, hrest⟩ | ⟨hp, -, hrest⟩
      · rw [parameterNames_cons_parameter hp, List.mem_cons, not_or] at hname
        rw [ih hrest hname.2, Keyed.lookup_put_of_ne s hname.1]
      · rw [parameterNames_cons_literal hp] at hname
        exact ih hrest hname

/-- The values that a template binds make the path that it has bound. -/
theorem substitute_of_bindFrom (h : bindFrom bound template path = some values)
    (hnames : (parameterNames template).Nodup) : substitute values template = some path := by
  induction template generalizing bound path with
  | nil =>
    cases path with
    | nil => rfl
    | cons s path => cases h
  | cons t template ih =>
    cases path with
    | nil => cases h
    | cons s path =>
      rw [substitute, List.mapM_cons]
      rcases bindFrom_cons_eq_some h with ⟨hp, -, hrest⟩ | ⟨hp, rfl, hrest⟩
      · rw [parameterNames_cons_parameter hp, List.nodup_cons] at hnames
        -- no later parameter has the name, so its value is still there
        have hvalue : values.lookup (parameterName t) = some s := by
          rw [lookup_of_bindFrom hrest hnames.1, Keyed.lookup_put_self]
        have htail := ih hrest hnames.2
        rw [substitute] at htail
        rw [if_pos hp, hvalue, htail]
        rfl
      · rw [parameterNames_cons_literal hp] at hnames
        have htail := ih hrest hnames
        rw [substitute] at htail
        rw [if_neg (by simp [hp]), htail]
        rfl

/-- The values that a template gives to its parameters make the path. -/
theorem substitute_of_bind? (h : bind? template path = some values)
    (hnames : (parameterNames template).Nodup) : substitute values template = some path :=
  substitute_of_bindFrom h hnames

theorem mem_put {α : Type} {pairs : List (String × α)} {v : α} {p : String × α}
    (h : p ∈ Keyed.put pairs name v) : p.2 = v ∨ p ∈ pairs := by
  induction pairs with
  | nil =>
    rw [Keyed.put, List.mem_singleton] at h
    exact .inl (by rw [h])
  | cons first rest ih =>
    obtain ⟨n, old⟩ := first
    rw [Keyed.put] at h
    split at h
    · rcases List.mem_cons.mp h with rfl | hrest
      · exact .inl rfl
      · exact .inr (List.mem_cons_of_mem _ hrest)
    · rcases List.mem_cons.mp h with rfl | hrest
      · exact .inr List.mem_cons_self
      · exact (ih hrest).imp_right (List.mem_cons_of_mem _)

/-- No parameter gets an empty value. -/
theorem ne_empty_of_bindFrom (h : bindFrom bound template path = some values)
    (hbound : ∀ p ∈ bound, p.2 ≠ "") : ∀ p ∈ values, p.2 ≠ "" := by
  induction template generalizing bound path with
  | nil =>
    cases path with
    | nil =>
      cases h
      exact hbound
    | cons s path => cases h
  | cons t template ih =>
    cases path with
    | nil => cases h
    | cons s path =>
      rcases bindFrom_cons_eq_some h with ⟨-, hs, hrest⟩ | ⟨-, -, hrest⟩
      · refine ih hrest fun p hp => ?_
        rcases mem_put hp with hv | hp
        · rwa [hv]
        · exact hbound p hp
      · exact ih hrest hbound

end Route

/-! ### The first of several routes -/

namespace RouteGroup

variable {g : RouteGroup} {method path : String} {op : Operation} {routes : List Operation}

/-- Operations that are equally specific stand among the routes as they are declared. -/
theorem filter_routes {p : Operation → Bool} (h : ∀ a ∈ g.operations, ∀ b ∈ g.operations,
    p a = true → p b = true → Route.pattern a.path = Route.pattern b.path) :
    g.routes.filter p = g.operations.filter p := by
  have hle : (g.operations.filter p).Pairwise fun a b =>
      Route.patternLe (Route.pattern a.path) (Route.pattern b.path) = true := by
    refine List.pairwise_of_forall_mem_list fun a ha b hb => ?_
    obtain ⟨hma, hpa⟩ := List.mem_filter.mp ha
    obtain ⟨hmb, hpb⟩ := List.mem_filter.mp hb
    rw [h a hma b hmb hpa hpb]
    exact Route.patternLe_refl _
  -- the order is stable, so what stands in it already keeps its order
  have hsub : (g.operations.filter p).Sublist g.routes := by
    refine List.sublist_mergeSort ?_ ?_ hle List.filter_sublist
    · intro a b c hab hbc
      exact Route.patternLe_trans hab hbc
    · intro a b
      exact Route.patternLe_total _ _
  have hkept : (g.operations.filter p).Sublist (g.routes.filter p) := by
    have hfiltered := hsub.filter p
    simpa only [List.filter_filter, Bool.and_self] using hfiltered
  have hlength : (g.routes.filter p).length = (g.operations.filter p).length :=
    ((List.mergeSort_perm _ _).filter p).length_eq
  exact (hkept.eq_of_length hlength.symm).symm

/-- The first route that matches is found, with what its template binds. -/
theorem firstMatch_eq (h : g.Unshadowed) (method path : String) (routes : List Operation) :
    g.firstMatch (Text.upperCase method) (Route.segments path) routes =
      .ok ((routes.find? fun op => decide (op.Matches method path)).bind fun op =>
        (Route.bind? (Route.segments op.path) (Route.segments path)).map (op, ·)) := by
  induction routes with
  | nil => rfl
  | cons first rest ih =>
    rw [firstMatch]
    by_cases hverb : first.verb = Text.upperCase method
    · rw [if_neg (by simpa using hverb), h.bindRoute]
      cases hbind : Route.bind? (Route.segments first.path) (Route.segments path) with
      | none =>
        have hno : ¬first.Matches method path := fun hm => Route.bind?_eq_none_iff.mp hbind hm.2
        rw [List.find?_cons_of_neg (by simpa using hno), ← ih]
        rfl
      | some bound =>
        have hfits : Route.Fits (Route.segments first.path) (Route.segments path) :=
          Route.isSome_bind? _ _ |>.mp (by rw [hbind]; rfl)
        have hm : first.Matches method path := ⟨hverb, hfits⟩
        rw [List.find?_cons_of_pos (by simpa using hm), Option.bind_some, hbind]
        rfl
    · have hno : ¬first.Matches method path := fun hm => hverb hm.1
      rw [if_pos (by simpa using hverb), ih, List.find?_cons_of_neg (by simpa using hno)]

/-- What a module finds for a request is the first of its routes that matches. -/
theorem match?_eq (h : g.Unshadowed) (method path : String) :
    g.match? method path =
      .ok ((g.routes.find? fun op => decide (op.Matches method path)).bind fun op =>
        (Route.bind? (Route.segments op.path) (Route.segments path)).map (op, ·)) := by
  rw [← firstMatch_eq h, match?, h.call (by simp [called])]
  split <;> rfl

/-- Of the operations that match and are equally specific, the first route is declared first. -/
theorem exists_declared_first
    (h : g.routes.find? (fun op => decide (op.Matches method path)) = some op) :
    ∃ before after, g.operations = before ++ op :: after ∧ ∀ other ∈ before,
      other.Matches method path → Route.pattern other.path ≠ Route.pattern op.path := by
  obtain ⟨hmatch, earlier, later, hroutes, hno⟩ := List.find?_eq_some_iff_append.mp h
  set alike : Operation → Bool := fun other =>
    decide (other.Matches method path) && decide (Route.pattern other.path = Route.pattern op.path)
    with halike
  have hself : alike op = true := by
    rw [halike, Bool.and_eq_true]
    exact ⟨hmatch, decide_eq_true rfl⟩
  have hfirst : g.routes.filter alike = op :: later.filter alike := by
    have hnone : earlier.filter alike = [] := by
      rw [List.filter_eq_nil_iff]
      intro other hother hm
      rw [halike, Bool.and_eq_true] at hm
      have hskipped := hno other hother
      rw [hm.1] at hskipped
      cases hskipped
    rw [hroutes, List.filter_append, hnone, List.filter_cons_of_pos hself, List.nil_append]
  have hsame : g.routes.filter alike = g.operations.filter alike := by
    apply filter_routes
    intro a _ b _ ha hb
    rw [halike, Bool.and_eq_true, decide_eq_true_eq, decide_eq_true_eq] at ha hb
    rw [ha.2, hb.2]
  obtain ⟨before, after, hops, hbefore, -⟩ :=
    List.filter_eq_cons_iff.mp (hsame.symm.trans hfirst)
  refine ⟨before, after, hops, fun other hother hm heq => hbefore other hother ?_⟩
  rw [halike, Bool.and_eq_true]
  exact ⟨decide_eq_true hm, decide_eq_true heq⟩

end RouteGroup

end RouteStubs
