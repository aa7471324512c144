import RouteStubs.Proofs.ClosedTable
import RouteStubs.Proofs.Handles
import RouteStubs.Proofs.Operation.Effective

/-!
# The record of the parameters of an operation

The parameters of an operation are declared as a record. They are told apart by name and location,
but the fields of a record by name alone: of several parameters with one name the record has the
first. So a parameter in the query and one in the path with the same name share a field, which has
the type of the one that comes first, and says of it alone whether every request has it.

## Main definitions

* `Collect.Leads`: the fields for parameters.
* `Collect.Recorded`: what is declared for the parameters of an operation.

## Main statements

* `Collect.leads_parametersRecord`: the fields of the record of parameters.
* `Collect.MadeFrom.recorded`: the draft has the record of each operation.
* `Plan.parameters_recorded`: so has the table of declarations.
* `Plan.not_parameters_recorded`: a parameter can be without a field of its own.
-/

namespace RouteStubs

/-- A parameter as a field of a record. -/
def Parameter.field (p : Parameter) : Field Shape := ⟨p.name, p.node, p.required, p.description⟩

namespace Collect

open Draft

/-! ### The fields of the record -/

/-- The fields are those of the parameters that are the first with their name. -/
structure Leads (parameters : List Parameter) (fields : List (Field Shape)) : Prop where
  /-- Each name has one field, in the order in which the names occur first. -/
  names_eq : fields.map (·.name) = (parameters.map (·.name)).eraseDups
  nodup : (fields.map (·.name)).Nodup
  /-- The fields are those of the parameters that come before all others with their name. -/
  mem_iff : ∀ f, f ∈ fields ↔ ∃ before p after, parameters = before ++ p :: after ∧
    (∀ q ∈ before, q.name ≠ p.name) ∧ f = p.field

theorem leads_nil : Leads [] [] :=
  ⟨rfl, List.nodup_nil, fun _ => ⟨nofun, fun ⟨before, _, _, h, _⟩ => by cases before <;> cases h⟩⟩

variable {parameters : List Parameter} {fields : List (Field Shape)}

theorem Leads.any_name_iff (h : Leads parameters fields) (name : String) :
    (fields.any fun f => f.name == name) = true ↔ name ∈ parameters.map (·.name) := by
  rw [← List.mem_eraseDups, ← h.names_eq, List.any_eq_true, List.mem_map]
  simp only [beq_iff_eq]

/-- A parameter whose name has a field gets none of its own. -/
theorem Leads.snoc (h : Leads parameters fields) (p : Parameter) :
    Leads (parameters ++ [p])
      (if fields.any fun f => f.name == p.name then fields else fields ++ [p.field]) := by
  by_cases hname : p.name ∈ parameters.map (·.name)
  · rw [if_pos ((h.any_name_iff p.name).mpr hname)]
    refine ⟨?_, h.nodup, fun f => (h.mem_iff f).trans ⟨?_, ?_⟩⟩
    · rw [List.map_append, List.map_singleton, eraseDups_concat, if_pos hname, h.names_eq]
    · rintro ⟨before, q, after, rfl, hfirst, hf⟩
      exact ⟨before, q, after ++ [p], by simp, hfirst, hf⟩
    · rintro ⟨before, q, after, hs, hfirst, hf⟩
      rcases Keyed.split_concat hs with ⟨rfl, rfl⟩ | ⟨after', hs'⟩
      · obtain ⟨q', hq', hname'⟩ := List.mem_map.mp hname
        exact absurd hname' (hfirst q' hq')
      · exact ⟨before, q, after', hs', hfirst, hf⟩
  · rw [if_neg fun hany => hname ((h.any_name_iff p.name).mp hany)]
    have hnames : (fields ++ [p.field]).map (·.name) =
        ((parameters ++ [p]).map (·.name)).eraseDups := by
      rw [List.map_append, List.map_append, List.map_singleton, List.map_singleton,
        eraseDups_concat, if_neg hname, h.names_eq]
      rfl
    refine ⟨hnames, hnames ▸ nodup_eraseDups _, fun f => ?_⟩
    rw [List.mem_append, List.mem_singleton, h.mem_iff]
    constructor
    · rintro (⟨before, q, after, rfl, hfirst, hf⟩ | rfl)
      · exact ⟨before, q, after ++ [p], by simp, hfirst, hf⟩
      · exact ⟨parameters, p, [], rfl, fun q hq he => hname (he ▸ List.mem_map_of_mem hq), rfl⟩
    · rintro ⟨before, q, after, hs, hfirst, hf⟩
      rcases Keyed.split_concat hs with ⟨rfl, rfl⟩ | ⟨after', hs'⟩
      · exact .inr hf
      · exact .inl ⟨before, q, after', hs', hfirst, hf⟩

/-- The fields of the record of parameters are those of the first parameter with each name. -/
theorem leads_parametersRecord (parameters : List Parameter) :
    ∃ fields, parametersRecord parameters = .record fields none "" none ∧
      Leads parameters fields := by
  refine ⟨_, rfl, ?_⟩
  induction parameters using List.reverseRecOn with
  | nil => exact leads_nil
  | append_singleton front last ih =>
    rw [List.foldl_append, List.foldl_cons, List.foldl_nil]
    exact ih.snoc last

/-! ### What operations declare -/

variable {document : Value} {d d' : Draft} {raw : RawOperation} {op : Operation} {key : String}

/-- The parameters of the operation are what the effective ones come to. If there are any, they are
declared, and the declaration is a record with the fields for them. -/
structure Recorded (document : Value) (declares : String → Shape → Prop) (raw : RawOperation)
    (op : Operation) : Prop where
  path_eq : op.path = raw.path
  method_eq : op.method = raw.method
  effective : ∃ d₁ d₂ merged typeName, d₁.progress.resolver.Recalls document ∧
    (effectiveParameters raw.pathItem raw.entries).runFrom d₁ = (.ok merged, d₂) ∧
    Name.typeStyle op.operationId "Operation" = .ok typeName ∧
    List.Forall₂ (Gives typeName ("paths." ++ raw.path ++ "." ++ raw.method)) merged op.parameters
  none_iff : op.parametersType = none ↔ op.parameters = []
  record : ∀ type, op.parametersType = some type →
    ∃ fields, declares type (.record fields none "" none) ∧ Leads op.parameters fields

variable {declares declares' : String → Shape → Prop}

theorem Recorded.imp (h : Recorded document declares raw op)
    (hd : ∀ type node, declares type node → declares' type node) :
    Recorded document declares' raw op where
  path_eq := h.path_eq
  method_eq := h.method_eq
  effective := h.effective
  none_iff := h.none_iff
  record type ht :=
    have ⟨fields, hfields, hleads⟩ := h.record type ht
    ⟨fields, hd _ _ hfields, hleads⟩

/-- The name is filled in with the shape. -/
def Filled (d : Draft) (type : String) (node : Shape) : Prop := d.nodes.lookup type = some node

/-- An operation that has been added has its record of parameters. -/
theorem MadeFrom.recorded (h : MadeFrom document raw op d) :
    Recorded document (Filled d) raw op where
  path_eq := h.path_eq
  method_eq := h.method_eq
  effective := by
    obtain ⟨d₁, d₂, d₃, merged, typeName, hrecalls, hmerged, htypeName, hadded⟩ := h.parameters
    exact ⟨d₁, d₂, merged, typeName, hrecalls, hmerged, htypeName,
      (addParameters_ends typeName _ merged d₂).of_ok hadded⟩
  none_iff := by rw [h.parametersType.none_iff, List.isEmpty_iff]
  record type ht := by
    obtain ⟨fields, hfields, hleads⟩ := leads_parametersRecord op.parameters
    exact ⟨fields, hfields ▸ h.parametersType.filled type ht, hleads⟩

end Collect

/-! ### What plans declare -/

/-- The table says that the name is that of the shape. -/
def Declarations.Says (table : Declarations) (type : String) (node : Shape) : Prop :=
  ∃ δ, table.find? type = some δ ∧ δ.node = node

namespace Plan

variable {document : Value} {reserved : List String} {operations : List Operation}
  {table : Declarations} {d : Draft}

/-- The operations of a document are described one by one. Each has its effective parameters. If
there are any, they are declared as a record, which has one field for each name among them: that of
the first parameter with this name. If there are none, nothing is declared for them. -/
theorem parameters_recorded
    (h : collect.runFrom (Draft.start document reserved) = (.ok (operations, table), d)) :
    ∃ paths raws, Document.paths document = .ok paths ∧ Collect.rawOperations paths = .ok raws ∧
      List.Forall₂ (Collect.Recorded document table.Says) raws operations := by
  obtain ⟨-, hr, -, ⟨paths, raws, hpaths, hraws, hops⟩, htable⟩ := (collect_closed _ _).of_ok h
  obtain rfl : table = _ := htable
  refine ⟨paths, raws, hpaths, hraws, hops.imp fun raw op hop => hop.recorded.imp fun type node hn => ?_⟩
  -- what is filled in was given a name, and so has a declaration
  obtain ⟨g, hg, rfl, -⟩ := hr.drafted.filled type node hn
  exact ⟨_, Draft.find?_table hr.drafted hg, Draft.node_declarationOf hn⟩

/-- A document with an operation that has a parameter in the query and one in the path, with one
name. -/
def itemDocument : Value :=
  .mapping 0 [(.text "paths", .mapping 1 [(.text "/items/\x7bid\x7d", .mapping 2
    [(.text "get", .mapping 3 [(.text "parameters", .list [
      .mapping 4 [(.text "name", .text "id"), (.text "in", .text "query"),
        (.text "schema", .mapping 5 [(.text "type", .text "integer")])],
      .mapping 6 [(.text "name", .text "id"), (.text "in", .text "path"),
        (.text "required", .bool true),
        (.text "schema", .mapping 7 [(.text "type", .text "string")])]])])])])]

/-- The fields that are declared for the parameters of an operation. -/
def declaredFields (table : Declarations) (op : Operation) : List (Field Shape) :=
  match op.parametersType.bind table.find? with
  | some ⟨_, .record fields _ _ _, _, _, _⟩ => fields
  | _ => []

/-- The document is described, with one operation. Of its two parameters one is missing. -/
theorem exists_run_itemDocument : ∃ op table d,
    collect.runFrom (Draft.start itemDocument []) = (.ok ([op], table), d) ∧
    op.parametersType = some "GetItemParameters" ∧
    op.parameters.map (fun p => (p.name, p.required)) = [("id", false), ("id", true)] ∧
    (declaredFields table op).map (fun f => (f.name, f.required)) = [("id", false)] := by
  have htest : (collect.runFrom (Draft.start itemDocument [])).1.toOption.any (fun found =>
      found.1.map (fun op => (op.parametersType, op.parameters.map fun p => (p.name, p.required),
        (declaredFields found.2 op).map fun f => (f.name, f.required))) ==
      [(some "GetItemParameters", [("id", false), ("id", true)], [("id", false)])]) = true := by
    decide +kernel
  cases hrun : collect.runFrom (Draft.start itemDocument []) with
  | mk result d =>
    rw [hrun] at htest
    cases result with
    | error fault => cases htest
    | ok found =>
      obtain ⟨op, hops, hop⟩ := List.map_eq_singleton_iff.mp (eq_of_beq htest)
      simp only [Prod.mk.injEq] at hop
      obtain ⟨_, table⟩ := found
      obtain rfl := hops
      exact ⟨op, table, d, rfl, hop⟩

/-- The parameters of the operation share the field of the first. -/
theorem parameters_recorded_item : ∃ op table d raw,
    collect.runFrom (Draft.start itemDocument []) = (.ok ([op], table), d) ∧
    Collect.Recorded itemDocument table.Says raw op ∧
    ∃ fields, table.Says "GetItemParameters" (.record fields none "" none) ∧
      fields.map (·.name) = ["id"] := by
  obtain ⟨op, table, d, hrun, htype, hparameters, -⟩ := exists_run_itemDocument
  obtain ⟨_, _, -, -, hrecorded⟩ := parameters_recorded hrun
  obtain ⟨raw, _, hop, hnil, rfl⟩ := List.forall₂_cons_right_iff.mp hrecorded
  obtain ⟨fields, hsays, hleads⟩ := hop.record _ htype
  refine ⟨op, table, d, raw, hrun, hop, fields, hsays, ?_⟩
  have hnames : op.parameters.map (·.name) = ["id", "id"] := by
    have := congrArg (List.map Prod.fst) hparameters
    rwa [List.map_map] at this
  rw [hleads.names_eq, hnames]
  decide

/-- It is not so that each parameter has a field with its type and with what it says of requests. -/
theorem not_parameters_recorded : ¬ ∀ (document : Value) (reserved : List String)
    (operations : List Operation) (table : Declarations) (d : Draft),
    collect.runFrom (Draft.start document reserved) = (.ok (operations, table), d) →
    ∀ op ∈ operations, ∀ p ∈ op.parameters, ∃ f ∈ declaredFields table op,
      f.name = p.name ∧ f.node = p.node ∧ f.required = p.required := by
  intro hall
  obtain ⟨op, table, d, hrun, -, hparameters, hfields⟩ := exists_run_itemDocument
  -- the parameter in the path
  have hp : ("id", true) ∈ op.parameters.map fun p => (p.name, p.required) := by
    rw [hparameters]
    decide
  obtain ⟨p, hp, hname⟩ := List.mem_map.mp hp
  obtain ⟨f, hf, hn, -, hr⟩ := hall _ _ _ _ _ hrun op (List.mem_singleton_self op) p hp
  have hmem := List.mem_map_of_mem (f := fun f : Field Shape => (f.name, f.required)) hf
  rw [hfields, hn, hr, hname] at hmem
  revert hmem
  decide

end Plan

end RouteStubs
