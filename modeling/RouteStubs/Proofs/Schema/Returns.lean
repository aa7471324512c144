import RouteStubs.Proofs.Schema.Direct
import RouteStubs.Proofs.Schema.Throughout

/-!
# Handles that lead back

While a schema is read, a handle in it leads nowhere for one of two reasons: it leads back to a
reference from which the schema is met and which is therefore not finished yet, or it leads in a
circle. Between walks all references are finished, and then a handle that led back may lead somewhere,
but never to an enumeration if alternatives with several variants are on the way.

## Main definitions

* `Naming.Knows`: a handle stands for a reference that has been met.
* `Naming.Keeps`: what is known in one state is known in another one.
* `Naming.Returns`: a handle leads back to where the schema is met from, or in a circle.
* `Canon.Recurs`: a schema inside the schema is another name for a reference that leads back to it.

## Main statements

* `Naming.Walked.returns`: why a handle leads nowhere.
* `Naming.Returns.dereference_ne_enum`: what it may lead to when all references are finished.
* `Naming.Walked.recurs_or_dereference_eq_none`: what it says of the document that a variant of a
  union leads back.
-/

namespace RouteStubs

/-- One of the schemas inside the schema is nothing but another name for a reference from whose
target the schema is met. -/
def Canon.Recurs (document schema : Value) : Prop :=
  ∃ member ref last found, member ∈ parts schema ∧ IsRef member ref ∧
    Relation.ReflTransGen (Renames document) ref last ∧
      Resolver.target document last = .ok found ∧ Visits document found schema

namespace Naming

open Canon

variable {ν : Type} {namer : Namer ν} (N : Naming namer) {document root schema : Value}
  {p p' p'' : Progress ν} {node : Shape} {depth : Nat}

/-! ### Handles of references -/

/-- If the shape is a handle, it stands for a reference that is finished or on the chain. -/
def Knows (p : Progress ν) (node : Shape) : Prop :=
  ∀ name, node = .handle name → ∃ ref, N.Points p name ref

variable {N}

theorem ruleClosed_knows (tie : Tie) (sub : Value → Shape → Prop) :
    RuleClosed tie (N.Points p) p.definitions sub (fun _ => True) (N.Knows p) :=
  ruleClosed_handles (fun _ ref h => ⟨ref, h⟩) tie p.definitions sub

/-- The handles in definitions stand for references. -/
theorem Walked.knows_definition (hw : N.Walked document p) {name : String}
    (hf : p.definitions.find? name = some node) : node.Throughout (N.Knows p) :=
  hw.throughout (fun _ => ruleClosed_knows _ _) (fun _ => trivial) name node hf

/-- The handles in what a schema reads as stand for references. -/
theorem Walked.knows_reads (hw : N.Walked document p)
    (hr : Reads (N.Points p) p.definitions depth schema node) : node.Throughout (N.Knows p) :=
  hr.throughout (fun _ => ruleClosed_knows _ _) (fun _ _ => hw.knows_definition) trivial

/-! ### States that know more -/

variable (N) in
/-- What has a name and what is finished in the first state is so in the second. -/
structure Keeps (p p' : Progress ν) : Prop where
  points : ∀ name ref, N.Points p name ref → N.Points p' name ref
  definitions : p.definitions <+: p'.definitions

theorem Extends.keeps (h : N.Extends p p') : N.Keeps p p' :=
  ⟨fun _ _ => Points.of_extends h, h.definitions⟩

/-! ### Leading back -/

variable (N document) in
/-- The shape is a handle that leads back to a reference from whose target the schema is met, or it
never leads anywhere. -/
def Returns (p : Progress ν) (schema : Value) (node : Shape) : Prop :=
  (∃ name last ref found, node = .handle name ∧
    Relation.ReflTransGen p.definitions.Leads name last ∧ N.Points p last ref ∧
      Resolver.target document ref = .ok found ∧ Visits document found schema) ∨
  ∀ definitions, p.definitions <+: definitions → Definitions.dereference definitions node = none

theorem Returns.mono (h : N.Keeps p p') (hr : N.Returns document p schema node) :
    N.Returns document p' schema node := by
  refine hr.imp ?_ fun hnone definitions hd => hnone definitions (h.definitions.trans hd)
  rintro ⟨name, last, ref, found, hn, hl, hp, ht, hv⟩
  exact ⟨name, last, ref, found, hn, Definitions.Leads.reflTransGen_mono h.definitions hl,
    h.points last ref hp, ht, hv⟩

/-- A handle that leads nowhere leads back to where the schema at hand is met from, or it goes in a
circle. -/
theorem Walked.returns (hw : N.Walked document p)
    (hs : Surrounds document root p.resolver.chain schema) (hk : N.Knows p node)
    (hnone : p.definitions.dereference node = none) : N.Returns document p schema node := by
  obtain ⟨name, last, rfl, hl, hend⟩ := Definitions.dereference_eq_none hnone
  rcases hend with hlast | hcircle
  · -- the last reference on the way is not finished, so it is on the chain
    obtain ⟨ref, hp⟩ := hk name rfl
    obtain ⟨ref', hp', -⟩ := hw.renames_of_reflTransGen hp hl
    have hchain := (hp'.2.resolve_left (by rw [hlast]; exact Bool.false_ne_true)).1
    obtain ⟨found, ht, hv⟩ := hs.target ref' hchain
    exact .inl ⟨name, last, ref', found, rfl, hl, hp', ht, hv⟩
  · exact .inr fun definitions hd => Definitions.dereference_eq_none_of_circle
      (Definitions.Leads.reflTransGen_mono hd hl) (Definitions.Leads.transGen_mono hd hcircle)

/-- When all references are finished, what leads back leads to an enumeration only if the schema that
it leads back from does. -/
theorem Returns.dereference_ne_enum (h : N.Returns document p schema node)
    (hw : N.Walked document p) (hc : p.resolver.chain = [])
    (hnot : ¬ Enumerates (N.Points p) p.definitions schema) (values : List Scalar) :
    p.definitions.dereference node ≠ some (.enum values) := by
  intro hv
  rcases h with ⟨name, last, ref, found, rfl, hl, hp, ht, hvisits⟩ | hnone
  · obtain ⟨next, hnext, hv⟩ :=
      Definitions.exists_find?_of_dereference (Definitions.dereference_of_reflTransGen hl hv)
    obtain ⟨next', found', depth, hnext', ht', hread⟩ := hw.exists_read hc hp
    cases hnext.symm.trans hnext'
    cases ht.symm.trans ht'
    exact hnot (hw.enumerates_of_visits hvisits ⟨depth, next, values, hread, hv⟩)
  · rw [hnone _ (List.prefix_refl _)] at hv
    cases hv

/-- If a variant of alternatives leads back, then the alternatives recur in the document, or else the
variant never leads anywhere. -/
theorem Walked.recurs_or_dereference_eq_none (hw : N.Walked document p) {origin : Nat}
    {entries : Entries} {members : List Value} {nodes : List Shape}
    (rule : ruleOf entries = .alternatives (.list members))
    (hn : List.Forall₂ (Reads (N.Points p) p.definitions depth) members nodes)
    (hm : node ∈ nodes) (h : N.Returns document p (.mapping origin entries) node) :
    Recurs document (.mapping origin entries) ∨
      ∀ definitions, p.definitions <+: definitions →
        Definitions.dereference definitions node = none := by
  refine h.imp_left ?_
  rintro ⟨name, last, ref, found, rfl, hl, hp, ht, hv⟩
  obtain ⟨member, hmember, hread⟩ := exists_mem_of_forall₂ hn.flip hm
  obtain ⟨ref₀, hp₀, hi⟩ := hread.isRef fun _ _ => Points.unique
  obtain ⟨ref', hp', hren⟩ := hw.renames_of_reflTransGen hp₀ hl
  cases hp.unique hp'
  refine ⟨member, ref₀, ref, found, ?_, hi, hren, ht, hv⟩
  simpa only [parts, rule] using hmember

end Naming

end RouteStubs
