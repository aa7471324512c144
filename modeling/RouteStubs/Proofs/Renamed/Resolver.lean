import RouteStubs.Proofs.Alongside
import RouteStubs.Proofs.Renamed.Shape
import RouteStubs.Proofs.Resolver
import RouteStubs.Proofs.Schema.Unforeseen

/-!
# Resolving references with other identities

A resolver and one for the same document with other identities find the same, up to identities. Whether
a reference is found or not, what they remember stays right.

## Main definitions

* `Resolver.rename f`: the resolver with other identities.
* `Resolver.Together`: the two resolvers.

## Main statements

* `Resolver.lookup_matches`, `Resolver.resolveNode_matches`: what they find.
-/

namespace RouteStubs.Resolver

open Step

/-- The resolver with other identities. -/
def rename (f : Nat → Nat) (r : Resolver) : Resolver :=
  ⟨r.document.rename f, r.chain.map (Value.rename f), r.found.map fun e => (e.1, e.2.rename f)⟩

theorem rename_id (r : Resolver) : r.rename id = r := by
  have hfound : r.found.map (fun e => (e.1, e.2.rename id)) = r.found := by
    simp [Value.rename_id]
  have hchain : r.chain.map (Value.rename id) = r.chain := Value.map_rename_id r.chain
  rw [rename, hfound, hchain, Value.rename_id]

/-- The second resolver is the first with other identities, what it remembers is right, and these
references are being expanded. -/
structure Together (f : Nat → Nat) (document : Value) (chain : List Value) (r r' : Resolver) :
    Prop where
  renamed : r' = r.rename f
  recalls : r.Recalls document
  chain_eq : r.chain = chain

variable {f : Nat → Nat} {document : Value} {chain : List Value} {E : Fault → Prop}

/-- A reference that leads nowhere is refused for a cause of its own. One that is a list or a mapping
has none. -/
theorem lookup_matches (hforeseen : ∀ fault : Fault, fault.isForeseen = true → E fault) (ref : Value)
    (hE : ref.isKey = false → E (.defect .wrongKind)) :
    Matches (Together f document chain)
      (fun v v' => v' = v.rename f ∧ ∃ s, ref = .text s ∧ target document s = .ok v) E
      (lookup ref) (lookup (ref.rename f)) := by
  cases ref with
  | scalar scalar =>
    rw [Value.rename_scalar]
    cases scalar with
    | text s =>
      refine matches_get fun r r' hr => ?_
      obtain ⟨rfl, hrecalls, -⟩ := hr
      have hlookup : (r.rename f).found.lookup s = (r.found.lookup s).map (Value.rename f) :=
        Definitions.lookup_map _ r.found s
      rw [hlookup]
      rcases hfound : r.found.lookup s with _ | v
      · refine Matches.bind (Q := fun v v' => v' = v.rename f ∧ target document s = .ok v)
          ?_ fun v v' hv => ?_
        · refine matches_ofExcept (g := Value.rename f) ?_ ?_ fun fault h =>
            hforeseen _ (isForeseen_of_target h)
          · exact target_rename s r.document
          · intro v hv
            exact ⟨rfl, hrecalls.document_eq ▸ hv⟩
        obtain ⟨rfl, htarget⟩ := hv
        refine Matches.bind (Q := fun _ _ => True) (matches_modify trivial fun q q' hq => ?_)
          fun _ _ _ => matches_pure ⟨rfl, s, rfl, htarget⟩
        obtain ⟨rfl, hrecalls', hchain⟩ := hq
        refine ⟨rfl, ⟨hrecalls'.document_eq, fun name w hw => ?_⟩, hchain⟩
        rw [List.lookup_cons] at hw
        split at hw
        · next heq => cases hw; rwa [eq_of_beq heq]
        · exact hrecalls'.found name w hw
      · exact matches_pure ⟨rfl, s, rfl, hrecalls.found s v hfound⟩
    | _ => exact matches_throw (hforeseen _ rfl)
  | list items =>
    rw [Value.rename_list]
    exact matches_throw (hE rfl)
  | mapping origin entries =>
    rw [Value.rename_mapping]
    exact matches_throw (hE rfl)

/-- References are followed alongside, from one to the next. -/
theorem follow_matches (seen : List String) (steps : Nat) (node : Value) :
    Matches (Together f document chain) (fun v v' => v' = v.rename f) (fun _ => True)
      (follow seen steps node) (follow seen steps (node.rename f)) := by
  induction steps generalizing seen node with
  | zero => exact matches_throw trivial
  | succ steps ih =>
    have hnext : ∀ seen ref, Matches (Together f document chain) (fun v v' => v' = v.rename f)
        (fun _ => True) (lookup ref >>= fun next => follow seen steps next)
        (lookup (ref.rename f) >>= fun next => follow seen steps next) := by
      intro seen ref
      refine (lookup_matches (fun _ _ => trivial) ref fun _ => trivial).bind ?_
      rintro next _ ⟨rfl, -⟩
      exact ih seen next
    rw [follow, follow, Value.member?_rename]
    rcases node.member? "$ref" with _ | ref
    · exact matches_pure rfl
    · rw [Option.map_some]
      cases ref with
      | scalar s =>
        cases s with
        | text s =>
          simp only [Value.rename_scalar]
          split
          · exact Matches.bind (Q := fun _ _ => False) (matches_throw trivial) fun _ _ => False.elim
          · exact hnext _ (.text s)
        | _ => exact hnext _ (.scalar _)
      | list items => simpa only [Value.rename_list] using hnext seen (.list items)
      | mapping origin entries =>
        simpa only [Value.rename_mapping] using hnext seen (.mapping origin entries)

theorem resolveNode_matches (node : Value) :
    Matches (Together f document chain) (fun v v' => v' = v.rename f) (fun _ => True)
      (resolveNode node) (resolveNode (node.rename f)) := by
  refine matches_get fun r r' hr => ?_
  rw [hr.renamed, rename, Value.references_rename]
  exact follow_matches [] _ node

end RouteStubs.Resolver
