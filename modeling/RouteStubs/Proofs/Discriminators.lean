import RouteStubs.Proofs.ClosedTable
import RouteStubs.Proofs.Handles
import RouteStubs.Proofs.Schema.Aside

/-!
# The discriminators of unions

When the components of a document have been added, each union that comes from alternatives has the
discriminator that is inferred from the finished definitions, null aside: the explicit one if it tells
the variants apart, or else the first field of the first variant that does. There are two exceptions,
both among alternatives of which a variant leads back to where they are met from. Such a union is put
aside under its variants. If null is added to it, it is not found again under its variants, and it may
end without a discriminator; and if another such union has the same variants, the two share an entry,
and the explicit discriminator of the last one counts for both. Whether a union is put aside depends
on the order of the components, and so its discriminator does.

## Main definitions

* `Draft.Records`: the discriminator that a union records, with null added to it and without.
* `Draft.Accounts`: all unions that a declaration is read with record their discriminators.

## Main statements

* `Draft.build_of_closed`: the table of a closed draft is read off.
* `Draft.addComponents_discriminators`: the discriminators of all unions, over every document.
* `Draft.discriminator_depends_on_order`, `Draft.discriminator_of_last`: the two exceptions.
-/

namespace RouteStubs

/-- No key is given from outside. -/
def FreeKeys.none : FreeKeys where
  Has := fun _ => False
  append := fun h _ => h

namespace Draft

open Canon Registry Shape

variable {free : FreeKeys} {document : Value} {reserved : List String} {d d₀ d₁ d' : Draft}

/-! ### The table of a closed draft -/

/-- The table of a closed draft is read off, and the draft stays as it is. -/
theorem build_of_closed (hc : d.Closed) :
    build.runFrom d = (.ok ⟨d.registry.given.map d.declarationOf, d.registry.index⟩, d) :=
  build_of_done fun g hg _ => hc.filled g hg

/-! ### What unions record -/

/-- The discriminator that a union of alternatives records, with null added to it and without. It is
the one that the finished definitions give, unless the alternatives recur. -/
structure Records (document : Value) (d : Draft) (origin : Nat) (entries : Entries)
    (variants : List Shape) (discriminator : Option String) : Prop where
  plain : ∀ found, settled variants discriminator d.progress = .ok found →
    found = discriminator? d.progress.definitions variants (explicitDiscriminator entries) ∨
      (Recurs document (.mapping origin entries) ∧
        ∃ others, Registry.naming.Shares document d.progress variants others ∧
          found = discriminator? d.progress.definitions variants (explicitDiscriminator others))
  nullable : ∀ found, settled (variants ++ [nullShape]) discriminator d.progress = .ok found →
    found = discriminator? d.progress.definitions variants (explicitDiscriminator entries) ∨
      (Recurs document (.mapping origin entries) ∧ found = none)

/-- The declaration shows what the target of a reference reads as, or a record that stands inside such
a target, and every union that is read from alternatives records its discriminator. -/
def Accounts (document : Value) (d : Draft) (δ : Declaration) : Prop :=
  ∃ node, d.Shows node δ.node ∧
    ((δ.origin = .schema ∧ ∃ found depth, Resolver.target document δ.key = .ok found ∧
        ReadsTied (d.Records document) (Registry.naming.Points d.progress) d.progress.definitions
          depth found node) ∨
      (δ.origin = .inline ∧ d.StandsAt node δ.key))

section Added

variable {entries : List (Scalar × Value)}
  (h : Added free (Naming.Course.tagging Registry.naming document) entries (start document reserved)
    d₀ d₁ d)
include h

theorem Added.walked : References free document (start document reserved) d₁ :=
  h.naming.references.trans h.walking.references

theorem Added.keeps : Registry.naming.Keeps d₁.progress d.progress where
  points _ _ := h.fills.grows.points h.walked.drafted.chain
  definitions := h.fills.grows.definitions

/-- What is tagged when all components have been walked from has its discriminator recorded. -/
theorem Added.records {origin : Nat} {entries : Entries} {variants : List Shape}
    {discriminator : Option String}
    (ht : Registry.naming.Tagged document d₁.progress origin entries variants discriminator) :
    d.Records document origin entries variants discriminator := by
  have hr := h.walked
  have hw := hr.drafted.walked
  have hc := hr.drafted.chain
  have unique := ((onlyReferences_start document reserved).of_grows hr.names).points_unique hr.grows
  refine ⟨fun found hfound => ?_, fun found hfound => ?_⟩
  all_goals rw [h.fills.settled] at hfound; rw [h.fills.definitions]
  · refine (ht.settled hw hc unique h.walking.holds hfound).imp_right ?_
    rintro ⟨hrecurs, others, hshares, hothers⟩
    exact ⟨hrecurs, others, hshares.mono h.keeps, hothers⟩
  · exact ht.settled_nullShape hw hc unique hfound

/-- A definition is what the target of the reference of its name reads as, and its unions record their
discriminators. -/
theorem Added.exists_readsTied {g : Given} {node : Shape} (hg : g ∈ d.registry.given)
    (hf : d.progress.definitions.find? g.id = some node) : ∃ found depth,
      Resolver.target document g.key = .ok found ∧ ReadsTied (d.Records document)
        (Registry.naming.Points d.progress) d.progress.definitions depth found node := by
  rw [h.fills.find?_eq] at hf
  obtain ⟨ref, found, depth, hp, ht, hr⟩ := h.walking.holds.tied g.id node hf
  obtain ⟨g', hg', hid, rfl⟩ := exists_of_keyOf? hp.1
  obtain rfl := h.ready.drafted.sound.eq_of_id (h.fills.grows.given hg') hg hid
  exact ⟨found, depth, ht,
    hr.mono (fun _ _ _ _ => h.records) h.keeps.points h.keeps.definitions⟩

/-- What is filled in under a name shows what the name was given for. -/
theorem Added.exists_shows {g : Given} {filled : Shape} (hg : g ∈ d.registry.given)
    (hn : d.nodes.lookup g.id = some filled) :
    ∃ node, d.Asked free g node ∧ d.Shows node filled := by
  rcases h.adds.nodes g.id filled hn with hold | hfilled
  · rw [h.walking.nodes, h.naming.nodes] at hold
    cases hold
  · obtain ⟨g', hg', hid, node, hasked, hshows⟩ := hfilled.shown
    obtain rfl := h.ready.drafted.sound.eq_of_id hg' hg hid
    exact ⟨node, hasked, hshows⟩

end Added

/-- When components have been added, the table can be built, and every union in its declarations that
is read from alternatives records the discriminator that the finished definitions give, the two
exceptions for alternatives that recur aside. -/
theorem addComponents_discriminators
    (h : addComponents.runFrom (start document reserved) = (.ok (), d)) :
    ∃ table, build.runFrom d = (.ok table, d) ∧ ∀ δ ∈ table.types, d.Accounts document δ := by
  have hd := drafted_start .none document reserved
  have ho := onlyReferences_start document reserved
  obtain ⟨_, _, -, _, _, hnamed⟩ := (addComponents_added (course document) hd ho trivial).of_ok h
  obtain ⟨_, _, -, _, _, hadded⟩ := (addComponents_added
    (Naming.Course.tagging Registry.naming document) hd ho (Naming.accounted_start _ _ _)).of_ok h
  have hc := hnamed.closed
  refine ⟨_, build_of_closed hc, fun δ hδ => ?_⟩
  obtain ⟨g, hg, rfl⟩ := List.mem_map.mp hδ
  obtain ⟨filled, hn⟩ := Option.isSome_iff_exists.mp (hc.filled g hg)
  obtain ⟨node, hasked, hshows⟩ := hadded.exists_shows hg hn
  refine ⟨node, by simpa [declarationOf, hn] using hshows, hasked.imp ?_ ?_⟩
  · rintro ⟨horigin, hf⟩
    exact ⟨horigin, hadded.exists_readsTied hg hf⟩
  · rintro ⟨horigin, hhoisted⟩
    exact ⟨horigin, hhoisted.resolve_left fun hno => hno⟩

/-! ### Sums -/

/-- A document with these components. -/
def withComponents (schemas : Entries) : Value :=
  .mapping 1 [(.text "components", .mapping 2 [(.text "schemas", .mapping 3 schemas)])]

/-- A reference to a component. -/
def refTo (origin : Nat) (name : String) : Value :=
  .mapping origin [(.text "$ref", .text (componentRef name))]

/-- A component for records with these properties. -/
def recordOf (origin : Nat) (name : String) (properties : Entries) : Scalar × Value :=
  (.text name, .mapping origin [(.text "type", .text "object"),
    (.text "properties", .mapping (origin + 1) properties)])

/-- A property that always has the same value. -/
def constant (origin : Nat) (name value : String) : Scalar × Value :=
  (.text name, .mapping origin [(.text "enum", .list [.text value])])

/-- Expressions are literals or sums. -/
def exprComponent (more : Entries) : Scalar × Value :=
  (.text "Expr", .mapping 10 (more ++ [(.text "oneOf", .list [refTo 11 "Lit", refTo 12 "Add"])]))

/-- A literal is a record of the kind "lit". -/
def litComponent : Scalar × Value := recordOf 20 "Lit" [constant 22 "kind" "lit"]

/-- A sum is a record of the kind "add", with an expression in it. -/
def addComponent : Scalar × Value :=
  recordOf 30 "Add" [constant 32 "kind" "add", (.text "left", refTo 33 "Expr")]

/-- The discriminator of a union. -/
def discriminatorOf? : Shape → Option (Option String)
  | .union _ discriminator => some discriminator
  | _ => none

/-- The declarations of the components of a document. -/
def declared (document : Value) : Option Declarations :=
  ((addComponents >>= fun _ => build).runFrom (start document [])).1.toOption

/-- The discriminator that a component records, if it is a union. -/
def recorded (document : Value) (id : String) : Option (Option String) :=
  (declared document).bind fun table => (table.find? id).bind fun δ => discriminatorOf? δ.node

/-- The union of expressions is put aside, as it is met from a sum first, and records its
discriminator in the end. -/
theorem discriminators_of_expressions : ∃ d,
    addComponents.runFrom (start (withComponents
      [addComponent, litComponent, exprComponent []]) []) = (.ok (), d) ∧
    (∃ table, build.runFrom d = (.ok table, d) ∧ ∀ δ ∈ table.types,
      d.Accounts (withComponents [addComponent, litComponent, exprComponent []]) δ) ∧
    recorded (withComponents [addComponent, litComponent, exprComponent []]) "Expr" =
      some (some "kind") := by
  obtain ⟨_, d, h⟩ := Step.exists_of_isOk (show (addComponents.runFrom (start (withComponents
    [addComponent, litComponent, exprComponent []]) [])).1.isOk = true by decide +kernel)
  exact ⟨d, h, addComponents_discriminators h, by decide +kernel⟩

/-- When null is added to the union of expressions, it has a discriminator in the one order of the
components and none in the other, although the finished definitions give the same one. -/
theorem discriminator_depends_on_order :
    recorded (withComponents [exprComponent [(.text "nullable", .bool true)], litComponent,
      addComponent]) "Expr" = some (some "kind") ∧
    recorded (withComponents [addComponent, litComponent,
      exprComponent [(.text "nullable", .bool true)]]) "Expr" = some none ∧
    discriminator? (addComponents.runFrom (start (withComponents [addComponent, litComponent,
      exprComponent [(.text "nullable", .bool true)]]) [])).2.progress.definitions
      [.handle "Lit", .handle "Add"] .null = some "kind" := by
  decide +kernel

/-- A property that is one of two records, which the given field is to tell apart. -/
def eitherBy (origin : Nat) (name tag : String) : Scalar × Value :=
  (.text name, .mapping origin [
    (.text "oneOf", .list [refTo (origin + 1) "A", refTo (origin + 2) "B"]),
    (.text "discriminator", .mapping (origin + 3) [(.text "propertyName", .text tag)])])

/-- Two fields of a record that are unions of the same variants, each with its own discriminator. -/
def eitherComponents : Entries :=
  [recordOf 10 "A" [constant 12 "kind" "a", constant 13 "type" "a", eitherBy 14 "u" "kind",
    eitherBy 18 "v" "type"],
   recordOf 30 "B" [constant 32 "kind" "b", constant 33 "type" "b"]]

/-- Of two unions with the same variants that are put aside, both record the explicit discriminator of
the second one. -/
theorem discriminator_of_last :
    ((declared (withComponents eitherComponents)).bind fun table => (table.find? "A").map fun δ =>
      match δ.node with
      | .record fields _ _ _ => fields.map fun f => (f.name, discriminatorOf? f.node)
      | _ => []) =
    some [("kind", none), ("type", none), ("u", some (some "type")), ("v", some (some "type"))] := by
  decide +kernel

end Draft

end RouteStubs
