import Mathlib
import RouteStubs.Proofs.Schema.Merges
import RouteStubs.Proofs.Shape.Identical

/-!
# How alternatives are joined

The members of a union are shaped one after the other, and the union has each shape at its first place.
If only one shape is left, then it takes the place of the union. A shape is dropped when one that is
the same stands before it, and the same are also enumerations of values of different kinds whose
numbers are equal. So an alternative may be lost, and it is if and only if two members are the same and
differ in the kinds of their values.

## Main definitions

* `Canon.PutAside`: a union has no discriminator yet.
* `Canon.Joined`: the only variant, or the union of several.
* `Canon.AmongVariants`: a shape is one of the variants of another one, or all of it.

## Main statements

* `Canon.unionOf_ends`: a union has a discriminator, or is put aside.
* `Canon.shape_alternatives`: what a list of alternatives is joined to.
* `Canon.not_shape_alternatives_keeps`: an alternative that is lost.
-/

namespace RouteStubs.Canon

variable {ν : Type} {namer : Namer ν} {deeper : Deeper ν} {context : String} {origin : Nat}
  {entries : Entries} {members : List Value} {first : Value} {others : List Value}
  {p p' : Progress ν} {nodes variants : List Shape} {explicit : Value}

/-- No discriminator can be found, and a variant is not finished. -/
def PutAside (definitions : Definitions) (variants : List Shape) (explicit : Value) : Prop :=
  Shape.discriminator? definitions variants explicit = none ∧
    ∃ v ∈ variants, definitions.dereference v = none

/-- Variants are joined to a union with the discriminator that can be found. If the union has to be put
aside, then it has to be possible to look up its variants. -/
theorem unionOf_ends (variants : List Shape) (explicit : Value) (p : Progress ν) :
    (unionOf variants explicit).Ends p
      (fun node _ => node = .union variants (Shape.discriminator? p.definitions variants explicit) ∧
        ¬(PutAside p.definitions variants explicit ∧ Shape.areKeys variants = false))
      fun fault _ => fault = .defect .wrongKind ∧
        PutAside p.definitions variants explicit ∧ Shape.areKeys variants = false := by
  have haside : ((Shape.discriminator? p.definitions variants explicit).isNone &&
      variants.any fun v => (p.definitions.dereference v).isNone) = true ↔
        PutAside p.definitions variants explicit := by
    simp only [PutAside, Bool.and_eq_true, List.any_eq_true, Option.isNone_iff_eq_none]
  unfold unionOf
  rw [Step.ends_bind, Step.ends_get]
  dsimp only
  by_cases hput : PutAside p.definitions variants explicit
  · rw [if_pos (haside.mpr hput)]
    cases hkeys : Shape.areKeys variants with
    | true =>
      simp only [Bool.not_true, Bool.false_eq_true, if_false, Step.ends_bind, Step.ends_modify,
        Step.ends_pure]
      exact ⟨trivial, fun hno => Bool.noConfusion hno.2⟩
    | false =>
      simp only [Bool.not_false, if_true, Step.ends_bind, Step.ends_throw]
      exact ⟨trivial, hput, trivial⟩
  · rw [if_neg (fun h => hput (haside.mp h)), Step.ends_pure]
    exact ⟨rfl, fun hno => hput hno.1⟩

/-- The only variant, or the union of several with the discriminator that can be found. -/
def Joined (definitions : Definitions) (entries : Entries) (variants : List Shape) (node : Shape) :
    Prop :=
  variants = [node] ∨ variants.length ≠ 1 ∧ node = .union variants
    (Shape.discriminator? definitions variants (explicitDiscriminator entries))

/-- Several variants, of which one is not finished and one cannot be looked up. -/
def Unjoinable (definitions : Definitions) (entries : Entries) (variants : List Shape) : Prop :=
  variants.length ≠ 1 ∧ PutAside definitions variants (explicitDiscriminator entries) ∧
    Shape.areKeys variants = false

/-- Alternatives whose members have shapes are joined, in the order of first places. -/
theorem alternatives_ends (rule : ruleOf entries = .alternatives (.list (first :: others)))
    (normal : (memberShapes deeper context 0 (first :: others)).runFrom p = (.ok nodes, p')) :
    (ofEntries namer deeper context origin entries).Ends p
      (fun node _ => Joined p'.definitions entries (Shape.distinct nodes) node ∧
        ¬Unjoinable p'.definitions entries (Shape.distinct nodes))
      fun fault _ => fault = .defect .wrongKind ∧
        Unjoinable p'.definitions entries (Shape.distinct nodes) := by
  simp only [ofEntries_eq, rule, alternatives, Step.ends_bind]
  have hnodes : (memberShapes deeper context 0 (first :: others)).Ends p
      (fun found q => found = nodes ∧ q = p') fun _ _ => False := by
    rw [Step.Ends, normal]
    exact ⟨rfl, rfl⟩
  refine hnodes.imp ?_ fun _ _ => False.elim
  rintro found q ⟨rfl, rfl⟩
  split
  · next only honly =>
    rw [Step.ends_pure]
    exact ⟨.inl honly, fun hno => hno.1 (by rw [honly]; rfl)⟩
  · next several =>
    have hlength : (Shape.distinct found).length ≠ 1 := by
      intro hone
      obtain ⟨only, honly⟩ := List.length_eq_one_iff.mp hone
      exact several only honly
    refine (unionOf_ends _ _ q).imp ?_ ?_
    · rintro node _ ⟨hnode, hno⟩
      exact ⟨.inr ⟨hlength, hnode⟩, fun h => hno h.2⟩
    · rintro fault _ ⟨hfault, hput⟩
      exact ⟨hfault, hlength, hput⟩

/-- **What alternatives are joined to.** If all members have shapes, then these shapes, each at its
first place, are the variants of the union, or one is left and takes its place. As long as members that
are the same have values of the same kinds, each member is identical to one of the variants; where
formats are scalars, none is lost only then. No two variants are identical. There is a result unless
one of several variants is not finished and one cannot be looked up. -/
theorem shape_alternatives {steps : Nat}
    (rule : ruleOf entries = .alternatives (.list (first :: others)))
    (normal : (memberShapes (shape namer steps) context 0 (first :: others)).runFrom p =
      (.ok nodes, p')) {outcome : Except Fault Shape} {q : Progress ν}
    (run : (shape namer (steps + 1) context (.mapping origin entries)).runFrom p = (outcome, q)) :
    ∃ variants, Shape.FirstOf nodes variants ∧
      (Shape.KindsAgree nodes →
        ∀ node ∈ nodes, node ∈ variants ∨ ∃ v ∈ variants, node.Identical v) ∧
      ((∀ node ∈ nodes, node.Regular) →
        ((∀ node ∈ nodes, node ∈ variants ∨ ∃ v ∈ variants, node.Identical v) ↔
          Shape.KindsAgree nodes)) ∧
      variants.Pairwise (fun v w => ¬w.Identical v) ∧
      (outcome.isOk = true ↔ ¬Unjoinable p'.definitions entries variants) ∧
      (∀ node, outcome = .ok node → ∃ plain, Joined p'.definitions entries variants plain ∧
        node = if isNullable entries then plain.orNull else plain) ∧
      ∀ fault, outcome = .error fault → fault = .defect .wrongKind := by
  have hfirst := Shape.firstOf_distinct nodes
  have hapart : (Shape.distinct nodes).Pairwise fun v w => ¬w.Identical v :=
    hfirst.apart.imp fun {v w} (hno : w.same v = false) hidentical =>
      Bool.false_ne_true (hno.symm.trans hidentical.1)
  refine ⟨Shape.distinct nodes, hfirst, fun hkinds node hn => hfirst.identical hkinds hn,
    fun hregular => hfirst.identical_iff hregular, hapart, ?_⟩
  have hplain : (ofEntries namer (shape namer steps) context origin entries).Ends p _ _ :=
    alternatives_ends rule normal
  have hends := shape_ends hplain
  cases outcome with
  | ok node =>
    obtain ⟨plain, ⟨hjoined, hno⟩, hnode⟩ := hends.of_ok run
    refine ⟨iff_of_true rfl hno, ?_, nofun⟩
    rintro _ ⟨⟩
    exact ⟨plain, hjoined, hnode⟩
  | error fault =>
    obtain ⟨hfault, hunjoinable⟩ := hends.of_error run
    refine ⟨iff_of_false nofun fun hno => hno hunjoinable, nofun, ?_⟩
    rintro _ ⟨⟩
    exact hfault

/-- A text, the integer one or the truth value, and a text again. -/
def repeatedMembers : List Value := [.mapping 2 [(.text "type", .text "string")],
  .mapping 3 [(.text "enum", .list [.scalar (.int 1), .scalar (.bool true)])],
  .mapping 4 [(.text "type", .text "string")]]

/-- The second text is identical to the first, and the two values are different. -/
theorem shape_alternatives_repeated : ∃ p' nodes q node,
    (memberShapes (shape Registry.nameFor 9) "<inline>" 0 repeatedMembers).runFrom
      (Progress.start ⟨[], [], []⟩ (.mapping 0 [])) = (.ok nodes, p') ∧
    (shape Registry.nameFor 10 "<inline>"
      (.mapping 1 [(.text "oneOf", .list repeatedMembers)])).runFrom
      (Progress.start ⟨[], [], []⟩ (.mapping 0 [])) = (.ok node, q) ∧
    Shape.KindsAgree nodes ∧ ∃ variants, Shape.FirstOf nodes variants ∧
      (∀ member ∈ nodes, member ∈ variants ∨ ∃ v ∈ variants, member.Identical v) ∧
      Joined p'.definitions [(.text "oneOf", .list repeatedMembers)] variants node := by
  have hnodes : ((memberShapes (shape Registry.nameFor 9) "<inline>" 0 repeatedMembers).runFrom
      (Progress.start ⟨[], [], []⟩ (.mapping 0 []))).1 = .ok [.primitive .string .null,
        .enum [.int 1, .bool true], .primitive .string .null] := rfl
  have hrun : ((shape Registry.nameFor 10 "<inline>"
      (.mapping 1 [(.text "oneOf", .list repeatedMembers)])).runFrom
      (Progress.start ⟨[], [], []⟩ (.mapping 0 []))).1 =
        .ok (.union [.primitive .string .null, .enum [.int 1, .bool true]] none) := by cbv
  have hkinds : Shape.KindsAgree [.primitive .string .null, .enum [.int 1, .bool true],
      .primitive .string .null] := by
    simp [Shape.KindsAgree, Shape.same, Shape.valueKinds]
  obtain ⟨variants, hfirst, hkept, -, -, -, hjoined, -⟩ :=
    shape_alternatives rfl (Prod.ext hnodes rfl) (Prod.ext hrun rfl)
  obtain ⟨plain, hplain, hnode⟩ := hjoined _ rfl
  obtain rfl : _ = plain := hnode
  exact ⟨_, _, _, _, Prod.ext hnodes rfl, Prod.ext hrun rfl, hkinds, variants, hfirst, hkept hkinds,
    hplain⟩

/-- A shape is identical to another one or to one of its variants. -/
def AmongVariants (member node : Shape) : Prop :=
  member.Identical node ∨
    ∃ variants discriminator, node = .union variants discriminator ∧
      ∃ v ∈ variants, member.Identical v

/-- The integer one or the truth value. -/
def oneOrTrue : List Value := [.mapping 2 [(.text "enum", .list [.scalar (.int 1)])],
  .mapping 3 [(.text "enum", .list [.scalar (.bool true)])]]

/-- An alternative is lost when its values are equal to those of another one in another kind. -/
theorem not_shape_alternatives_keeps : ¬ ∀ (document : Value) (origin steps : Nat) (entries : Entries)
    (first : Value) (others : List Value) (nodes : List Shape) (p' q : Progress Registry)
    (node : Shape), ruleOf entries = .alternatives (.list (first :: others)) →
    (memberShapes (shape Registry.nameFor steps) "<inline>" 0 (first :: others)).runFrom
      (Progress.start ⟨[], [], []⟩ document) = (.ok nodes, p') →
    (shape Registry.nameFor (steps + 1) "<inline>" (.mapping origin entries)).runFrom
      (Progress.start ⟨[], [], []⟩ document) = (.ok node, q) →
    ∀ member ∈ nodes, AmongVariants member node := by
  intro hall
  have hnodes : ((memberShapes (shape Registry.nameFor 9) "<inline>" 0 oneOrTrue).runFrom
      (Progress.start ⟨[], [], []⟩ (.mapping 0 []))).1 = .ok [.enum [.int 1], .enum [.bool true]] :=
    rfl
  have hrun : ((shape Registry.nameFor 10 "<inline>"
      (.mapping 1 [(.text "oneOf", .list oneOrTrue)])).runFrom
      (Progress.start ⟨[], [], []⟩ (.mapping 0 []))).1 = .ok (.enum [.int 1]) := by cbv
  have hmember := hall (.mapping 0 []) 1 9 [(.text "oneOf", .list oneOrTrue)] _ _ _ _ _ _ rfl
    (Prod.ext hnodes rfl) (Prod.ext hrun rfl) (.enum [.bool true]) (by simp)
  rcases hmember with hidentical | ⟨variants, discriminator, hunion, -⟩
  · exact absurd hidentical (by decide +kernel)
  · cases hunion

end RouteStubs.Canon
