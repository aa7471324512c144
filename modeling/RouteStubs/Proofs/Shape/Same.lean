import Mathlib.Algebra.Order.Field.Power
import Mathlib.Algebra.Order.Field.Rat
import Mathlib.Tactic.Linarith
import Mathlib.Tactic.Ring
import RouteStubs.Proofs.Datum
import RouteStubs.Proofs.Shape
import RouteStubs.Proofs.Shape.Throughout

/-!
# Equal shapes

Two shapes that are the same as a third one are the same. This is so for shapes as documents give
them: a format is a scalar, and a number has the one form that rounding yields, so that two numbers
are the same if they amount to the same. A number in another form would be the same as an integer,
and so would the number in its rounded form, but not the one as the other.

## Main definitions

* `Scalar.Rounded`: a number has the form that rounding yields.
* `Shape.Regular`: all formats of a shape are scalars, and all its numbers are rounded.

## Main statements

* `Binary64.same_of_datum_eq`: rounded numbers that amount to the same.
* `Scalar.same_of_counted_eq`: scalars that stand for the same.
* `Shape.same_of_same`: shapes that are the same as a third one.
-/

namespace RouteStubs

/-! ### Numbers -/

namespace Binary64

variable {x y : Binary64} {m n : Nat} {d e : Int}

/-- The magnitude of a number. -/
theorem ratio_eq_mul_zpow (m : Nat) (e : Int) :
    ((ratio m e).1 : ℚ) / (ratio m e).2 = m * 2 ^ e := by
  have htwo : ∀ k, (twoTo k : ℚ) = 2 ^ k := fun k => by simp [twoTo]
  unfold ratio
  split
  · next h =>
    obtain ⟨k, rfl⟩ := Int.eq_ofNat_of_zero_le h
    simp [htwo]
  · next h =>
    obtain ⟨k, hk⟩ := Int.eq_ofNat_of_zero_le (show 0 ≤ -e by omega)
    obtain rfl : e = -k := by omega
    simp [htwo, div_eq_mul_inv]

/-- A rounded number with the smaller exponent has the magnitude of another one only if the exponents
are equal: otherwise its mantissa has a bit too many. -/
theorem eq_of_canonical_of_le {negative negative' : Bool} (hx : Canonical (.finite negative m d))
    (hy : Canonical (.finite negative' n e)) (hle : d ≤ e)
    (h : (m : ℚ) * 2 ^ d = n * 2 ^ e) : m = n ∧ d = e := by
  obtain ⟨k, hk⟩ := Int.eq_ofNat_of_zero_le (sub_nonneg.mpr hle)
  obtain rfl : e = d + k := by omega
  have hm : m = n * 2 ^ k := by
    rw [zpow_add₀ two_ne_zero, zpow_natCast] at h
    have hq : (m : ℚ) = n * 2 ^ k := mul_right_cancel₀ (zpow_ne_zero d two_ne_zero)
      (show (m : ℚ) * 2 ^ d = n * 2 ^ k * 2 ^ d by rw [h]; ring)
    exact_mod_cast hq
  cases k with
  | zero => simpa using hm
  | succ k =>
    -- the exponent `e` is not the least, so `n` is full, and `m` has at least one bit more
    obtain ⟨hmax, hmin, -⟩ := hx
    obtain ⟨-, -, -, hfull⟩ := hy
    have hn : twoTo 52 ≤ n := hfull.resolve_right (by omega)
    have hdouble : twoTo 53 ≤ m := calc
      twoTo 53 = twoTo 52 * 2 := rfl
      _ ≤ n * 2 ^ (k + 1) := Nat.mul_le_mul hn (Nat.le_self_pow k.succ_ne_zero 2)
      _ = m := hm.symm
    omega

theorem eq_of_canonical {negative negative' : Bool} (hx : Canonical (.finite negative m d))
    (hy : Canonical (.finite negative' n e)) (h : (m : ℚ) * 2 ^ d = n * 2 ^ e) :
    m = n ∧ d = e := by
  rcases le_total d e with hle | hle
  · exact eq_of_canonical_of_le hx hy hle h
  · obtain ⟨hm, he⟩ := eq_of_canonical_of_le hy hx hle h.symm
    exact ⟨hm.symm, he.symm⟩

/-- A magnitude that is not zero has one sign only. -/
theorem eq_of_signed_eq {negative negative' : Bool} {a b : ℚ} (ha : 0 ≤ a) (hb : 0 ≤ b)
    (h : (if negative then -a else a) = if negative' then -b else b) :
    a = b ∧ (a = 0 ∨ negative = negative') := by
  cases negative <;> cases negative' <;>
    simp only [Bool.false_eq_true, if_true, if_false] at h
  · exact ⟨h, .inr rfl⟩
  · exact ⟨by linarith, .inl (by linarith)⟩
  · exact ⟨by linarith, .inl (by linarith)⟩
  · exact ⟨neg_inj.mp h, .inr rfl⟩

theorem mul_zpow_nonneg (m : Nat) (e : Int) : (0 : ℚ) ≤ m * 2 ^ e :=
  mul_nonneg m.cast_nonneg (zpow_nonneg zero_le_two e)

theorem eq_zero_of_mul_zpow (h : (m : ℚ) * 2 ^ e = 0) : m = 0 :=
  Nat.cast_eq_zero.mp ((mul_eq_zero_iff_right (zpow_ne_zero e two_ne_zero)).mp h)

/-- Rounded numbers that amount to the same are the same. -/
theorem same_of_datum_eq (hx : x.Canonical) (hy : y.Canonical) (h : x.datum = y.datum) :
    x.same y = true := by
  cases x with
  | finite negative m d =>
    cases y with
    | finite negative' n e =>
      simp only [datum, ratio_eq_mul_zpow, Datum.number.injEq] at h
      obtain ⟨hmag, hsign⟩ := eq_of_signed_eq (mul_zpow_nonneg m d) (mul_zpow_nonneg n e) h
      obtain ⟨rfl, rfl⟩ := eq_of_canonical hx hy hmag
      rcases hsign with hzero | rfl
      · simp [same, isZero, eq_zero_of_mul_zpow hzero]
      · simp [same]
    | _ => cases h
  | infinite negative =>
    cases y with
    | infinite negative' =>
      cases h
      simp [same]
    | _ => cases h
  | undefined =>
    cases y with
    | undefined => rfl
    | _ => cases h

/-- A number that amounts to an integer is equal to it. -/
theorem equalsInt_of_datum {i : Int} (h : x.datum = .number i) : x.equalsInt i = true := by
  cases x with
  | finite negative m e =>
    have hden : ((ratio m e).2 : ℚ) ≠ 0 := Nat.cast_ne_zero.mpr (ratio_snd_ne_zero m e)
    have hi : (i : ℚ) = if decide (i < 0) then -(i.natAbs : ℚ) else i.natAbs := by
      rw [Nat.cast_natAbs]
      by_cases hneg : i < 0
      · simp [hneg, abs_of_neg hneg]
      · simp [hneg, abs_of_nonneg (not_lt.mp hneg)]
    simp only [datum, Datum.number.injEq] at h
    rw [hi] at h
    have hpos : (0 : ℚ) ≤ (ratio m e).1 / (ratio m e).2 :=
      div_nonneg (Nat.cast_nonneg _) (Nat.cast_nonneg _)
    obtain ⟨hmag, hsign⟩ := eq_of_signed_eq hpos i.natAbs.cast_nonneg h
    have hnum : (ratio m e).1 = i.natAbs * (ratio m e).2 := by
      rw [div_eq_iff hden] at hmag
      exact_mod_cast hmag
    rw [ratio_eq_mul_zpow] at hsign
    simpa [equalsInt, hnum] using hsign.imp_left eq_zero_of_mul_zpow
  | _ => cases h

end Binary64

/-! ### Scalars -/

namespace Scalar

variable {a b c : Scalar}

/-- A number has the form that rounding yields. -/
def Rounded : Scalar → Prop
  | .real x => x.Canonical
  | _ => True

/-- A number that stands for the same as an integer or a truth value is equal to it. -/
theorem real_same {x : Binary64} {n : Int} (hn : a.asInt? = some n) (h : x.datum = a.counted) :
    (Scalar.real x).same a = true ∧ a.same (.real x) = true := by
  rw [counted_of_asInt? hn] at h
  have heq := Binary64.equalsInt_of_datum h
  cases a with
  | bool p | int m =>
    cases hn
    exact ⟨heq, heq⟩
  | _ => cases hn

/-- Scalars that stand for the same are the same, where truth values count as numbers. -/
theorem same_of_counted_eq (ha : a.Rounded) (hb : b.Rounded) (h : a.counted = b.counted) :
    a.same b = true := by
  cases ha' : a.asInt? with
  | some m =>
    cases hb' : b.asInt? with
    | some n =>
      -- both count as integers, so no rounding is involved
      rw [counted_of_asInt? ha', counted_of_asInt? hb', Datum.number.injEq, Int.cast_inj] at h
      cases a <;> cases b <;> simp_all [same, asInt?]
    | none =>
      cases b with
      | real y => exact (real_same ha' h.symm).2
      | null | text s => rw [counted_of_asInt? ha'] at h; cases h
      | _ => cases hb'
  | none =>
    cases a with
    | null | text s =>
      cases b with
      | real y => cases y <;> cases h
      | bool q => cases h
      | _ => cases h <;> simp [same]
    | real x =>
      cases hb' : b.asInt? with
      | some n => exact (real_same hb' h).1
      | none =>
        cases b with
        | real y => exact Binary64.same_of_datum_eq ha hb h
        | null | text s => cases x <;> cases h
        | _ => cases hb'
    | _ => cases ha'

/-- Scalars that are the same as a third one are the same. -/
theorem same_of_same (hb : b.Rounded) (hc : c.Rounded) (h : a.same b = true)
    (h' : a.same c = true) : b.same c = true :=
  same_of_counted_eq hb hc ((counted_eq_of_same h).symm.trans (counted_eq_of_same h'))

end Scalar

/-! ### Shapes -/

namespace Shape

/-- The formats and values that the shape itself has are scalars, and their numbers are rounded. -/
def OwnRegular : Shape → Prop
  | .primitive _ format => ∃ a : Scalar, format = .scalar a ∧ a.Rounded
  | .enum values => ∀ a ∈ values, a.Rounded
  | _ => True

/-- All formats of the shape are scalars, and all its numbers are rounded. -/
def Regular (node : Shape) : Prop := node.Throughout OwnRegular

theorem sameScalars_of_same {as bs cs : List Scalar} (hb : ∀ b ∈ bs, b.Rounded)
    (hc : ∀ c ∈ cs, c.Rounded) (h : sameScalars as bs = true) (h' : sameScalars as cs = true) :
    sameScalars bs cs = true := by
  induction as generalizing bs cs with
  | nil => cases bs <;> cases cs <;> simp_all [sameScalars]
  | cons a as ih =>
    cases bs with
    | nil => simp [sameScalars] at h
    | cons b bs =>
      cases cs with
      | nil => simp [sameScalars] at h'
      | cons c cs =>
        simp only [sameScalars, Bool.and_eq_true, List.forall_mem_cons] at hb hc h h' ⊢
        exact ⟨Scalar.same_of_same hb.1 hc.1 h.1 h'.1, ih hb.2 hc.2 h.2 h'.2⟩

-- The recursion is on the third shape, whose parts decide how the other two are made.
mutual

/-- Shapes that are the same as a third one are the same. -/
theorem same_of_same : ∀ {a b c : Shape}, b.Regular → c.Regular → a.same b = true →
    a.same c = true → b.same c = true
  | .primitive _ format, b, c, hb, hc, h, h' => by
    cases b <;> cases c <;>
      simp only [same, Bool.false_eq_true, Bool.and_eq_true, beq_iff_eq] at h h' ⊢
    obtain ⟨f, rfl, hf⟩ := hb.self
    obtain ⟨g, rfl, hg⟩ := hc.self
    refine ⟨h.1.symm.trans h'.1, ?_⟩
    cases format with
    | scalar e => exact Scalar.same_of_same hf hg h.2 h'.2
    | _ => simp [Value.same] at h
  | .record _ _ _ _, b, c, hb, hc, h, h' => by
    cases b <;> cases c <;> simp only [same, Bool.false_eq_true, Bool.and_eq_true] at h h' ⊢
    obtain ⟨hbf, hbt⟩ := below_record.mp hb.below
    obtain ⟨hcf, hct⟩ := below_record.mp hc.below
    exact ⟨sameFields_of_same hbf hcf h.1 h'.1, sameTrailer_of_same hbt hct h.2 h'.2⟩
  | .array _, b, c, hb, hc, h, h' => by
    cases b <;> cases c <;> simp only [same, Bool.false_eq_true] at h h' ⊢
    exact same_of_same (hb.child .element) (hc.child .element) h h'
  | .union _ _, b, c, hb, hc, h, h' => by
    cases b <;> cases c <;>
      simp only [same, Bool.false_eq_true, Bool.and_eq_true, beq_iff_eq] at h h' ⊢
    exact ⟨sameVariants_of_same (below_union.mp hb.below) (below_union.mp hc.below) h.1 h'.1,
      h.2.symm.trans h'.2⟩
  | .enum _, b, c, hb, hc, h, h' => by
    cases b <;> cases c <;> simp only [same, Bool.false_eq_true] at h h' ⊢
    exact sameScalars_of_same hb.self hc.self h h'
  | .handle _, b, c, _, _, h, h' => by
    cases b <;> cases c <;> simp only [same, Bool.false_eq_true, beq_iff_eq] at h h' ⊢
    exact h.symm.trans h'
  | .unknown, b, c, _, _, h, h' => by
    cases b <;> cases c <;> simp only [same, Bool.false_eq_true] at h h' ⊢

theorem sameFields_of_same : ∀ {as bs cs : List (Field Shape)}, (∀ f ∈ bs, f.node.Regular) →
    (∀ f ∈ cs, f.node.Regular) → sameFields as bs = true → sameFields as cs = true →
    sameFields bs cs = true
  | [], bs, cs, _, _, h, h' => by
    cases bs <;> cases cs <;> simp only [sameFields, Bool.false_eq_true] at h h' ⊢
  | ⟨_, _, _, _⟩ :: _, bs, cs, hb, hc, h, h' => by
    rcases bs with _ | ⟨⟨_, _, _, _⟩, _⟩ <;> rcases cs with _ | ⟨⟨_, _, _, _⟩, _⟩ <;>
      simp only [sameFields, Bool.false_eq_true, Bool.and_eq_true, beq_iff_eq,
        List.forall_mem_cons] at hb hc h h' ⊢
    exact ⟨⟨⟨h.1.1.1.symm.trans h'.1.1.1, same_of_same hb.1 hc.1 h.1.1.2 h'.1.1.2⟩,
      h.1.2.symm.trans h'.1.2⟩, sameFields_of_same hb.2 hc.2 h.2 h'.2⟩

theorem sameTrailer_of_same : ∀ {a b c : Option Shape}, (∀ node, b = some node → node.Regular) →
    (∀ node, c = some node → node.Regular) → sameTrailer a b = true → sameTrailer a c = true →
    sameTrailer b c = true
  | none, b, c, _, _, h, h' => by
    cases b <;> cases c <;> simp only [sameTrailer, Bool.false_eq_true] at h h' ⊢
  | some _, b, c, hb, hc, h, h' => by
    cases b <;> cases c <;> simp only [sameTrailer, Bool.false_eq_true] at h h' ⊢
    exact same_of_same (hb _ rfl) (hc _ rfl) h h'

theorem sameVariants_of_same : ∀ {as bs cs : List Shape}, (∀ b ∈ bs, b.Regular) →
    (∀ c ∈ cs, c.Regular) → sameVariants as bs = true → sameVariants as cs = true →
    sameVariants bs cs = true
  | [], bs, cs, _, _, h, h' => by
    cases bs <;> cases cs <;> simp only [sameVariants, Bool.false_eq_true] at h h' ⊢
  | _ :: _, bs, cs, hb, hc, h, h' => by
    cases bs <;> cases cs <;> simp only [sameVariants, Bool.false_eq_true, Bool.and_eq_true,
      List.forall_mem_cons] at hb hc h h' ⊢
    exact ⟨same_of_same hb.1 hc.1 h.1 h'.1, sameVariants_of_same hb.2 hc.2 h.2 h'.2⟩

end

end Shape

end RouteStubs
