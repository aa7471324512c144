import Mathlib.Algebra.Field.Rat
import Mathlib.Data.Rat.Cast.Defs
import RouteStubs.Shape.Basic

/-!
# What values say

Two values of a document say the same when the one stands for what the other stands for: numbers
by what they amount to, whatever their kinds, and a truth value is no number. The equality that the
walk through schemas goes by is coarser, since a truth value counts as the number one or zero there.

## Main definitions

* `Binary64.datum`, `Scalar.datum`: what a number, and a scalar, stands for.
* `Scalar.counted`: the same, with a truth value counted as a number.
* `Value.Equals`: two values say the same.
* `Value.HasEntry`, `Value.HasItem`: the parts of mappings and of lists.
* `Kind.admits`: the values of a kind.

## Main statements

* `Scalar.counted_eq_of_same`, `Scalar.datum_eq_of_same`: scalars that are the same.
-/

namespace RouteStubs

/-- What a scalar stands for. -/
inductive Datum where
  /-- Nothing. -/
  | null
  /-- A truth value. -/
  | truth (b : Bool)
  /-- A number. -/
  | number (q : ℚ)
  /-- An infinity. -/
  | infinite (negative : Bool)
  /-- No number. -/
  | undefined
  /-- A text. -/
  | text (s : String)

/-! ### Numbers -/

namespace Binary64

/-- What a floating-point number amounts to. -/
def datum : Binary64 → Datum
  | .finite negative m e =>
    let (num, den) := ratio m e
    .number (if negative then -(num / den) else num / den)
  | .infinite negative => .infinite negative
  | .undefined => .undefined

theorem ratio_snd_ne_zero (m : Nat) (e : Int) : (ratio m e).2 ≠ 0 := by
  have hpow : ∀ n, twoTo n ≠ 0 := fun n => (Nat.pow_pos (by decide)).ne'
  unfold ratio
  split
  · exact one_ne_zero
  · exact hpow _

theorem ratio_zero_fst (e : Int) : (ratio 0 e).1 = 0 := by
  unfold ratio
  split
  · exact Nat.zero_mul _
  · rfl

theorem datum_of_isZero {x : Binary64} (h : x.isZero = true) : x.datum = .number 0 := by
  cases x with
  | finite negative m e =>
    obtain rfl : m = 0 := by simpa [isZero] using h
    cases negative <;> simp [datum, ratio_zero_fst]
  | _ => cases h

theorem datum_eq_of_same {x y : Binary64} (h : x.same y = true) : x.datum = y.datum := by
  rcases (Bool.or_eq_true _ _).mp h with he | hz
  · rw [eq_of_beq he]
  · obtain ⟨hx, hy⟩ := (Bool.and_eq_true _ _).mp hz
    rw [datum_of_isZero hx, datum_of_isZero hy]

theorem datum_of_equalsInt {x : Binary64} {n : Int} (h : x.equalsInt n = true) :
    x.datum = .number n := by
  cases x with
  | finite negative m e =>
    have hden : ((ratio m e).2 : ℚ) ≠ 0 := Nat.cast_ne_zero.mpr (ratio_snd_ne_zero m e)
    obtain ⟨hnum, hsign⟩ := (Bool.and_eq_true _ _).mp h
    have hnum : (ratio m e).1 = n.natAbs * (ratio m e).2 := eq_of_beq hnum
    -- the number is a fraction that is whole, up to its sign
    have hq : ((ratio m e).1 : ℚ) / (ratio m e).2 = (n.natAbs : ℚ) := by
      rw [hnum, Nat.cast_mul, mul_div_cancel_right₀ _ hden]
    simp only [datum, hq]
    rcases (Bool.or_eq_true _ _).mp hsign with hm | hs
    · -- both are zero, so the sign does not count
      obtain rfl : m = 0 := eq_of_beq hm
      have hzero : n.natAbs = 0 := by
        rw [ratio_zero_fst] at hnum
        exact (Nat.mul_eq_zero.mp hnum.symm).resolve_right (ratio_snd_ne_zero 0 e)
      obtain rfl : n = 0 := Int.natAbs_eq_zero.mp hzero
      cases negative <;> simp
    · rw [eq_of_beq hs]
      by_cases hn : n < 0
      · have habs := congrArg (Int.cast : Int → ℚ) (Int.ofNat_natAbs_of_nonpos hn.le)
        rw [Int.cast_natCast, Int.cast_neg] at habs
        simp [hn, habs]
      · have habs := congrArg (Int.cast : Int → ℚ) (Int.natAbs_of_nonneg (not_lt.mp hn))
        rw [Int.cast_natCast] at habs
        simp [hn, habs]
  | _ => cases h

end Binary64

/-! ### Scalars -/

namespace Scalar

/-- What a scalar stands for. -/
def datum : Scalar → Datum
  | .null => .null
  | .bool b => .truth b
  | .int n => .number n
  | .real x => x.datum
  | .text s => .text s

/-- What a scalar stands for when a truth value counts as the number one or zero. -/
def counted : Scalar → Datum
  | .bool b => .number (if b then 1 else 0)
  | a => a.datum

/-- Whether a scalar is a truth value. -/
def isBool : Scalar → Bool
  | .bool _ => true
  | _ => false

variable {a b : Scalar}

theorem counted_of_asInt? {n : Int} (h : a.asInt? = some n) : a.counted = .number n := by
  cases a with
  | bool b =>
    cases h
    cases b <;> simp [counted]
  | int m =>
    cases h
    rfl
  | _ => cases h

theorem counted_of_equalsInt {x : Binary64} {a : Scalar}
    (h : (a.asInt?.map x.equalsInt).getD false = true) : x.datum = a.counted := by
  cases hn : a.asInt? with
  | none =>
    rw [hn] at h
    cases h
  | some n =>
    rw [hn] at h
    rw [Binary64.datum_of_equalsInt h, counted_of_asInt? hn]

/-- Scalars that are the same stand for the same if truth values count as numbers. -/
theorem counted_eq_of_same (h : a.same b = true) : a.counted = b.counted := by
  unfold same at h
  split at h
  · rfl
  · rw [eq_of_beq h]
  · exact Binary64.datum_eq_of_same h
  · exact counted_of_equalsInt h
  · exact (counted_of_equalsInt h).symm
  · split at h
    · next hm hn => rw [counted_of_asInt? hm, counted_of_asInt? hn, eq_of_beq h]
    · cases h

/-- Scalars that are the same stand for the same, unless just one of them is a truth value. -/
theorem datum_eq_of_same (h : a.same b = true) (hb : a.isBool = b.isBool) : a.datum = b.datum := by
  have hc := counted_eq_of_same h
  -- what a truth value counts as tells which truth value it is
  cases a with
  | bool p =>
    cases b with
    | bool q => cases p <;> cases q <;> simp_all [same, asInt?]
    | _ => cases hb
  | _ =>
    cases b with
    | bool q => cases hb
    | _ => exact hc

/-- Scalars of one kind that are the same stand for the same. -/
theorem datum_eq_of_sameKind (h : a.sameKind b = true) : a.datum = b.datum := by
  unfold sameKind at h
  split at h
  · rfl
  · rw [eq_of_beq h]
  · rw [eq_of_beq h]
  · exact Binary64.datum_eq_of_same h
  · rw [eq_of_beq h]
  · cases h

theorem counted_eq_of_datum (h : a.datum = b.datum) : a.counted = b.counted := by
  cases a with
  | bool p =>
    cases b with
    | bool q =>
      cases h
      rfl
    | real y =>
      cases y <;> cases h
    | _ => cases h
  | real x =>
    cases b with
    | bool q => cases x <;> cases h
    | _ => exact h
  | _ =>
    cases b with
    | bool q => cases h
    | _ => exact h

end Scalar

/-! ### Values -/

namespace Value

mutual

/-- The two values say the same: the same scalar, the same items in the same order, or the same
entries in any order. -/
def Equals : Value → Value → Prop
  | .scalar a, .scalar b => a.datum = b.datum
  | .list as, .list bs => EqualItems as bs
  | .mapping _ as, .mapping _ bs => as.length = bs.length ∧ EqualEntries as bs
  | _, _ => False

/-- The items of the two lists say the same, one by one. -/
def EqualItems : List Value → List Value → Prop
  | [], [] => True
  | a :: as, b :: bs => Equals a b ∧ EqualItems as bs
  | _, _ => False

/-- Each entry says the same as an entry of the other mapping with its key. -/
def EqualEntries : Entries → Entries → Prop
  | [], _ => True
  | (key, a) :: as, bs => (∃ b, (key, b) ∈ bs ∧ Equals a b) ∧ EqualEntries as bs

end

/-- The value is a mapping that has the other value under a name. -/
def HasEntry : Value → (name : String) → Value → Prop
  | .mapping _ entries, name, w => (.text name, w) ∈ entries
  | _, _, _ => False

/-- The value is a list with the item. -/
def HasItem : Value → Value → Prop
  | .list items, w => w ∈ items
  | _, _ => False

theorem eq_text_of_isText {v : Value} {s : String} (h : v.isText s = true) : v = .text s := by
  unfold isText at h
  split at h
  · rw [eq_of_beq h]
  · cases h

end Value

/-- Whether a value is of the kind. A number without a fraction is an integer. -/
def Kind.admits : Kind → Value → Bool
  | .string, .scalar (.text _) => true
  | .integer, .scalar (.int _) => true
  | .integer, .scalar (.real x) => x.toInt?.isSome
  | .number, .scalar (.int _) => true
  | .number, .scalar (.real _) => true
  | .boolean, .scalar (.bool _) => true
  | .null, .scalar .null => true
  | _, _ => false

end RouteStubs
