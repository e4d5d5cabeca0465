import Mathlib.Data.Rat.Floor
import Mathlib.Tactic.Linarith

/-! Integer rounding: upward division and truncation of a fraction towards zero. -/

namespace Rounding

/-- The quotient rounded up, as `ceil` of an exact division gives it. -/
def ceilDiv (a b : Int) : Int :=
  -((-a) / b)

/-- The integer part of a fraction, rounded towards zero as a conversion to an integer does. -/
def trunc (q : Rat) : Int :=
  q.num.tdiv q.den

/-- Rounding up stays below the next multiple. -/
theorem ceilDiv_spec (a : Int) {b : Int} (positive : 0 < b) :
    b * (ceilDiv a b - 1) < a ∧ a ≤ b * ceilDiv a b := by
  -- The floor of the negated dividend leaves a remainder between zero and the divisor.
  have split := Int.mul_ediv_add_emod (-a) b
  have low := Int.emod_nonneg (-a) (by omega : b ≠ 0)
  have high := Int.emod_lt_of_pos (-a) positive
  unfold ceilDiv
  constructor <;> nlinarith

/-- A number that a multiple reaches is rounded up no further than that multiple. -/
theorem ceilDiv_le {a b n : Int} (positive : 0 < b) (reaches : a ≤ b * n) :
    ceilDiv a b ≤ n := by
  -- If the rounded quotient were larger, the multiple below it would reach the number.
  have below := (ceilDiv_spec a positive).1
  by_contra beyond
  have : b * n ≤ b * (ceilDiv a b - 1) := by
    apply Int.mul_le_mul_of_nonneg_left <;> omega
  omega

/-- Dividing an exact multiple needs no rounding. -/
theorem ceilDiv_mul_left {b : Int} (n : Int) (positive : 0 < b) : ceilDiv (b * n) b = n := by
  unfold ceilDiv
  rw [← Int.mul_neg, Int.mul_ediv_cancel_left _ (by omega)]
  omega

/-- A truncated quotient has the sign of its dividend. -/
theorem tdiv_nonpos {a b : Int} (nonpos : a ≤ 0) (nonneg : 0 ≤ b) : a.tdiv b ≤ 0 := by
  have mirrored := Int.tdiv_nonneg (Int.neg_nonneg_of_nonpos nonpos) nonneg
  rw [Int.neg_tdiv] at mirrored
  omega

/-- A quotient grows by one exactly at the next multiple. -/
theorem succ_ediv (a : Int) {b : Int} (positive : 0 < b) :
    (a + 1) / b = a / b + if (a + 1) % b = 0 then 1 else 0 := by
  -- The remainder either wraps around or has room for one more.
  have split := Int.mul_ediv_add_emod a b
  have low := Int.emod_nonneg a (by omega : b ≠ 0)
  have high := Int.emod_lt_of_pos a positive
  by_cases full : a % b + 1 = b
  · have whole : a + 1 = b * (a / b + 1) := by linarith
    rw [whole, Int.mul_ediv_cancel_left _ (by omega), Int.mul_emod_right, if_pos rfl]
  · have quotient : (a + 1) / b = a / b ∧ (a + 1) % b = a % b + 1 :=
      Int.ediv_emod_unique positive |>.mpr ⟨by linarith, by omega, by omega⟩
    rw [quotient.1, quotient.2, if_neg (by omega)]
    omega

/-- A fraction that is not negative is cut to its floor. -/
theorem trunc_eq_floor {q : Rat} (nonneg : 0 ≤ q) : trunc q = ⌊q⌋ := by
  -- Both divide the numerator by the denominator, and they differ below zero only.
  have num : 0 ≤ q.num := Rat.num_nonneg.mpr nonneg
  rw [trunc, Int.tdiv_eq_ediv_of_nonneg num]
  exact (Rat.floor_def q).symm

end Rounding
