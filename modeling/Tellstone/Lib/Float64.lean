import Mathlib.Algebra.Order.Field.Rat
import Mathlib.Algebra.Order.Field.Power
import Mathlib.Tactic.Linarith
import Mathlib.Tactic.Positivity

/-! Finite numbers of double precision and their conversion to integers. -/

/-- A mantissa of 53 bits times a power of two. -/
structure Float64 where
  mantissa : Int
  exponent : Int
  significant : mantissa.natAbs < 2 ^ 53
  inRange : -1074 ≤ exponent ∧ exponent ≤ 971
  deriving DecidableEq

namespace Float64

def value (x : Float64) : ℚ := x.mantissa * 2 ^ x.exponent

def trunc (x : Float64) : Int :=
  if 0 ≤ x.exponent then x.mantissa * 2 ^ x.exponent.toNat
  else x.mantissa.tdiv (2 ^ (-x.exponent).toNat)

/-- As the processor converts: what does not fit becomes the smallest integer. -/
def toInt64 (x : Float64) : Int64 :=
  if -2 ^ 63 ≤ x.trunc ∧ x.trunc < 2 ^ 63 then .ofInt x.trunc else .minValue

variable (x : Float64)

theorem value_of_exponent_nonneg (whole : 0 ≤ x.exponent) : x.value = x.trunc := by
  have power : (2 : ℚ) ^ x.exponent = 2 ^ x.exponent.toNat := by
    rw [← zpow_natCast, Int.toNat_of_nonneg whole]
  rw [value, trunc, if_pos whole, power]
  push_cast
  rfl

theorem value_of_exponent_neg (part : ¬ 0 ≤ x.exponent) :
    x.value = x.mantissa / 2 ^ (-x.exponent).toNat := by
  have power : (2 : ℚ) ^ x.exponent = (2 ^ (-x.exponent).toNat)⁻¹ := by
    rw [← zpow_natCast, Int.toNat_of_nonneg (by omega), zpow_neg, inv_inv]
  rw [value, power, div_eq_mul_inv]

theorem exists_parts (part : ¬ 0 ≤ x.exponent) : ∃ d r : ℤ, 0 < d ∧ -d < r ∧ r < d ∧
    (0 < x.trunc → 0 ≤ r) ∧ x.value = x.trunc + (r : ℚ) / d := by
  have positive : (0 : ℤ) < 2 ^ (-x.exponent).toNat := by positivity
  refine ⟨_, x.mantissa.tmod (2 ^ (-x.exponent).toNat), positive, Int.lt_tmod_of_pos _ positive,
    Int.tmod_lt_of_pos _ positive, ?_, ?_⟩
  · intro up
    rw [trunc, if_neg part] at up
    apply Int.tmod_nonneg
    by_contra negative
    have mirrored := Int.tdiv_nonneg (Int.neg_nonneg.mpr (by omega : x.mantissa ≤ 0)) positive.le
    rw [Int.neg_tdiv] at mirrored
    omega
  · have parts := Int.mul_tdiv_add_tmod x.mantissa (2 ^ (-x.exponent).toNat)
    have split : (x.mantissa : ℚ) = 2 ^ (-x.exponent).toNat * x.trunc +
        (x.mantissa.tmod (2 ^ (-x.exponent).toNat) : ℤ) := by
      rw [trunc, if_neg part]
      exact_mod_cast parts.symm
    have nonzero : (2 : ℚ) ^ (-x.exponent).toNat ≠ 0 := by positivity
    rw [x.value_of_exponent_neg part, split, add_div, mul_div_cancel_left₀ _ nonzero]
    push_cast
    rfl

theorem trunc_bounds : (x.trunc : ℚ) - 1 < x.value ∧ x.value < x.trunc + 1 := by
  by_cases whole : 0 ≤ x.exponent
  · rw [x.value_of_exponent_nonneg whole]
    constructor <;> linarith
  · obtain ⟨d, r, positive, below, above, -, same⟩ := x.exists_parts whole
    have width : (0 : ℚ) < d := by exact_mod_cast positive
    have lower : -1 < (r : ℚ) / d := by
      rw [lt_div_iff₀ width]
      have : -1 * d < r := by linarith
      exact_mod_cast this
    have upper : (r : ℚ) / d < 1 := by
      rw [div_lt_one width]
      exact_mod_cast above
    constructor <;> linarith

theorem trunc_le_value (positive : 0 < x.trunc) : (x.trunc : ℚ) ≤ x.value := by
  by_cases whole : 0 ≤ x.exponent
  · rw [x.value_of_exponent_nonneg whole]
  · obtain ⟨d, r, width, -, -, rest, same⟩ := x.exists_parts whole
    have fraction : (0 : ℚ) ≤ (r : ℚ) / d := by
      apply div_nonneg
      · exact_mod_cast rest positive
      · exact_mod_cast width.le
    linarith

theorem toInt_toInt64 : x.toInt64.toInt =
    if -2 ^ 63 ≤ x.trunc ∧ x.trunc < 2 ^ 63 then x.trunc else -2 ^ 63 := by
  unfold toInt64
  split
  · rename_i fits
    exact Int64.toInt_ofInt_of_le (by simpa using fits.1) (by simpa using fits.2)
  · rfl

theorem lt_value_of_lt_toInt64 {n : Int64} (later : n < x.toInt64) : (n.toInt : ℚ) < x.value := by
  have after := Int64.lt_iff_toInt_lt.mp later
  have least := n.le_toInt
  rw [toInt_toInt64] at after
  split at after
  · have next : (n.toInt : ℚ) + 1 ≤ x.trunc := by exact_mod_cast after
    linarith [x.trunc_bounds.1]
  · omega

theorem value_lt_iff_of_toInt64_le {n : Int64} (early : x.toInt64 ≤ n) :
    x.value < n.toInt + 1 ↔ x.value < 2 ^ 63 := by
  have before := Int64.le_iff_toInt_le.mp early
  have least := n.le_toInt
  have most : (n.toInt : ℚ) + 1 ≤ 2 ^ 63 := by exact_mod_cast n.toInt_lt
  constructor
  · intro near
    exact near.trans_le most
  · intro small
    rw [toInt_toInt64] at before
    split at before
    · have next : (x.trunc : ℚ) ≤ n.toInt := by exact_mod_cast before
      linarith [x.trunc_bounds.2]
    · rename_i out
      have negative : x.trunc < 2 ^ 63 := by
        by_contra large
        have whole := x.trunc_le_value (by omega)
        have far : (2 : ℚ) ^ 63 ≤ x.trunc := by exact_mod_cast Int.not_lt.mp large
        linarith
      have down : x.trunc ≤ n.toInt := by omega
      have next : (x.trunc : ℚ) ≤ n.toInt := by exact_mod_cast down
      linarith [x.trunc_bounds.2]

end Float64
