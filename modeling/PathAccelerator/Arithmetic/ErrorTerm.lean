import Mathlib.Tactic.Ring
import Mathlib.Tactic.Linarith
import Mathlib.Data.Nat.Notation
import Mathlib.Data.Int.Notation

/-! Rounded multiples of a fraction, evaluated by an error term.

The multiples of `m / M` rounded to the nearest integer can be listed by additions
alone: the sign of an error term says whether the next one is larger by one.
-/

set_option autoImplicit false

namespace PathAccelerator.Arithmetic

/-- `step * m / M` rounded to the nearest integer, halves upwards; 0 when `M` is. -/
def rounded (m M step : ℕ) : ℕ := (2 * step * m + M) / (2 * M)

/-- Twice the next multiple less the midpoint above the present value, over `M`. -/
def errorTerm (m M step : ℕ) : ℤ := 2 * m * (step + 1) - M - 2 * M * rounded m M step

variable {m M step : ℕ}

@[simp] theorem rounded_zero (m M : ℕ) : rounded m M 0 = 0 := by
  rcases Nat.eq_zero_or_pos M with rfl | positive
  · simp [rounded]
  · rw [rounded, Nat.div_eq_zero_iff]
    omega

theorem rounded_eq {q : ℕ} (low : 2 * M * q ≤ 2 * step * m + M)
    (high : 2 * step * m + M < 2 * M * (q + 1)) : rounded m M step = q :=
  Nat.div_eq_of_lt_le (Nat.mul_comm q _ ▸ low) (Nat.mul_comm (q + 1) _ ▸ high)

theorem rounded_bounds (positive : 0 < M) (m step : ℕ) :
    2 * M * rounded m M step ≤ 2 * step * m + M ∧
      2 * step * m + M < 2 * M * (rounded m M step + 1) :=
  ⟨Nat.mul_div_le _ _, Nat.lt_mul_div_succ _ (by omega)⟩

theorem rounded_full (le : m ≤ M) : rounded m M M = m := by
  rcases Nat.eq_zero_or_pos M with rfl | positive
  · rw [Nat.le_zero.mp le]
    exact rounded_zero 0 0
  · apply rounded_eq <;> linarith

theorem rounded_le (le : m ≤ M) (inside : step ≤ M) : rounded m M step ≤ m := by
  calc rounded m M step
    _ ≤ rounded m M M := by
      unfold rounded
      gcongr
    _ = m := rounded_full le

theorem errorTerm_zero (m M : ℕ) : errorTerm m M 0 = 2 * m - M := by
  simp [errorTerm]

theorem errorTerm_bounds (positive : 0 < M) (m step : ℕ) :
    2 * m - 2 * M ≤ errorTerm m M step ∧ errorTerm m M step < 2 * m := by
  obtain ⟨low, high⟩ := rounded_bounds positive m step
  unfold errorTerm
  zify at low high
  constructor <;> linarith

section Successor

variable (positive : 0 < M)

include positive

theorem rounded_succ_of_nonneg (le : m ≤ M) (up : 0 ≤ errorTerm m M step) :
    rounded m M (step + 1) = rounded m M step + 1 := by
  obtain ⟨low, high⟩ := rounded_bounds positive m step
  unfold errorTerm at up
  apply rounded_eq
  · zify
    linarith
  · linarith

theorem rounded_succ_of_neg (down : errorTerm m M step < 0) :
    rounded m M (step + 1) = rounded m M step := by
  obtain ⟨low, high⟩ := rounded_bounds positive m step
  unfold errorTerm at down
  apply rounded_eq
  · linarith
  · zify
    linarith

theorem errorTerm_succ_of_nonneg (le : m ≤ M) (up : 0 ≤ errorTerm m M step) :
    errorTerm m M (step + 1) = errorTerm m M step - 2 * M + 2 * m := by
  rw [errorTerm, rounded_succ_of_nonneg positive le up, errorTerm]
  push_cast
  ring

theorem errorTerm_succ_of_neg (down : errorTerm m M step < 0) :
    errorTerm m M (step + 1) = errorTerm m M step + 2 * m := by
  rw [errorTerm, rounded_succ_of_neg positive down, errorTerm]
  push_cast
  ring

end Successor

end PathAccelerator.Arithmetic
