import Mathlib.Data.Nat.Find
import Mathlib.Order.Monotone.Basic

/-! Levels and ranks of a run.

A level that rises by at most one a step has passed through every level below on its way
up. The last cycle it spent below a height tells when it did so for good. A rank sinks, and
how often it does so in a number of steps bounds the length of a run.
-/

set_option autoImplicit false

namespace PathAccelerator.Semantics

/-! ## Levels -/

section Levels

/-- The last cycle up to `t` with a level of at most `k`. -/
def lastWithin (level : ℕ → ℕ) (k t : ℕ) : ℕ := Nat.findGreatest (fun u => level u ≤ k) t

variable {level : ℕ → ℕ} {k t : ℕ}

theorem lastWithin_le : lastWithin level k t ≤ t := Nat.findGreatest_le t

theorem lt_level {u : ℕ} (later : lastWithin level k t < u) (before : u ≤ t) : k < level u :=
  Nat.lt_of_not_le (Nat.findGreatest_is_greatest (P := fun u => level u ≤ k) later before)

variable (start : level 0 = 0)

include start

theorem level_lastWithin_le : level (lastWithin level k t) ≤ k := by
  have bottom : level 0 ≤ k := start.trans_le (Nat.zero_le k)
  exact Nat.findGreatest_spec (P := fun u => level u ≤ k) (Nat.zero_le t) bottom

theorem lastWithin_lt (above : k < level t) : lastWithin level k t < t := by
  refine Nat.lt_of_le_of_ne lastWithin_le fun same => ?_
  have below : level (lastWithin level k t) ≤ k := level_lastWithin_le start
  rw [same] at below
  exact Nat.not_lt_of_le below above

variable (rises : ∀ u, level (u + 1) ≤ level u + 1)

include rises

theorem level_lastWithin (above : k < level t) :
    level (lastWithin level k t) = k ∧ level (lastWithin level k t + 1) = k + 1 := by
  have below : level (lastWithin level k t) ≤ k := level_lastWithin_le start
  have next : k < level (lastWithin level k t + 1) :=
    lt_level (Nat.lt_succ_self _) (lastWithin_lt start above)
  have step := rises (lastWithin level k t)
  omega

theorem lastWithin_strictMono {k' : ℕ} (lower : k < k') (above : k' < level t) :
    lastWithin level k t < lastWithin level k' t := by
  have here : level (lastWithin level k t) = k := (level_lastWithin start rises (lower.trans above)).1
  have there : level (lastWithin level k' t) = k' := (level_lastWithin start rises above).1
  refine Nat.lt_of_le_of_ne ?_ fun same => ?_
  · exact Nat.le_findGreatest lastWithin_le (here.trans_le lower.le)
  · rw [same, there] at here
    omega

end Levels

/-! ## Ranks -/

/-- A rank that never rises, and sinks in every window of steps while it is above a bound, has
sunk by the number of windows. -/
theorem rank_le_of_windows {rank : ℕ → ℕ} (falls : Antitone rank) (bound window first : ℕ)
    (sinks : ∀ t ≥ first, bound < rank t → ∃ t' ≤ t + window, rank t' < rank t) (k : ℕ) :
    rank (first + k * window) ≤ max bound (rank first - k) := by
  induction k with
  | zero =>
    rw [Nat.zero_mul]
    exact Nat.le_max_right bound (rank first)
  | succ k ih =>
    have next : first + (k + 1) * window = first + k * window + window := by
      rw [Nat.succ_mul, Nat.add_assoc]
    rw [next]
    by_cases above : bound < rank (first + k * window)
    · obtain ⟨t', upto, lower⟩ := sinks _ (Nat.le_add_right _ _) above
      have last := falls upto
      omega
    · have last := falls (Nat.le_add_right (first + k * window) window)
      omega

end PathAccelerator.Semantics
