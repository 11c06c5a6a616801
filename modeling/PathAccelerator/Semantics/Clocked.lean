import Mathlib.Data.Nat.Init
import Mathlib.Logic.Function.Iterate

/-! Synchronous machines driven by an input stream.

A machine is its edge function. The input of cycle `t` is consumed by the edge
that ends the cycle, so the state of cycle `t + 1` depends on inputs up to `t`.
-/

set_option autoImplicit false

namespace PathAccelerator.Semantics

variable {I S A : Type*}

/-- The state held in each cycle of a run. -/
def trajectory (edge : I → S → S) (input : ℕ → I) (initial : S) : ℕ → S
  | 0 => initial
  | t + 1 => edge (input t) (trajectory edge input initial t)

variable (edge : I → S → S) (input : ℕ → I) (initial : S)

@[simp] theorem trajectory_zero : trajectory edge input initial 0 = initial := rfl

theorem trajectory_succ (t : ℕ) :
    trajectory edge input initial (t + 1) = edge (input t) (trajectory edge input initial t) := rfl

/-- A machine follows an autonomous plan when each edge moves it from any state
that agrees with a stage of the plan to one that agrees with the next stage. -/
theorem trajectory_follows {edge : I → S → S} {input : ℕ → I} {initial : S}
    {next : A → A} (Agrees : A → S → Prop) {stage : A} {T : ℕ}
    (start : Agrees stage (trajectory edge input initial T)) (c : ℕ)
    (step : ∀ t, T ≤ t → t < T + c → ∀ a s, Agrees a s → Agrees (next a) (edge (input t) s)) :
    Agrees (next^[c] stage) (trajectory edge input initial (T + c)) := by
  induction c with
  | zero => exact start
  | succ c ih =>
    rw [Function.iterate_succ_apply']
    exact step (T + c) (by omega) (by omega) _ _
      (ih fun t above below => step t above (by omega))

theorem trajectory_invariant {edge : I → S → S} {input : ℕ → I} {initial : S} (Inv : S → Prop)
    {T : ℕ} (start : Inv (trajectory edge input initial T))
    (step : ∀ t, T ≤ t → ∀ s, Inv s → Inv (edge (input t) s)) {t : ℕ} (later : T ≤ t) :
    Inv (trajectory edge input initial t) := by
  induction t, later using Nat.le_induction with
  | base => exact start
  | succ t later ih => exact step t later _ ih

theorem eventually_of_rank (goal : ℕ → Prop) (rank : ℕ → ℕ)
    (progress : ∀ t, ¬ goal t → ∃ t' > t, rank t' < rank t) (t : ℕ) : ∃ t' ≥ t, goal t' := by
  induction height : rank t using Nat.strongRecOn generalizing t with
  | ind _ ih =>
    by_cases reached : goal t
    · exact ⟨t, Nat.le_refl t, reached⟩
    · obtain ⟨t', later, lower⟩ := progress t reached
      obtain ⟨t'', after, reached'⟩ := ih (rank t') (height ▸ lower) t' rfl
      exact ⟨t'', by omega, reached'⟩

end PathAccelerator.Semantics
