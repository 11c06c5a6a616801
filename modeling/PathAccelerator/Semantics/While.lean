import Mathlib.Data.Nat.Notation
import Mathlib.Tactic.SplitIfs

/-! While loops over a state.

A loop is its guard and its body. It is run with fuel, and ends when some fuel is enough.
-/

set_option autoImplicit false

namespace PathAccelerator.Semantics

variable {S : Type*}

/-- The state in which `while (guard) body` ends, unless the fuel is used up before. -/
def whileLoop (guard : S → Bool) (body : S → S) : ℕ → S → Option S
  | 0, _ => none
  | fuel + 1, s => if guard s then whileLoop guard body fuel (body s) else some s

def Ends (guard : S → Bool) (body : S → S) (s t : S) : Prop :=
  ∃ fuel, whileLoop guard body fuel s = some t

variable {guard : S → Bool} {body : S → S} {s t : S}

theorem Ends.exit (ended : Ends guard body s t) : guard t = false := by
  obtain ⟨fuel, ended⟩ := ended
  induction fuel generalizing s with
  | zero => cases ended
  | succ fuel ih =>
    rw [whileLoop] at ended
    split_ifs at ended with more
    · exact ih ended
    · rw [← Option.some.inj ended]
      exact Bool.not_eq_true _ ▸ more

theorem ends_iff_of_exit (exit : guard s = false) : Ends guard body s t ↔ t = s := by
  constructor
  · rintro ⟨fuel, ended⟩
    cases fuel with
    | zero => cases ended
    | succ fuel =>
      rw [whileLoop, exit] at ended
      exact (Option.some.inj ended).symm
  · rintro rfl
    exact ⟨1, by rw [whileLoop, exit]; rfl⟩

theorem ends_iff_of_turn (more : guard s = true) :
    Ends guard body s t ↔ Ends guard body (body s) t := by
  constructor
  · rintro ⟨fuel, ended⟩
    cases fuel with
    | zero => cases ended
    | succ fuel =>
      rw [whileLoop, if_pos more] at ended
      exact ⟨fuel, ended⟩
  · rintro ⟨fuel, ended⟩
    exact ⟨fuel + 1, by rw [whileLoop, if_pos more, ended]⟩

/-- A loop whose guard stays true for as long as an invariant holds never ends. -/
theorem not_ends_of_invariant (Inv : S → Prop)
    (keeps : ∀ s, Inv s → guard s = true ∧ Inv (body s)) (start : Inv s) (t : S) :
    ¬ Ends guard body s t := by
  rintro ⟨fuel, ended⟩
  induction fuel generalizing s with
  | zero => cases ended
  | succ fuel ih =>
    obtain ⟨more, kept⟩ := keeps s start
    rw [whileLoop, if_pos more] at ended
    exact ih kept ended

theorem not_ends_of_stuck (more : guard s = true) (stuck : body s = s) (t : S) :
    ¬ Ends guard body s t := by
  refine not_ends_of_invariant (· = s) ?_ rfl t
  rintro _ rfl
  exact ⟨more, stuck⟩

end PathAccelerator.Semantics
