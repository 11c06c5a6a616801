import Mathlib.Data.List.Basic

/-! Delta cycles of an event-driven simulator.

Signals live in one state. A process is resumed by an event on the signals it is
sensitive to, reads the current values of all signals and drives some of them; what
it drives is seen from the next delta cycle on.
-/

set_option autoImplicit false

namespace PathAccelerator.Semantics

variable {S A : Type*}

/-- `drive now pending` reads from `now` and updates what is pending. -/
structure Process (S : Type*) where
  wakes : S → S → Bool
  drive : S → S → S

def Process.on [DecidableEq A] (sensed : S → A) (drive : S → S → S) : Process S where
  wakes before now := decide (sensed before ≠ sensed now)
  drive := drive

/-- One delta cycle after the signals moved from `before` to `now`. -/
def delta (processes : List (Process S)) (before now : S) : S :=
  processes.foldl (fun pending p => if p.wakes before now then p.drive now pending else pending) now

def deltas (processes : List (Process S)) : ℕ → S → S → S
  | 0, _, now => now
  | n + 1, before, now => deltas processes n now (delta processes before now)

/-- Every process runs once before the first delta cycle. -/
def powerUp (processes : List (Process S)) (now : S) : S :=
  processes.foldl (fun pending p => p.drive now pending) now

def Quiet (processes : List (Process S)) (before now : S) : Prop :=
  ∀ p ∈ processes, p.wakes before now = false

variable {processes : List (Process S)} {before now : S}

theorem Process.on_wakes [DecidableEq A] {sensed : S → A} {drive : S → S → S}
    (same : sensed before = sensed now) : (Process.on sensed drive).wakes before now = false := by
  simp [on, same]

theorem delta_frame (read : S → A)
    (kept : ∀ p ∈ processes, p.wakes before now = true → ∀ pending,
      read (p.drive now pending) = read pending) :
    read (delta processes before now) = read now := by
  have fold (pending : S) : read (processes.foldl
      (fun pending p => if p.wakes before now then p.drive now pending else pending) pending) =
      read pending := by
    induction processes generalizing pending with
    | nil => rfl
    | cons p rest ih =>
      rw [List.foldl_cons, ih fun p member => kept p (List.mem_cons_of_mem _ member)]
      split
      · next awake => exact kept p List.mem_cons_self awake pending
      · rfl
  exact fold now

theorem powerUp_frame (read : S → A)
    (kept : ∀ p ∈ processes, ∀ pending, read (p.drive now pending) = read pending) :
    read (powerUp processes now) = read now := by
  have fold (pending : S) : read (processes.foldl (fun pending p => p.drive now pending) pending) =
      read pending := by
    induction processes generalizing pending with
    | nil => rfl
    | cons p rest ih =>
      rw [List.foldl_cons, ih fun p member => kept p (List.mem_cons_of_mem _ member)]
      exact kept p List.mem_cons_self pending
  exact fold now

theorem delta_quiet (quiet : Quiet processes before now) : delta processes before now = now :=
  delta_frame id fun p member awake => absurd awake (by simp [quiet p member])

theorem deltas_quiet (still : ∀ s, Quiet processes s s) (quiet : Quiet processes before now) (n : ℕ) :
    deltas processes n before now = now := by
  induction n generalizing before with
  | zero => rfl
  | succ n ih =>
    rw [deltas, delta_quiet quiet]
    exact ih (still now)

end PathAccelerator.Semantics
