import PathAccelerator.Host.Handshake
import PathAccelerator.Semantics.Levels

/-! The checks of a call, and how long it takes.

The bus may idle between two accesses, but not for a whole window of clocks. Each access
then brings the program on, but for the polls that come before the end of the run.
-/

set_option autoImplicit false

namespace PathAccelerator.Host

open Hardware Semantics

variable {N : ℕ}

/-! ## Checks -/

/-- What a check compares the value that it reads with. -/
def Pc.expects (s : ℕ) : Pc → Option ℕ
  | .checkStart => some s
  | .checkClkNios | .checkTransCount | .checkResetLow => some 0
  | .checkResetHigh => some 1
  | _ => none

/-- `temp != value`, after which an error is reported. -/
def Pc.fails (s : ℕ) (temp : BitVec 16) (pc : Pc) : Bool :=
  match pc.expects s with
  | some value => temp.toNat != value
  | none => false

theorem Programmed.expects {s value : ℕ} {p : Program N} {c : VgaNiosCtrl} {access : Access}
    (programmed : Programmed s p c) (next : p.access s = some access)
    (expected : p.pc.expects s = some value) (state : BitVec 3) (outputs : Outputs) :
    (c.perform state outputs access).readdata = BitVec.ofNat 16 value := by
  unfold Program.access at next
  cases point : p.pc <;> rw [point] at next expected <;> cases next <;> cases expected
  case checkStart => exact programmed.start (by rw [point]; decide)
  case checkClkNios => exact programmed.clkNios 0 (by rw [point]; rfl)
  case checkTransCount => exact programmed.transCount 0 (by rw [Program.transCount16, point])
  case checkResetLow => exact programmed.reset 0 (by rw [point]; rfl)
  case checkResetHigh => exact programmed.reset 1 (by rw [point]; rfl)

/-- No check of a call fails, whatever the registers held before, however the bus delays the
accesses and in whatever state the accelerator is. -/
theorem checks_pass (small : N ≤ 512) (w : RoadMap) (s : Fin N) (ticks : ℕ → Tick N)
    (initial : System N) (begins : initial.program.pc = .setStart) (t : ℕ)
    (go : (ticks t).go = true) :
    (session w s ticks initial t).program.pc.fails s
      (session w s ticks initial (t + 1)).slave.readdata = false := by
  unfold Pc.fails
  cases expected : (session w s ticks initial t).program.pc.expects s with
  | none => rfl
  | some value =>
    -- What a check expects has been written before, and the register holds all of it.
    have more : (session w s ticks initial t).program.pc ≠ .finished := by
      intro finished
      rw [finished] at expected
      cases expected
    obtain ⟨access, next⟩ := Program.access_of_running s.val more
    have read := (session_programmed w s ticks begins t).expects next expected
      (BitVec.ofNat 3 (session w s ticks initial (t + 1)).core.stateOut)
      (session w s ticks initial t).outputs
    have fits : value < 2 ^ 16 := by
      cases point : (session w s ticks initial t).program.pc <;> rw [point] at expected <;>
        cases expected <;> omega
    have performed : (session w s ticks initial (t + 1)).slave.readdata = BitVec.ofNat 16 value := by
      rw [session, trajectory_succ] at read ⊢
      rw [← read]
      simp [System.clock, go, next]
    simpa [performed] using fits

theorem checks_pass_four :
    let slave : VgaNiosCtrl := { (default : VgaNiosCtrl) with clkNios16 := 1, transCount16 := 4 }
    let initial : System 4 := ⟨default, ⟨0, 0⟩, slave, ⟨.setStart, 0, default, default⟩⟩
    (session mapInitializationVhdl (1 : Fin 4) (fun _ => ⟨true, default⟩) initial 2).program.pc.fails
      (1 : Fin 4) (session mapInitializationVhdl (1 : Fin 4) (fun _ => ⟨true, default⟩) initial
        (2 + 1)).slave.readdata = false := by
  intro slave initial
  exact checks_pass (by decide) mapInitializationVhdl 1 (fun _ => ⟨true, default⟩) initial rfl 2 rfl

/-! ## Duration -/

/-- The bus delivers an access in every window of clocks. -/
def Serves (ticks : ℕ → Tick N) (window : ℕ) : Prop :=
  ∀ t, ∃ t', t ≤ t' ∧ t' < t + window ∧ (ticks t').go = true

theorem finished_of_rank_le {p : Program N} (low : p.rank ≤ 3)
    (bound : p.pc = .clkHigh ∨ p.pc = .readNeighbor ∨ p.pc = .readDistance → p.transCount < N) :
    p.pc = .finished := by
  obtain ⟨pc, count, neighbor, distance⟩ := p
  cases pc
  case finished => rfl
  case clkHigh | readNeighbor | readDistance =>
    have below : count < N := bound (by simp)
    simp only [Program.rank] at low
    omega
  all_goals
    simp only [Program.rank] at low
    omega

section Rank

variable [NeZero N] {w : RoadMap} {s : Fin N} {ticks : ℕ → Tick N} {initial : System N}
  (large : 4 ≤ N) (small : N ≤ 512) (begins : initial.program.pc = .setStart)

include large small begins

theorem transCount_lt {t : ℕ} (indexed : (session w s ticks initial t).program.pc = .clkHigh ∨
    (session w s ticks initial t).program.pc = .readNeighbor ∨
    (session w s ticks initial t).program.pc = .readDistance) :
    (session w s ticks initial t).program.transCount < N := by
  have reading : (session w s ticks initial t).program.pc.Reading := by
    rcases indexed with point | point | point <;> rw [point] <;> trivial
  obtain ⟨T, c, back⟩ := session_readingBack large small begins reading
  exact back.collected.more indexed

theorem rank_succ_lt {t : ℕ} (go : (ticks t).go = true)
    (more : (session w s ticks initial t).program.pc ≠ .finished)
    (seven : (session w s ticks initial t).program.pc = .poll →
      (session w s ticks initial (t + 1)).slave.readdata = 7) :
    (session w s ticks initial (t + 1)).program.rank < (session w s ticks initial t).program.rank := by
  obtain ⟨access, next⟩ := Program.access_of_running s.val more
  have moved : (session w s ticks initial (t + 1)).program =
      (session w s ticks initial t).program.proceed
        (session w s ticks initial (t + 1)).slave.readdata := clock_go go next
  rw [moved]
  exact proceed_rank _ more seven fun reads => transCount_lt large small begins (.inr (.inr reads))

theorem rank_antitone : Antitone fun t => (session w s ticks initial t).program.rank := by
  refine antitone_nat_of_succ_le fun t => ?_
  rcases clock_cases w s (ticks t) (session w s ticks initial t) with
    ⟨_, _, same⟩ | ⟨access, go, next, _, program, _⟩
  · exact (congrArg Program.rank same).le
  -- A poll that does not read 7 is repeated; every other access brings the program on.
  · by_cases waits : (session w s ticks initial t).program.pc = .poll ∧
        (session w s ticks initial (t + 1)).slave.readdata ≠ 7
    · have stays : (session w s ticks initial (t + 1)).program =
          (session w s ticks initial t).program := by
        refine program.trans ?_
        simp only [Program.proceed, waits.1]
        exact if_neg waits.2
      exact (congrArg Program.rank stays).le
    · refine (rank_succ_lt large small begins go (fun finished => ?_) fun polls => ?_).le
      · rw [Program.access, finished] at next
        cases next
      · exact not_not.mp fun other => waits ⟨polls, other⟩

variable {window : ℕ} (serves : Serves ticks window)

include serves

theorem rank_sinks {t : ℕ} (more : 0 < (session w s ticks initial t).program.rank)
    (seven : ∀ u ≥ t, (session w s ticks initial u).program.rank =
        (session w s ticks initial t).program.rank →
      (session w s ticks initial u).program.pc = .poll → (ticks u).go = true →
      (session w s ticks initial (u + 1)).slave.readdata = 7) :
    ∃ t' ≤ t + window, (session w s ticks initial t').program.rank <
      (session w s ticks initial t).program.rank := by
  obtain ⟨u, later, before, go⟩ := serves t
  have falls : Antitone fun t => (session w s ticks initial t).program.rank :=
    rank_antitone large small begins
  -- Other accesses may come in the window before this one.
  rcases Nat.lt_or_eq_of_le (falls later) with lower | same
  · exact ⟨u, before.le, lower⟩
  · refine ⟨u + 1, before, ?_⟩
    have running : (session w s ticks initial u).program.pc ≠ .finished := by
      intro finished
      dsimp only at same
      rw [← same, Program.rank, finished] at more
      exact absurd more (Nat.lt_irrefl 0)
    have lower := rank_succ_lt large small begins go running fun polls => seven u later same polls go
    exact lower.trans_eq same

theorem pulse_within : (session w s ticks initial (10 * window)).program.rank ≤ 5 * N + 5 := by
  have first : (session w s ticks initial 0).program.rank = 5 * N + 15 := by
    rw [session, trajectory_zero, Program.rank, begins]
  have falls : Antitone fun t => (session w s ticks initial t).program.rank :=
    rank_antitone large small begins
  have sunk := rank_le_of_windows falls (5 * N + 5) window 0 (fun t _ above => ?_) 10
  · rw [Nat.zero_add] at sunk
    omega
  · refine rank_sinks large small begins serves (by omega) fun u _ same polls _ => ?_
    rw [← same, Program.rank, polls] at above
    exact absurd above (by simp)

theorem seven_within {u : ℕ} (late : 10 * window + Stage.doneCycle N ≤ u)
    (polls : (session w s ticks initial u).program.pc = .poll) (go : (ticks u).go = true) :
    (session w s ticks initial (u + 1)).slave.readdata = 7 := by
  obtain ⟨T, c, launch⟩ := session_launched small begins (t := u) (by rw [polls]; trivial)
  have pulse : 5 * N + 6 = (session w s ticks initial T).program.rank := by
    rw [Program.rank, launch.pulse]
  -- The start pulse ends with rank 5 N + 6, which the program has left by then.
  have early : T < 10 * window := by
    by_contra after
    have low := pulse_within large small begins (w := w) (s := s) serves
    have falls : Antitone fun t => (session w s ticks initial t).program.rank :=
      rank_antitone large small begins
    exact absurd ((pulse.trans_le (falls (not_lt.mp after))).trans low) (by omega)
  have now := launch.now
  exact poll_reads_seven large small begins polls go launch (by omega)

end Rank

end PathAccelerator.Host
