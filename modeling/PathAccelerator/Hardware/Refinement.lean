import PathAccelerator.Hardware.Rounds

/-! Whole runs of the accelerator: the tables they show, cycle by cycle.

A run is taken from arbitrary registers. What it shows from its first min_cost
cycle on is a function of the cycle, the map and the start node.
-/

set_option autoImplicit false

namespace PathAccelerator.Hardware

open PathAccelerator.Graph Algorithm Semantics

variable {N : ℕ} [NeZero N] {w : RoadMap} {s : Fin N}

namespace Stage

/-- The stages from the first min_cost cycle of a run on. -/
def Running : Stage → Prop
  | .mapInit _ | .dsnInit | .minCost2 0 | .minCost1 0 => False
  | _ => True

def shown (w : RoadMap) (s : Fin N) : Stage → Table (Fin N) ℕ
  | .minCost k _ | .updMinc k => swept w s k
  | .updDist k | .minCost2 (k + 1) | .minCost1 (k + 1) => sweptMarked w s k
  | .firstDone => sweptMarked w s (N - 2)
  | .done => swept w s (N - 1)
  | .mapInit _ | .dsnInit | .minCost2 0 | .minCost1 0 => initial w s

theorem shown_cases {stage : Stage} (large : 4 ≤ N) (valid : stage.Valid N)
    (running : stage.Running) (w : RoadMap) (s : Fin N) :
    ∃ k ≤ N - 1, stage.shown w s = swept w s k ∨ stage.shown w s = sweptMarked w s k := by
  cases stage with
  | mapInit => exact running.elim
  | dsnInit => exact running.elim
  | minCost2 k =>
    simp only [Valid] at valid
    cases k with
    | zero => exact running.elim
    | succ k => exact ⟨k, by omega, .inr rfl⟩
  | minCost1 k =>
    simp only [Valid] at valid
    cases k with
    | zero => exact running.elim
    | succ k => exact ⟨k, by omega, .inr rfl⟩
  | minCost k j =>
    simp only [Valid] at valid
    exact ⟨k, by omega, .inl rfl⟩
  | updMinc k =>
    simp only [Valid] at valid
    exact ⟨k, by omega, .inl rfl⟩
  | updDist k =>
    simp only [Valid] at valid
    exact ⟨k, by omega, .inr rfl⟩
  | firstDone => exact ⟨N - 2, by omega, .inr rfl⟩
  | done => exact ⟨N - 1, le_rfl, .inl rfl⟩

omit [NeZero N] in
theorem Running.next {stage : Stage} (running : stage.Running) : (stage.next N).Running := by
  cases stage with
  | mapInit => exact running.elim
  | dsnInit => exact running.elim
  | minCost2 k =>
    cases k with
    | zero => exact running.elim
    | succ k => simp only [Stage.next]; split <;> trivial
  | minCost1 k => trivial
  | minCost k j => simp only [Stage.next]; split <;> trivial
  | _ => trivial

omit [NeZero N] in
theorem running_of_le {c d : ℕ} (le : d ≤ c) (running : (atCycle N d).Running) :
    (atCycle N c).Running := by
  induction c, le using Nat.le_induction with
  | base => exact running
  | succ c _ ih =>
    rw [atCycle_succ]
    exact ih.next

omit [NeZero N] in
theorem atCycle_firstScan (large : 4 ≤ N) : atCycle N (N + 3) = .minCost 0 0 := by
  have := (next_round (k := 0) large (by omega)).2.1 0 (by omega)
  rw [← atCycle_inRound large (by omega)] at this
  rw [← this, roundStart]
  congr 1
  omega

end Stage

theorem Holds.shows {r : Registers N} {stage : Stage} (holds : Holds w s r stage)
    (running : stage.Running) : Shows r (stage.shown w s) := by
  cases stage with
  | mapInit => exact running.elim
  | dsnInit => exact running.elim
  | minCost2 k =>
    cases k with
    | zero => exact running.elim
    | succ k => exact holds.2.1
  | minCost1 k =>
    cases k with
    | zero => exact running.elim
    | succ k => exact holds.2.1
  | minCost k j => exact holds.2.1
  | updMinc k => exact holds.2.1
  | updDist k => exact holds.2.1
  | firstDone => exact holds.1
  | done => exact holds

/-- From the last reset edge on, the registers hold what the timetable says. -/
theorem run_holds (large : 4 ≤ N) (small : N ≤ 512) (w : RoadMap) {inputs : ℕ → Inputs N}
    (initial : Registers N) {T c : ℕ} (released : Released inputs T c)
    (held : StartHeld inputs T c s) :
    Control (Stage.atCycle N c) (run w inputs initial (T + 1 + c)) ∧
      Holds w s (run w inputs initial (T + 1 + c)) (Stage.atCycle N c) :=
  have start : Control (.mapInit 0) (run w inputs initial (T + 1)) ∧
      Holds w s (run w inputs initial (T + 1)) (.mapInit 0) :=
    ⟨control_reset large released.low, fun _ _ below => absurd below (Nat.not_lt_zero _)⟩
  trajectory_follows (fun stage r => Control stage r ∧ Holds w s r stage) start c
    fun t above below _ _ ⟨control, holds⟩ =>
      ⟨control.edge large (released.high t above below),
        holds.edge large small control (released.high t above below) (held t above below)⟩

theorem run_loaded (large : 4 ≤ N) (small : N ≤ 512) {inputs : ℕ → Inputs N}
    {initial : Registers N} {T : ℕ} (released : Released inputs T N)
    (held : StartHeld inputs T N s) : Loaded w (run w inputs initial (T + 1 + N)) := by
  have holds := (run_holds large small w initial released held).2
  rw [Stage.atCycle_dsnInit (by omega)] at holds
  exact holds.1

theorem run_shows (large : 4 ≤ N) (small : N ≤ 512) (w : RoadMap) {inputs : ℕ → Inputs N}
    (initial : Registers N) {T c : ℕ} (released : Released inputs T c)
    (held : StartHeld inputs T c s) (running : (Stage.atCycle N c).Running) :
    Shows (run w inputs initial (T + 1 + c)) ((Stage.atCycle N c).shown w s) :=
  (run_holds large small w initial released held).2.shows running

/-- With four full windows the rounds of the accelerator are those of the algorithm. -/
theorem swept_eq (quarters : 4 ∣ N) (w : RoadMap) (s : Fin N) (k : ℕ) :
    swept w s k = sequential w s k := by
  rw [swept, sweep_eq_select quarters, sequential]

/-- `done` was shown in some cycle before cycle `c` after reset edge `T`. -/
def DoneBefore (w : RoadMap) (inputs : ℕ → Inputs N) (initial : Registers N) (T c : ℕ) : Prop :=
  ∃ d < c, (run w inputs initial (T + 1 + d)).state = .done

omit [NeZero N] in
theorem run_state (large : 4 ≤ N) {inputs : ℕ → Inputs N} {initial : Registers N} {T c d : ℕ}
    (released : Released inputs T c) (le : d ≤ c) :
    (run w inputs initial (T + 1 + d)).state = (Stage.atCycle N d).state :=
  (run_control large w initial (released.mono le)).state

omit [NeZero N] in
theorem running_of_scanning (large : 4 ≤ N) {inputs : ℕ → Inputs N} {initial : Registers N}
    {T c : ℕ} (released : Released inputs T c)
    (scanning : ∃ d ≤ c, (run w inputs initial (T + 1 + d)).state = .minCost) :
    (Stage.atCycle N c).Running := by
  obtain ⟨d, le, scanning⟩ := scanning
  apply Stage.running_of_le le
  rw [run_state large released le] at scanning
  cases stage : Stage.atCycle N d <;> rw [stage] at scanning <;> trivial

omit [NeZero N] in
theorem doneBefore_iff (large : 4 ≤ N) {inputs : ℕ → Inputs N} {initial : Registers N} {T c : ℕ}
    (released : Released inputs T c) :
    DoneBefore w inputs initial T c ↔ Stage.doneCycle N < c := by
  constructor
  · rintro ⟨d, earlier, done⟩
    by_contra running
    rw [run_state large released (by omega)] at done
    exact Stage.atCycle_running large (by omega) done
  · intro late
    exact ⟨Stage.doneCycle N, late,
      (run_state large released (by omega)).trans (Stage.atCycle_finished large le_rfl)⟩

theorem run_shows_final (large : 4 ≤ N) (small : N ≤ 512) {inputs : ℕ → Inputs N}
    {initial : Registers N} {T c : ℕ} (released : Released inputs T c)
    (held : StartHeld inputs T c s) (done : DoneBefore w inputs initial T c) :
    Shows (run w inputs initial (T + 1 + c)) (swept w s (N - 1)) := by
  have stage := Stage.atCycle_done large ((doneBefore_iff large released).mp done)
  have shows := run_shows large small w initial released held (stage ▸ trivial)
  rwa [stage] at shows

/-- The accelerator refines the sequential algorithm round by round. -/
theorem run_refines (quarters : 4 ∣ N) (large : 4 ≤ N) (small : N ≤ 512) (w : RoadMap) (s : Fin N)
    (inputs : ℕ → Inputs N) (initial : Registers N) (T c : ℕ) (released : Released inputs T c)
    (held : StartHeld inputs T c s) :
    let r := run w inputs initial (T + 1 + c)
    (∀ k, k + 1 < N → c = N + 3 + k * (N / 4 + 4) →
      r.state = .minCost ∧ r.counter = k ∧ r.subCounter = 0) ∧
    (r.state = .minCost → r.subCounter = 0 → Shows r (sequential w s r.counter)) ∧
    (DoneBefore w inputs initial T c → Shows r (sequential w s (N - 1))) := by
  intro r
  have control : Control (Stage.atCycle N c) r := run_control large w initial released
  refine ⟨fun k more same => ?_, fun state position => ?_, fun done => ?_⟩
  · have stage : Stage.atCycle N c = .minCost k 0 := by
      rw [← (Stage.next_round large more).2.1 0 (by omega), ← Stage.atCycle_inRound large more, same]
      congr 1
      unfold Stage.roundStart Stage.period
      omega
    rw [stage] at control
    exact ⟨control.state, control.counter k rfl, control.subCounter⟩
  · have shows : (Stage.atCycle N c).Running → Shows r ((Stage.atCycle N c).shown w s) :=
      run_shows large small w initial released held
    rw [control.state] at state
    cases stage : Stage.atCycle N c with
    | minCost k j =>
      rw [stage] at shows control
      rw [← swept_eq quarters, control.counter k rfl]
      exact shows trivial
    | _ => rw [stage] at state; cases state
  · rw [← swept_eq quarters]
    exact run_shows_final large small released held done

theorem run_refines_four :
    Shows (run mapInitializationVhdl (resetPulse 1) (default : Registers 4) (0 + 1 + 22))
      (sequential mapInitializationVhdl 1 3) :=
  (run_refines (N := 4) (dvd_refl 4) le_rfl (by omega) mapInitializationVhdl 1 (resetPulse 1)
    default 0 22 (resetPulse_released 1 22) (resetPulse_startHeld rfl 22)).2.2
    ((doneBefore_iff le_rfl (resetPulse_released 1 22)).mpr (by decide))

/-- What a run shows depends on the map and the start node only: not on the
registers it starts from, nor on how undefined values are resolved. -/
theorem run_independent (large : 4 ≤ N) (small : N ≤ 512) (w : RoadMap) (s : Fin N)
    (inputs inputs' : ℕ → Inputs N) (initial initial' : Registers N) (T T' c : ℕ)
    (released : Released inputs T c) (released' : Released inputs' T' c)
    (held : StartHeld inputs T c s) (held' : StartHeld inputs' T' c s) :
    let r := run w inputs initial (T + 1 + c)
    let r' := run w inputs' initial' (T' + 1 + c)
    r.stateOut = r'.stateOut ∧
    ((∃ d ≤ c, (run w inputs initial (T + 1 + d)).state = .minCost) →
      r.distance = r'.distance ∧ r.neighbor = r'.neighbor ∧ r.shortest = r'.shortest) := by
  intro r r'
  have control : Control (Stage.atCycle N c) r := run_control large w initial released
  have control' : Control (Stage.atCycle N c) r' := run_control large w initial' released'
  refine ⟨by rw [Registers.stateOut, Registers.stateOut, control.state, control'.state], ?_⟩
  intro scanning
  have running := running_of_scanning large released scanning
  have shows : Shows r _ := run_shows large small w initial released held running
  have shows' : Shows r' _ := run_shows large small w initial' released' held' running
  exact shows.unique shows'

theorem run_independent_restart :
    (run mapInitializationVhdl (resetPulse 1) (default : Registers 4) (0 + 1 + 7)).distance =
      (run mapInitializationVhdl (resetPulse 1)
        (run mapInitializationVhdl (resetPulse 2) (default : Registers 4) 9) (0 + 1 + 7)).distance :=
  ((run_independent (N := 4) le_rfl (by omega) mapInitializationVhdl 1 (resetPulse 1)
    (resetPulse 1) default (run mapInitializationVhdl (resetPulse 2) default 9) 0 0 7
    (resetPulse_released 1 7) (resetPulse_released 1 7) (resetPulse_startHeld rfl 7)
    (resetPulse_startHeld rfl 7)).2
    ⟨7, le_rfl, (run_state (by decide) (resetPulse_released 1 7) le_rfl).trans
      (congrArg Stage.state (Stage.atCycle_firstScan (N := 4) (by decide)))⟩).1

end PathAccelerator.Hardware
