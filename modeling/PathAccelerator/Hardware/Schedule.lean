import PathAccelerator.Hardware.Accelerator
import Mathlib.Tactic.Ring

/-! The controller's timetable.

A stage names one cycle of a run by state, round and scan position. From the last
reset edge on the controller walks through the stages whatever the data are, so
invariants of the data path can be stated stage by stage.
-/

set_option autoImplicit false

namespace PathAccelerator.Hardware

open Semantics

/-- The cycles of a run. `firstDone` is the cycle in which `done` is first shown. -/
inductive Stage where
  | mapInit (row : ℕ)
  | dsnInit
  | minCost2 (round : ℕ)
  | minCost1 (round : ℕ)
  | minCost (round position : ℕ)
  | updMinc (round : ℕ)
  | updDist (round : ℕ)
  | firstDone
  | done
  deriving DecidableEq

namespace Stage

def state : Stage → State
  | .mapInit _ => .mapInit
  | .dsnInit => .dsnInit
  | .minCost2 _ => .minCost2
  | .minCost1 _ => .minCost1
  | .minCost _ _ => .minCost
  | .updMinc _ => .updMinc
  | .updDist _ => .updDist
  | .firstDone => .done
  | .done => .done

def stateReg : Stage → State
  | .mapInit _ => .mapInit
  | .dsnInit => .mapInit
  | .minCost2 0 => .dsnInit
  | .minCost2 (_ + 1) => .updDist
  | .minCost1 _ => .minCost2
  | .minCost _ 0 => .minCost1
  | .minCost _ (_ + 1) => .minCost
  | .updMinc _ => .minCost
  | .updDist _ => .updMinc
  | .firstDone => .minCost2
  | .done => .done

/-- What the distance and neighbor processes do on the edge that ends a stage. -/
inductive Landing where
  | nothing | initial | relaxation
  deriving DecidableEq

def landing : Stage → Landing
  | .minCost1 0 => .initial
  | .minCost1 (_ + 1) => .relaxation
  | .firstDone => .relaxation
  | _ => .nothing

/-- The value of `counter`; in dsn_init it holds the start node instead. -/
def counter (N : ℕ) : Stage → Option ℕ
  | .mapInit row => some row
  | .dsnInit => none
  | .minCost2 k | .minCost1 k | .minCost k _ | .updMinc k | .updDist k => some k
  | .firstDone | .done => some (N - 1)

def subCounter : Stage → ℕ
  | .minCost _ position => position
  | _ => 0

def next (N : ℕ) : Stage → Stage
  | .mapInit row => if row + 1 = N then .dsnInit else .mapInit (row + 1)
  | .dsnInit => .minCost2 0
  | .minCost2 k => if k + 1 = N then .firstDone else .minCost1 k
  | .minCost1 k => .minCost k 0
  | .minCost k j => if j + 1 = N / 4 then .updMinc k else .minCost k (j + 1)
  | .updMinc k => .updDist k
  | .updDist k => .minCost2 (k + 1)
  | .firstDone => .done
  | .done => .done

def Valid (N : ℕ) : Stage → Prop
  | .mapInit row => row < N
  | .dsnInit => True
  | .minCost2 k => k < N
  | .minCost1 k | .updMinc k | .updDist k => k + 1 < N
  | .minCost k j => k + 1 < N ∧ j < N / 4
  | .firstDone | .done => True

theorem next_opening {N : ℕ} (large : 4 ≤ N) : (Stage.minCost2 0).next N = .minCost1 0 :=
  if_neg (by omega)

theorem Valid.next {N : ℕ} (large : 4 ≤ N) {stage : Stage} (valid : stage.Valid N) :
    (stage.next N).Valid N := by
  cases stage <;> simp only [Stage.next] <;> (try split) <;> simp only [Valid] at valid ⊢ <;> omega

theorem stateReg_next (N : ℕ) (stage : Stage) : (stage.next N).stateReg = stage.state := by
  cases stage <;> simp only [Stage.next] <;> (try split) <;> rfl

/-- `state_reg_reg` is a one-clock delay of `state_reg`, so an edge lands the
initial load or a relaxation two clocks after dsn_init or upd_dist. -/
theorem landing_next {N : ℕ} (large : 4 ≤ N) (stage : Stage) :
    (stage.stateReg = .dsnInit ↔ (stage.next N).landing = .initial) ∧
      (stage.stateReg = .updDist ↔ (stage.next N).landing = .relaxation) := by
  cases stage with
  | minCost2 k =>
    cases k with
    | zero => simp [next_opening large, stateReg, landing]
    | succ k => simp only [Stage.next]; split <;> simp [stateReg, landing]
  | minCost k j =>
    simp only [Stage.next]
    split <;> cases j <;> simp [stateReg, landing]
  | _ => simp only [Stage.next]; (try split) <;> simp [stateReg, landing]

end Stage

structure Control {N : ℕ} (stage : Stage) (r : Registers N) : Prop where
  valid : stage.Valid N
  state : r.state = stage.state
  stateReg : r.stateReg = stage.stateReg
  initial : r.stateRegReg = .dsnInit ↔ stage.landing = .initial
  relaxation : r.stateRegReg = .updDist ↔ stage.landing = .relaxation
  counter : ∀ value, stage.counter N = some value → r.counter = value
  subCounter : r.subCounter = stage.subCounter

variable {N : ℕ} {w : RoadMap} {wires : Wires N} {inputs : Inputs N} {r : Registers N}

theorem control_reset (large : 4 ≤ N) (low : inputs.reset = false) :
    Control (.mapInit 0) (r.edge wires inputs) := by
  constructor <;> simp [Registers.edge, controller, low, Stage.Valid, Stage.state,
    Stage.stateReg, Stage.landing, Stage.counter, Stage.subCounter]
  omega

theorem controller_follows {stage : Stage} (large : 4 ≤ N) (control : Control stage r)
    (start : NodeIndex) :
    (controller N true start r.state r.counter r.subCounter).1 = (stage.next N).state ∧
    (∀ value, (stage.next N).counter N = some value →
      (controller N true start r.state r.counter r.subCounter).2.1 = value) ∧
    (controller N true start r.state r.counter r.subCounter).2.2 = (stage.next N).subCounter := by
  obtain ⟨valid, state, -, -, -, counter, subCounter⟩ := control
  cases stage <;>
    simp only [Stage.state, Stage.subCounter, Stage.counter, Stage.Valid, Option.some.injEq,
      forall_eq', reduceCtorEq, false_implies, implies_true] at state counter subCounter valid <;>
    simp only [controller, state, counter, subCounter, Stage.next]
  all_goals grind [Stage.state, Stage.counter, Stage.subCounter]

/-- With reset high every edge moves the controller to the next stage, whatever is
on the wires. -/
theorem Control.edge {stage : Stage} (large : 4 ≤ N) (control : Control stage r)
    (high : inputs.reset = true) : Control (stage.next N) (r.edge wires inputs) := by
  obtain ⟨state, counter, subCounter⟩ := controller_follows large control inputs.start
  have delayed : (r.edge wires inputs).stateRegReg = stage.stateReg := by
    simpa only [Registers.edge, high, Bool.true_eq_false, if_false] using control.stateReg
  refine ⟨control.valid.next large, ?_, ?_, ?_, ?_, ?_, ?_⟩
  · simpa only [Registers.edge, high] using state
  · rw [Stage.stateReg_next]
    simpa only [Registers.edge, high, Bool.true_eq_false, if_false] using control.state
  · rw [delayed]
    exact (Stage.landing_next large stage).1
  · rw [delayed]
    exact (Stage.landing_next large stage).2
  · simpa only [Registers.edge, high] using counter
  · simpa only [Registers.edge, high] using subCounter

theorem run_control (large : 4 ≤ N) (w : RoadMap) {inputs : ℕ → Inputs N} (initial : Registers N)
    {T c : ℕ} (released : Released inputs T c) :
    Control ((Stage.next N)^[c] (.mapInit 0)) (run w inputs initial (T + 1 + c)) :=
  trajectory_follows Control (control_reset large released.low) c fun t above below _ _ control =>
    control.edge large (released.high t above below)

/-! ## Closed form of the timetable -/

namespace Stage

/-- The stage of cycle `c`, counted from the first cycle after the last reset edge. -/
def atCycle (N c : ℕ) : Stage := (Stage.next N)^[c] (.mapInit 0)

/-- Clocks from one min_cost2 to the next. -/
def period (N : ℕ) : ℕ := N / 4 + 4

/-- Cycle of the min_cost2 that opens round `k`. -/
def roundStart (N k : ℕ) : ℕ := N + 1 + k * period N

/-- Cycle in which `done` is first shown. -/
def doneCycle (N : ℕ) : ℕ := N + 2 + (N - 1) * period N

theorem atCycle_succ (N c : ℕ) : atCycle N (c + 1) = (atCycle N c).next N :=
  Function.iterate_succ_apply' _ _ _

theorem atCycle_add (N c d : ℕ) : atCycle N (c + d) = (Stage.next N)^[d] (atCycle N c) := by
  rw [atCycle, Nat.add_comm, Function.iterate_add_apply]
  rfl

theorem atCycle_mapInit {N row : ℕ} (bound : row < N) : atCycle N row = .mapInit row := by
  induction row with
  | zero => rfl
  | succ row ih =>
    rw [atCycle_succ, ih (by omega), Stage.next, if_neg (by omega)]

theorem atCycle_dsnInit {N : ℕ} (positive : 0 < N) : atCycle N N = .dsnInit := by
  obtain ⟨last, rfl⟩ : ∃ last, N = last + 1 := ⟨N - 1, by omega⟩
  rw [atCycle_succ, atCycle_mapInit (by omega), Stage.next, if_pos rfl]

variable {N k : ℕ}

theorem next_scan (j : ℕ) (bound : j < N / 4) : (Stage.next N)^[j] (.minCost k 0) = .minCost k j := by
  induction j with
  | zero => rfl
  | succ j ih =>
    rw [Function.iterate_succ_apply', ih (by omega), Stage.next, if_neg (by omega)]

theorem next_round (large : 4 ≤ N) (more : k + 1 < N) :
    (Stage.next N)^[1] (.minCost2 k) = .minCost1 k ∧
    (∀ j < N / 4, (Stage.next N)^[2 + j] (.minCost2 k) = .minCost k j) ∧
    (Stage.next N)^[2 + N / 4] (.minCost2 k) = .updMinc k ∧
    (Stage.next N)^[3 + N / 4] (.minCost2 k) = .updDist k ∧
    (Stage.next N)^[period N] (.minCost2 k) = .minCost2 (k + 1) := by
  have first : (Stage.next N)^[1] (.minCost2 k) = .minCost1 k := if_neg (by omega)
  have second : (Stage.next N)^[2] (.minCost2 k) = .minCost k 0 := by
    rw [Function.iterate_succ_apply', first, Stage.next]
  have scans (j : ℕ) (bound : j < N / 4) : (Stage.next N)^[2 + j] (.minCost2 k) = .minCost k j := by
    rw [Nat.add_comm, Function.iterate_add_apply, second, next_scan j bound]
  have marked : (Stage.next N)^[2 + N / 4] (.minCost2 k) = .updMinc k := by
    obtain ⟨last, size⟩ : ∃ last, N / 4 = last + 1 := ⟨N / 4 - 1, by omega⟩
    rw [size, ← Nat.add_assoc, Function.iterate_succ_apply', scans last (by omega), Stage.next,
      if_pos size.symm]
  have relaxed : (Stage.next N)^[3 + N / 4] (.minCost2 k) = .updDist k := by
    have later : 3 + N / 4 = (2 + N / 4) + 1 := by omega
    rw [later, Function.iterate_succ_apply', marked, Stage.next]
  have last : N / 4 + 4 = (3 + N / 4) + 1 := by omega
  refine ⟨first, scans, marked, relaxed, ?_⟩
  rw [period, last, Function.iterate_succ_apply', relaxed, Stage.next]

theorem atCycle_roundStart (large : 4 ≤ N) (bound : k < N) :
    atCycle N (roundStart N k) = .minCost2 k := by
  induction k with
  | zero =>
    rw [roundStart, Nat.zero_mul, Nat.add_zero, atCycle_succ, atCycle_dsnInit (by omega), Stage.next]
  | succ k ih =>
    rw [roundStart, Nat.succ_mul, ← Nat.add_assoc, ← roundStart, atCycle_add, ih (by omega)]
    exact (next_round large (by omega)).2.2.2.2

theorem doneCycle_eq (N : ℕ) : doneCycle N = roundStart N (N - 1) + 1 := by
  unfold doneCycle roundStart
  omega

theorem atCycle_doneCycle (large : 4 ≤ N) : atCycle N (doneCycle N) = .firstDone := by
  rw [doneCycle_eq, atCycle_succ, atCycle_roundStart large (by omega), Stage.next,
    if_pos (by omega)]

theorem atCycle_done (large : 4 ≤ N) {c : ℕ} (late : doneCycle N < c) : atCycle N c = .done := by
  induction c, late using Nat.le_induction with
  | base => rw [atCycle_succ, atCycle_doneCycle large, Stage.next]
  | succ c _ ih => rw [atCycle_succ, ih, Stage.next]

/-- Every cycle before `doneCycle` is a row of map_init, dsn_init, an offset into
a round or the last min_cost2. -/
theorem cycle_cases (large : 4 ≤ N) {c : ℕ} (early : c < doneCycle N) :
    c < N ∨ c = N ∨ (∃ k p, k + 1 < N ∧ p < period N ∧ c = roundStart N k + p) ∨
      c = roundStart N (N - 1) := by
  by_cases loading : c ≤ N
  · omega
  obtain ⟨d, rfl⟩ : ∃ d, c = N + 1 + d := ⟨c - (N + 1), by omega⟩
  have positive : 0 < period N := by unfold period; omega
  have split := Nat.div_add_mod d (period N)
  have rest := Nat.mod_lt d positive
  by_cases inside : d / period N + 1 < N
  · refine .inr (.inr (.inl ⟨d / period N, d % period N, inside, rest, ?_⟩))
    rw [roundStart, Nat.mul_comm (d / period N)]
    omega
  · have below : (N - 1) * period N ≤ d := by
      rw [← Nat.le_div_iff_mul_le positive]
      omega
    unfold doneCycle at early
    unfold roundStart
    omega

theorem atCycle_inRound (large : 4 ≤ N) (more : k + 1 < N) (p : ℕ) :
    atCycle N (roundStart N k + p) = (Stage.next N)^[p] (.minCost2 k) := by
  rw [atCycle_add, atCycle_roundStart large (by omega)]

theorem inRound_lt_doneCycle (more : k + 1 < N) {p : ℕ} (inside : p < period N) :
    roundStart N k + p < doneCycle N := by
  have whole : (k + 1) * period N ≤ (N - 1) * period N := Nat.mul_le_mul_right _ (by omega)
  rw [Nat.succ_mul] at whole
  unfold doneCycle roundStart
  omega

theorem next_round_running (large : 4 ≤ N) (more : k + 1 < N) {p : ℕ} (inside : p < period N) :
    ((Stage.next N)^[p] (.minCost2 k)).state ≠ .done := by
  obtain ⟨first, scans, marked, relaxed, _⟩ := next_round large more
  unfold period at inside
  by_cases opening : p = 0
  · subst opening; simp [state]
  by_cases second : p = 1
  · rw [second, first]; simp [state]
  by_cases scanning : p < 2 + N / 4
  · obtain ⟨j, rfl⟩ : ∃ j, p = 2 + j := ⟨p - 2, by omega⟩
    rw [scans j (by omega)]; simp [state]
  by_cases marking : p = 2 + N / 4
  · rw [marking, marked]; simp [state]
  · have relaxing : p = 3 + N / 4 := by omega
    rw [relaxing, relaxed]; simp [state]

theorem atCycle_running (large : 4 ≤ N) {c : ℕ} (early : c < doneCycle N) :
    (atCycle N c).state ≠ .done := by
  rcases cycle_cases large early with row | rfl | ⟨k, p, more, inside, rfl⟩ | rfl
  · rw [atCycle_mapInit row]; simp [state]
  · rw [atCycle_dsnInit (by omega)]; simp [state]
  · rw [atCycle_inRound large more]
    exact next_round_running large more inside
  · rw [atCycle_roundStart large (by omega)]; simp [state]

theorem atCycle_finished (large : 4 ≤ N) {c : ℕ} (late : doneCycle N ≤ c) :
    (atCycle N c).state = .done := by
  rcases Nat.eq_or_lt_of_le late with rfl | later
  · rw [atCycle_doneCycle large]; rfl
  · rw [atCycle_done large later]; rfl

end Stage

theorem run_scan (large : 4 ≤ N) (w : RoadMap) {inputs : ℕ → Inputs N} (initial : Registers N)
    {T c k j : ℕ} (released : Released inputs T c) (more : k + 1 < N) (inside : j < N / 4)
    (le : Stage.roundStart N k + (2 + j) ≤ c) :
    Control (.minCost k j) (run w inputs initial (T + 1 + (Stage.roundStart N k + (2 + j)))) := by
  have control := run_control large w initial (released.mono le)
  rw [← Stage.atCycle, Stage.atCycle_inRound large more, (Stage.next_round large more).2.1 j inside]
    at control
  exact control

/-- Every run finishes after a number of clocks fixed by the node count, through
the same states whatever the map and the start port carry. -/
theorem run_schedule (large : 4 ≤ N) (w : RoadMap) (inputs : ℕ → Inputs N) (initial : Registers N)
    (T c : ℕ) (released : Released inputs T c) :
    let r := run w inputs initial (T + 1 + c)
    (c < N → r.state = .mapInit ∧ r.counter = c) ∧
    (c = N → r.state = .dsnInit) ∧
    (∀ k, k + 1 < N →
      (c = N + 1 + k * (N / 4 + 4) → r.state = .minCost2) ∧
      (c = N + 1 + k * (N / 4 + 4) + 1 → r.state = .minCost1) ∧
      (∀ j < N / 4, c = N + 1 + k * (N / 4 + 4) + 2 + j → r.state = .minCost ∧ r.subCounter = j) ∧
      (c = N + 1 + k * (N / 4 + 4) + 2 + N / 4 → r.state = .updMinc) ∧
      (c = N + 1 + k * (N / 4 + 4) + 3 + N / 4 → r.state = .updDist)) ∧
    (c = N + 1 + (N - 1) * (N / 4 + 4) → r.state = .minCost2) ∧
    (c < N + 2 + (N - 1) * (N / 4 + 4) → r.state ≠ .done) ∧
    (N + 2 + (N - 1) * (N / 4 + 4) ≤ c → r.state = .done) := by
  intro r
  have control : Control (Stage.atCycle N c) r := run_control large w initial released
  have shows {stage : Stage} (now : Stage.atCycle N c = stage) : Control stage r := now ▸ control
  refine ⟨fun row => ?_, fun row => ?_, fun k more => ?_, fun last => ?_, fun early => ?_,
    fun late => ?_⟩
  · have row := shows (Stage.atCycle_mapInit row)
    exact ⟨row.state, row.counter c rfl⟩
  · exact (shows ((congrArg _ row).trans (Stage.atCycle_dsnInit (by omega)))).state
  · have inRound (p : ℕ) (same : c = Stage.roundStart N k + p) :
        Stage.atCycle N c = (Stage.next N)^[p] (.minCost2 k) :=
      same ▸ Stage.atCycle_inRound large more p
    obtain ⟨first, scans, marked, relaxed, _⟩ := Stage.next_round large more
    refine ⟨fun same => (shows (inRound 0 same)).state,
      fun same => (shows ((inRound 1 same).trans first)).state, fun j bound same => ?_,
      fun same => (shows ((inRound _ (same.trans (Nat.add_assoc _ _ _))).trans marked)).state,
      fun same => (shows ((inRound _ (same.trans (Nat.add_assoc _ _ _))).trans relaxed)).state⟩
    have scan := shows ((inRound _ (same.trans (Nat.add_assoc _ _ _))).trans (scans j bound))
    exact ⟨scan.state, scan.subCounter⟩
  · have last' : c = Stage.roundStart N (N - 1) := last
    exact (shows (last' ▸ Stage.atCycle_roundStart large (by omega))).state
  · rw [control.state]
    exact Stage.atCycle_running large early
  · rw [control.state]
    exact Stage.atCycle_finished large late

theorem run_schedule_done :
    (run mapInitializationVhdl (resetPulse 1) (default : Registers 4) (0 + 1 + 21)).state = .done :=
  (run_schedule (by decide) mapInitializationVhdl (resetPulse 1) default 0 21
    (resetPulse_released 1 21)).2.2.2.2.2 (by decide)

end PathAccelerator.Hardware
