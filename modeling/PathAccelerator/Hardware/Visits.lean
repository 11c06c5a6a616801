import PathAccelerator.Algorithm.Order
import PathAccelerator.Hardware.Distances

/-! Which nodes a run goes through, and when it looks at its start port. -/

set_option autoImplicit false

namespace PathAccelerator.Hardware

open PathAccelerator.Graph Algorithm Semantics

variable {N : ℕ}

/-! ## The nodes of a run -/

/-- The cycle in which round `k` has found its node. -/
def foundAt (N k : ℕ) : ℕ := Stage.roundStart N k + (2 + N / 4)

theorem atCycle_foundAt {k : ℕ} (large : 4 ≤ N) (more : k + 1 < N) :
    Stage.atCycle N (foundAt N k) = .updMinc k := by
  rw [foundAt, Stage.atCycle_inRound large more]
  exact (Stage.next_round large more).2.2.1

theorem run_newNode [NeZero N] (quarters : 4 ∣ N) (large : 4 ≤ N) (small : N ≤ 512) (w : RoadMap)
    {s : Fin N} {inputs : ℕ → Inputs N} (initial : Registers N) {T k : ℕ} (more : k + 1 < N)
    (released : Released inputs T (foundAt N k)) (held : StartHeld inputs T (foundAt N k) s)
    (dontCare : DontCare N) :
    ((run w inputs initial (T + 1 + foundAt N k)).wires w dontCare).newNode.toNat =
      (visited w s k).val := by
  have holds := (run_holds large small w initial released held).2
  rw [atCycle_foundAt large more] at holds
  rw [newNode_eq small large dontCare holds.2.2, sweep_eq_select quarters, swept_eq quarters, visited]

/-- The first rounds of a run find the reachable nodes, each of them once and in the order of
their distances; the rounds after them find node 0. -/
theorem run_visits [NeZero N] (quarters : 4 ∣ N) (large : 4 ≤ N) (small : N ≤ 512) (w : RoadMap)
    (formed : w.WellFormed N) (s : Fin N) (near : Near w s) (inputs : ℕ → Inputs N)
    (initial : Registers N) (T : ℕ) (released : ∀ c, Released inputs T c)
    (held : ∀ c, StartHeld inputs T c s) :
    let found (k : ℕ) (v : Fin N) : Prop :=
      let r := run w inputs initial (T + 1 + foundAt N k)
      r.state = .updMinc ∧ ∀ dontCare, (r.wires w dontCare).newNode.toNat = v.val
    ∃ m, m + 1 ≤ N ∧
      (∀ v, (∃ k < m, found k v) ↔ v ≠ s ∧ Reachable (roads w) s v) ∧
      (∀ j k u v, j < k → k < m → found j u → found k v →
        u ≠ v ∧ distance (roads w) s u ≤ distance (roads w) s v) ∧
      (Shielded w s → ∀ k, m ≤ k → k + 1 < N → found k 0) := by
  intro found
  obtain ⟨m, visits, exhausted⟩ := sequential_visits formed near
  have bound := visits.bound
  have finds {k : ℕ} (more : k + 1 < N) : found k (visited w s k) := by
    refine ⟨?_, run_newNode quarters large small w initial more (released _) (held _)⟩
    rw [run_state large (released _) le_rfl, atCycle_foundAt large more]
    rfl
  -- A round finds one node, whatever the signals that are left open.
  have unique {k : ℕ} (more : k + 1 < N) {v : Fin N} (at_v : found k v) : visited w s k = v :=
    Fin.ext (((finds more).2 default).symm.trans (at_v.2 default))
  refine ⟨m, bound, fun v => ?_, fun j k u v earlier inside at_u at_v => ?_, ?_⟩
  · rw [← visits.all v]
    constructor
    · rintro ⟨k, inside, at_v⟩
      exact ⟨k, inside, unique (by omega) at_v⟩
    · rintro ⟨k, inside, rfl⟩
      exact ⟨k, inside, finds (by omega)⟩
  · rw [← unique (by omega) at_u, ← unique (by omega) at_v]
    exact visits.ordered j k earlier inside
  · intro shielded k later more
    have none : visited w s k = 0 := (exhausted shielded k later).select_eq
    exact none ▸ finds more

theorem run_visits_four :
    let found (k : ℕ) (v : Fin 4) : Prop :=
      let r := run mapInitializationVhdl (resetPulse 1) (default : Registers 4) (0 + 1 + foundAt 4 k)
      r.state = .updMinc ∧
        ∀ dontCare, (r.wires mapInitializationVhdl dontCare).newNode.toNat = v.val
    ∃ m, m + 1 ≤ 4 ∧
      ∀ v, (∃ k < m, found k v) ↔ v ≠ 1 ∧ Reachable (roads mapInitializationVhdl) 1 v := by
  intro found
  obtain ⟨m, bound, all, -⟩ := run_visits (N := 4) (dvd_refl 4) le_rfl (by decide)
    mapInitializationVhdl (mapInitializationVhdl_wellFormed 4) 1 mapInitialization_near
    (resetPulse 1) default 0 (resetPulse_released 1) (resetPulse_startHeld rfl)
  exact ⟨m, bound, all⟩

/-! ## The start port -/

section StartPort

variable {inputs inputs' : Inputs N} {r : Registers N} {stage : Stage}

def Stage.ReadsStart (N : ℕ) : Stage → Prop
  | .mapInit row => row + 1 = N
  | .minCost1 k => k = 0
  | _ => False

theorem controller_start (control : Control stage r) (quiet : ¬ stage.ReadsStart N)
    (reset : Bool) (start start' : NodeIndex) :
    controller N reset start r.state r.counter r.subCounter =
      controller N reset start' r.state r.counter r.subCounter := by
  have other : ¬ (r.state = .mapInit ∧ r.counter + 1 = N) := by
    rintro ⟨loading, last⟩
    have state := control.state
    have counter := control.counter
    rw [loading] at state
    cases stage with
    | mapInit row => exact quiet (counter row rfl ▸ last)
    | _ => cases state
  simp only [controller, other, if_false]

theorem clock_start (w : RoadMap) (control : Control stage r) (quiet : ¬ stage.ReadsStart N)
    (reset : inputs.reset = inputs'.reset)
    (dontCare : inputs.dontCare = inputs'.dontCare) : clock w inputs r = clock w inputs' r := by
  -- Only the relaxation after DSN_INIT and the controller have the port among their operands.
  have still : r.stateRegReg ≠ .dsnInit := by
    rw [ne_eq, control.initial]
    cases stage with
    | minCost1 k =>
      cases k with
      | zero => exact absurd rfl quiet
      | succ k => simp [Stage.landing]
    | _ => simp [Stage.landing]
  have controls := controller_start control quiet inputs'.reset inputs.start inputs'.start
  unfold clock Registers.edge relaxNode markNode compDist
  simp only [still, if_false, false_and, reset, dontCare, controls]

theorem readsStart_atCycle (large : 4 ≤ N) {c : ℕ} (reads : (Stage.atCycle N c).ReadsStart N) :
    c + 1 = N ∨ c = N + 2 := by
  by_cases loading : c < N
  · rw [Stage.atCycle_mapInit loading] at reads
    exact .inl reads
  -- Three clocks lie between the last row and the first round.
  by_cases early : c < N + 3
  · have opened : Stage.atCycle N (N + 1) = .minCost2 0 := by
      rw [Stage.atCycle_succ, Stage.atCycle_dsnInit (by omega), Stage.next]
    obtain rfl | rfl | rfl : c = N ∨ c = N + 1 ∨ c = N + 2 := by omega
    · rw [Stage.atCycle_dsnInit (by omega)] at reads
      exact reads.elim
    · rw [opened] at reads
      exact reads.elim
    · exact .inr rfl
  · have running : (Stage.atCycle N c).Running :=
      Stage.running_of_le (Nat.not_lt.mp early) (by rw [Stage.atCycle_firstScan large]; trivial)
    cases stage : Stage.atCycle N c with
    | mapInit row =>
      rw [stage] at running
      exact running.elim
    | minCost1 k =>
      rw [stage] at running reads
      obtain rfl : k = 0 := reads
      exact running.elim
    | _ =>
      rw [stage] at reads
      exact reads.elim

/-- After a reset the start port is read in two clocks only: two runs whose start ports
agree until the reset and in these two clocks are the same, whatever the ports carry else. -/
theorem run_start_port (large : 4 ≤ N) (w : RoadMap) (inputs inputs' : ℕ → Inputs N)
    (initial : Registers N) (T c : ℕ) (released : Released inputs T c)
    (reset : ∀ t, (inputs t).reset = (inputs' t).reset)
    (dontCare : ∀ t, (inputs t).dontCare = (inputs' t).dontCare)
    (before : ∀ t ≤ T, (inputs t).start = (inputs' t).start)
    (lastRow : (inputs (T + N)).start = (inputs' (T + N)).start)
    (firstLabels : (inputs (T + N + 3)).start = (inputs' (T + N + 3)).start) :
    run w inputs initial (T + 1 + c) = run w inputs' initial (T + 1 + c) := by
  have same {t : ℕ} (start : (inputs t).start = (inputs' t).start) : inputs t = inputs' t := by
    have reset_t := reset t
    have dontCare_t := dontCare t
    cases left : inputs t
    cases right : inputs' t
    simp_all
  have next (input : ℕ → Inputs N) (t : ℕ) : run w input initial (t + 1) =
      clock w (input t) (run w input initial t) := rfl
  -- Until the reset is over the state is unknown, so every edge may read the port.
  have upTo (t : ℕ) (le : t ≤ T + 1) : run w inputs initial t = run w inputs' initial t := by
    induction t with
    | zero => rfl
    | succ t ih => rw [next, next, ih (by omega), same (before t (by omega))]
  induction c with
  | zero => exact upTo (T + 1) le_rfl
  | succ c ih =>
    have control := run_control large w initial (released.mono (Nat.le_succ c))
    rw [← Nat.add_assoc, next, next, ← ih (released.mono (Nat.le_succ c))]
    -- By then both runs are in the same stage, and few stages read the port.
    by_cases reads : (Stage.atCycle N c).ReadsStart N
    · rcases readsStart_atCycle large reads with row | load
      · obtain time : T + 1 + c = T + N := by omega
        rw [time, same lastRow]
      · obtain time : T + 1 + c = T + N + 3 := by omega
        rw [time, same firstLabels]
    · exact clock_start w control reads (reset _) (dontCare _)

end StartPort

theorem run_start_port_four :
    run mapInitializationVhdl (resetPulse 1) (default : Registers 4) (0 + 1 + 22) =
      run mapInitializationVhdl
        (fun t => { resetPulse 1 t with start := if t = 0 ∨ t = 4 ∨ t = 7 then 1 else 2 })
        (default : Registers 4) (0 + 1 + 22) :=
  run_start_port (N := 4) le_rfl mapInitializationVhdl (resetPulse 1)
    (fun t => { resetPulse 1 t with start := if t = 0 ∨ t = 4 ∨ t = 7 then 1 else 2 }) default 0 22
    (resetPulse_released 1 22) (fun _ => rfl) (fun _ => rfl)
    (fun _ first => (if_pos (.inl (Nat.le_zero.mp first))).symm) rfl rfl

end PathAccelerator.Hardware
