import PathAccelerator.Hardware.Refinement
import PathAccelerator.Semantics.Delta

/-! The design under VHDL event semantics.

The processes that are not clocked run on events only. Two of them read signals
that their sensitivity lists leave out: the prefetch process resumes on state, and
comp_4_to_1 on the four minimum distances.
-/

set_option autoImplicit false

namespace PathAccelerator.Hardware

open Semantics

variable {N : ℕ}

structure Signals (N : ℕ) where
  registers : Registers N
  wires : Wires N

instance : Inhabited (Wires N) :=
  ⟨⟨default, default, default, default, default, 0, 0, 0, 0, 0, 0⟩⟩

/-- The processes that are not clocked, with their sensitivity lists. -/
def processes (w : RoadMap) (dontCare : DontCare N) : List (Process (Signals N)) :=
  [.on (fun σ => σ.registers.counter) fun now pending =>
      { pending with wires := driveMap w now.registers pending.wires },
    -- counter, map_init_value and New_reg are read without being listed.
    .on (fun σ => σ.registers.state) fun now pending =>
      { pending with
        wires := prefetch dontCare now.registers now.wires.mapInitValue pending.wires },
    .on (fun σ => σ.registers.compDist1.newOut) fun now pending =>
      { pending with wires := driveNew1 now.registers pending.wires },
    .on (fun σ => σ.registers.compDist2.newOut) fun now pending =>
      { pending with wires := driveNew2 now.registers pending.wires },
    .on (fun σ => σ.registers.compDist3.newOut) fun now pending =>
      { pending with wires := driveNew3 now.registers pending.wires },
    .on (fun σ => σ.registers.compDist4.newOut) fun now pending =>
      { pending with wires := driveNew4 now.registers pending.wires },
    -- new_1 to new_4 are read as they were a delta cycle ago.
    .on (fun σ => (σ.registers.compDist1.minDistance, σ.registers.compDist2.minDistance,
        σ.registers.compDist3.minDistance, σ.registers.compDist4.minDistance)) fun now pending =>
      { pending with wires := driveComp4To1 now.registers now.wires pending.wires }]

/-- One rising edge of `clk` and the delta cycles it starts. No process is
sensitive to a wire, so a single one has work to do. -/
def simulateEdge (w : RoadMap) (inputs : Inputs N) (σ : Signals N) : Signals N :=
  delta (processes w inputs.dontCare) σ ⟨σ.registers.edge σ.wires inputs, σ.wires⟩

/-- The signals in each clock of a simulation. `blank` are the values the wires
have before the processes run for the first time. -/
def simulate (w : RoadMap) (inputs : ℕ → Inputs N) (initial : Registers N) (blank : Wires N) :
    ℕ → Signals N :=
  trajectory (simulateEdge w) inputs (powerUp (processes w (inputs 0).dontCare) ⟨initial, blank⟩)

variable {w : RoadMap} {inputs : Inputs N} {dontCare : DontCare N} {σ before now : Signals N}

theorem delta_registers :
    (delta (processes w dontCare) before now).registers = now.registers :=
  delta_frame Signals.registers fun p member _ _ => by
    simp only [processes, List.mem_cons, List.not_mem_nil, or_false] at member
    rcases member with rfl | rfl | rfl | rfl | rfl | rfl | rfl <;> rfl

theorem simulateEdge_registers :
    (simulateEdge w inputs σ).registers = σ.registers.edge σ.wires inputs :=
  delta_registers

theorem processes_quiet (same : before.registers = now.registers) :
    Quiet (processes w dontCare) before now := fun p member => by
  simp only [processes, List.mem_cons, List.not_mem_nil, or_false] at member
  rcases member with rfl | rfl | rfl | rfl | rfl | rfl | rfl <;>
    exact Process.on_wakes (by simp only [same])

theorem simulateEdge_settled (n : ℕ) :
    deltas (processes w inputs.dontCare) (n + 1) σ ⟨σ.registers.edge σ.wires inputs, σ.wires⟩ =
      simulateEdge w inputs σ :=
  deltas_quiet (fun _ => processes_quiet rfl) (processes_quiet delta_registers.symm) n

/-! ## The prefetch process -/

def writePorts (σ : Signals N) : (Fin N → Bool) × (Fin N → NodeIndex) × (Fin N → Distance) :=
  (σ.wires.wEn, σ.wires.writeAddress, σ.wires.wData)

theorem writeAddress_of_ports (same : writePorts before = writePorts now) (i : Fin N) :
    before.wires.writeAddress i = now.wires.writeAddress i :=
  congrFun (congrArg (fun ports => ports.2.1) same) i

theorem simulateEdge_writePorts
    (still : (σ.registers.edge σ.wires inputs).state = σ.registers.state) :
    writePorts (simulateEdge w inputs σ) = writePorts σ :=
  delta_frame writePorts fun p member awake _ => by
    simp only [processes, List.mem_cons, List.not_mem_nil, or_false] at member
    rcases member with rfl | rfl | rfl | rfl | rfl | rfl | rfl
    case inr.inl => simp [Process.on, still] at awake
    all_goals rfl

theorem simulateEdge_row {i r : Fin N} (other : r.val ≠ (σ.wires.writeAddress i).toNat) :
    ((simulateEdge w inputs σ).registers.ram i).mem r = (σ.registers.ram i).mem r := by
  rw [simulateEdge_registers]
  simp only [Registers.edge, RamVhdl.clock]
  split
  · exact writeAt_of_ne _ _ other
  · rfl

/-! ## The comparator tree -/

/-- When a minimum moves, comp_4_to_1 pairs the new minima with the indices of
before the edge, and is not resumed when the indices follow. -/
theorem simulateEdge_newNode
    (event : σ.registers.compDist1.minDistance ≠
      (σ.registers.edge σ.wires inputs).compDist1.minDistance) :
    (simulateEdge w inputs σ).wires.newNode =
      (comparator4To1Vhdl (σ.registers.edge σ.wires inputs).compDist1.minDistance
        (σ.registers.edge σ.wires inputs).compDist2.minDistance
        (σ.registers.edge σ.wires inputs).compDist3.minDistance
        (σ.registers.edge σ.wires inputs).compDist4.minDistance
        σ.wires.new1 σ.wires.new2 σ.wires.new3 σ.wires.new4).2 := by
  simp [simulateEdge, delta, processes, Process.on, driveComp4To1, event]

/-! ## Loading the map -/

section Loading

variable {inputs : ℕ → Inputs N} {initial : Registers N} {blank : Wires N} {T c : ℕ}

theorem simulate_succ (t : ℕ) : simulate w inputs initial blank (t + 1) =
    simulateEdge w (inputs t) (simulate w inputs initial blank t) := rfl

theorem simulate_control (large : 4 ≤ N) (w : RoadMap) (initial : Registers N) (blank : Wires N)
    (released : Released inputs T c) :
    Control (Stage.atCycle N c) (simulate w inputs initial blank (T + 1 + c)).registers := by
  have start : Control (.mapInit 0) (simulate w inputs initial blank (T + 1)).registers := by
    rw [simulate_succ, simulateEdge_registers]
    exact control_reset large released.low
  apply trajectory_follows (fun stage (σ : Signals N) => Control stage σ.registers) start c
  intro t above below stage σ control
  rw [simulateEdge_registers]
  exact control.edge large (released.high t above below)

/-- All through map_init the write ports stay as they are after the reset edge,
and so does every row but one. -/
theorem simulate_loading (large : 4 ≤ N) (w : RoadMap) (initial : Registers N) (blank : Wires N)
    (released : Released inputs T c) (loading : c < N) :
    writePorts (simulate w inputs initial blank (T + 1 + c)) =
        writePorts (simulate w inputs initial blank (T + 1)) ∧
      ∀ i r : Fin N, r.val ≠ ((simulate w inputs initial blank (T + 1)).wires.writeAddress i).toNat →
        ((simulate w inputs initial blank (T + 1 + c)).registers.ram i).mem r =
          ((simulate w inputs initial blank (T + 1)).registers.ram i).mem r := by
  induction c with
  | zero => exact ⟨rfl, fun _ _ _ => rfl⟩
  | succ c ih =>
    have earlier : Released inputs T c := released.mono (Nat.le_succ c)
    obtain ⟨ports, rows⟩ := ih earlier (by omega)
    have now := simulate_control large w initial blank earlier
    have next := simulate_control large w initial blank released
    rw [Stage.atCycle_mapInit (by omega)] at now next
    rw [← Nat.add_assoc, simulate_succ] at next ⊢
    rw [simulateEdge_registers] at next
    refine ⟨(simulateEdge_writePorts (next.state.trans now.state.symm)).trans ports,
      fun i r other => ?_⟩
    rw [simulateEdge_row (by rwa [writeAddress_of_ports ports])]
    exact rows i r other

theorem simulate_loaded (large : 4 ≤ N) (released : Released inputs T N) (i r : Fin N)
    (other : r.val ≠ ((simulate w inputs initial blank (T + 1)).wires.writeAddress i).toNat) :
    ((simulate w inputs initial blank (T + 1 + N)).registers.ram i).mem r =
      ((simulate w inputs initial blank (T + 1)).registers.ram i).mem r := by
  -- The edge into dsn_init still writes under the ports of the last map_init cycle.
  obtain ⟨last, size⟩ : ∃ last, N = last + 1 := ⟨N - 1, by omega⟩
  have earlier : Released inputs T last := released.mono (by omega)
  obtain ⟨ports, rows⟩ := simulate_loading large w initial blank earlier (by omega)
  have final : T + 1 + N = T + 1 + last + 1 := by omega
  rw [final, simulate_succ, simulateEdge_row (by rwa [writeAddress_of_ports ports])]
  exact rows i r other

theorem simulate_powerUp (large : 4 ≤ N) (state : initial.state = .mapInit)
    (counter : initial.counter = 0) (released : Released inputs 0 N) (i r : Fin N)
    (other : r.val ≠ 0) :
    ((simulate w inputs initial blank (0 + 1 + N)).registers.ram i).mem r =
      (initial.ram i).mem r := by
  have first : (simulate w inputs initial blank 0).registers = initial :=
    powerUp_frame Signals.registers fun p member _ => by
      simp only [processes, List.mem_cons, List.not_mem_nil, or_false] at member
      rcases member with rfl | rfl | rfl | rfl | rfl | rfl | rfl <;> rfl
  have still : ((simulate w inputs initial blank 0).registers.edge
      (simulate w inputs initial blank 0).wires (inputs 0)).state =
      (simulate w inputs initial blank 0).registers.state := by
    rw [first, state]
    simp [Registers.edge, controller, released.low]
  -- The reset edge is no event on state, so the address driven at power-up stays.
  have before : (simulate w inputs initial blank 0).wires.writeAddress i = 0 := by
    simp [simulate, powerUp, processes, Process.on, prefetch, driveMap, driveNew1, driveNew2,
      driveNew3, driveNew4, driveComp4To1, state, counter]
  have after : (simulate w inputs initial blank (0 + 1)).wires.writeAddress i = 0 :=
    (writeAddress_of_ports (simulateEdge_writePorts still) i).trans before
  rw [simulate_loaded large released i r (by rwa [after]), simulate_succ,
    simulateEdge_row (by rwa [before]), first]

end Loading

/-- The two readings of the design agree on one map and start node: on entry to
dsn_init the simulated RAMs hold the map, and the simulated new_node is the
synthesised one in every upd_minc cycle. -/
def SimulationAgrees (w : RoadMap) (s : Fin N) : Prop :=
  ∀ (inputs : ℕ → Inputs N) (initial : Registers N) (blank : Wires N) (T c : ℕ),
    Released inputs T c → StartHeld inputs T c s →
      let σ := simulate w inputs initial blank (T + 1 + c)
      let r := run w inputs initial (T + 1 + c)
      (σ.registers.state = .dsnInit → ∀ i q : Fin N, (σ.registers.ram i).mem q = w q i) ∧
      (r.state = .updMinc →
        σ.wires.newNode = (r.wires w (inputs (T + 1 + c)).dontCare).newNode)

def unloaded (w : RoadMap) : Registers N :=
  { (default : Registers N) with ram := fun i => ⟨fun _ => w 1 i + 1, 0, 0⟩ }

theorem simulation_disagrees (large : 4 ≤ N) (small : N ≤ 512) (w : RoadMap) (s : Fin N) :
    ¬ SimulationAgrees w s := by
  intro agrees
  have start : (BitVec.ofNat 9 s.val).toNat = s.val := by
    rw [BitVec.toNat_ofNat]
    omega
  have released := resetPulse_released (N := N) (BitVec.ofNat 9 s.val) N
  obtain ⟨loads, _⟩ := agrees _ (unloaded w) default 0 N released (resetPulse_startHeld start N)
  have control := simulate_control large w (unloaded w) default released
  rw [Stage.atCycle_dsnInit (by omega)] at control
  have row := loads control.state ⟨0, by omega⟩ ⟨1, by omega⟩
  rw [simulate_powerUp large rfl rfl released _ _ Nat.one_ne_zero] at row
  exact absurd row (by simp [unloaded])

theorem simulation_disagrees_sixteen : ¬ SimulationAgrees mapInitializationVhdl (1 : Fin 16) :=
  simulation_disagrees (by decide) (by decide) mapInitializationVhdl 1

/-- A simulation of the built-in map from all-zero registers enters dsn_init with
row 1 of RAM 0 unwritten, where the synthesised design has the road from 1 to 0. -/
theorem simulate_mapInitialization_unloaded :
    let σ := simulate mapInitializationVhdl (resetPulse 1) (default : Registers 16) default (0 + 1 + 16)
    let r := run mapInitializationVhdl (resetPulse 1) (default : Registers 16) (0 + 1 + 16)
    σ.registers.state = .dsnInit ∧ (σ.registers.ram 0).mem 1 = 0 ∧ (r.ram 0).mem 1 = 247 ∧
      mapInitializationVhdl 1 0 = 247 := by
  have released := resetPulse_released (N := 16) 1 16
  have control := simulate_control (by decide) mapInitializationVhdl default default released
  rw [Stage.atCycle_dsnInit (by decide)] at control
  have loaded : Loaded mapInitializationVhdl (run mapInitializationVhdl (resetPulse 1) default
      (0 + 1 + 16)) := run_loaded (N := 16) (s := 1) (by decide) (by decide) released
    (resetPulse_startHeld rfl 16)
  exact ⟨control.state, simulate_powerUp (by decide) rfl rfl released 0 1 (by decide), loaded 0 1, rfl⟩

end PathAccelerator.Hardware
