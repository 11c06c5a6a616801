import PathAccelerator.Host.Registers
import PathAccelerator.Host.MinPath

/-! A call of shortestPathFind against the accelerator.

The accelerator steps on rising clock edges, the slave on falling ones. On a falling
edge the program either idles or performs its next access, so every number of idle
clocks between two accesses is covered.
-/

set_option autoImplicit false

namespace PathAccelerator.Host

open Hardware Semantics

/-- The accesses of shortestPathFind in program order. The checks are the reads
compiled in by DEBUG_ON, whose only effect is an error message. -/
inductive Pc where
  | setStart | getStart | checkStart
  | setClkNios | checkClkNios
  | setTransCount | checkTransCount
  | resetLow | checkResetLow
  | resetHigh | checkResetHigh
  | poll
  | clkHigh | readNeighbor | readDistance | nextTransCount | clkLow
  | finished
  deriving DecidableEq

/-- The local trans_count and the two arrays that are read back. -/
structure Program (N : ℕ) where
  pc : Pc
  transCount : ℕ
  neighbor : Fin N → BitVec 16
  distance : Fin N → BitVec 16

variable {N : ℕ}

def Program.access (s : ℕ) (p : Program N) : Option Access :=
  match p.pc with
  | .setStart => some (dijstraSetStart s)
  | .getStart | .checkStart => some dijstraStart
  | .setClkNios => some (dijstraSetClkNios 0)
  | .checkClkNios => some dijstraClkNios
  | .setTransCount => some (dijstraSetTransCount 0)
  | .checkTransCount => some dijstraTransCount
  | .resetLow => some (dijstraSetReset 0)
  | .checkResetLow => some dijstraReset
  | .resetHigh => some (dijstraSetReset 1)
  | .checkResetHigh => some dijstraReset
  | .poll => some dijstraState
  | .clkHigh => some (dijstraSetClkNios 1)
  | .readNeighbor => some dijstraNeighbor
  | .readDistance => some dijstraDistance
  | .nextTransCount => some (dijstraSetTransCount p.transCount)
  | .clkLow => some (dijstraSetClkNios 0)
  | .finished => none

theorem Program.access_of_running {p : Program N} (s : ℕ) (more : p.pc ≠ .finished) :
    ∃ access, p.access s = some access := by
  unfold Program.access
  cases point : p.pc
  case finished => exact absurd point more
  all_goals exact ⟨_, rfl⟩

/-- `while(trans_count < max)`. -/
def Program.whileTransCount (p : Program N) : Program N :=
  { p with pc := if p.transCount < N then .clkHigh else .finished }

/-- What the program does up to its next access, given what the last one read. -/
def Program.proceed (data : BitVec 16) (p : Program N) : Program N :=
  match p.pc with
  | .setStart => { p with pc := .getStart }
  | .getStart => { p with pc := .checkStart }
  | .checkStart => { p with pc := .setClkNios }
  | .setClkNios => { p with pc := .checkClkNios }
  | .checkClkNios => { p with pc := .setTransCount }
  | .setTransCount => { p with pc := .checkTransCount }
  | .checkTransCount => { p with pc := .resetLow }
  | .resetLow => { p with pc := .checkResetLow }
  | .checkResetLow => { p with pc := .resetHigh }
  | .resetHigh => { p with pc := .checkResetHigh }
  | .checkResetHigh => { p with pc := .poll }
  | .poll => if data = 7 then { p with transCount := 0 }.whileTransCount else p
  | .clkHigh => { p with pc := .readNeighbor }
  | .readNeighbor => { p with
      neighbor := writeAt p.neighbor p.transCount data
      pc := .readDistance }
  | .readDistance => { p with
      distance := writeAt p.distance p.transCount data
      transCount := p.transCount + 1
      pc := .nextTransCount }
  | .nextTransCount => { p with pc := .clkLow }
  | .clkLow => p.whileTransCount
  | .finished => p

/-! ## The system -/

structure System (N : ℕ) where
  core : Registers N
  outputs : Outputs
  slave : VgaNiosCtrl
  program : Program N

/-- What one clock consumes: whether the bus delivers an access, and the resolution
of the accelerator's undefined values. -/
structure Tick (N : ℕ) where
  go : Bool
  dontCare : DontCare N

def coreInputs (tick : Tick N) (slave : VgaNiosCtrl) : Inputs N :=
  ⟨slave.reset, slave.start, tick.dontCare⟩

/-- A rising edge, then a falling one. -/
def System.clock (w : RoadMap) (s : ℕ) (tick : Tick N) (σ : System N) : System N :=
  let core := Hardware.clock w (coreInputs tick σ.slave) σ.core
  match if tick.go then σ.program.access s else none with
  | none => { σ with core := core }
  | some access =>
    let slave := σ.slave.perform (BitVec.ofNat 3 core.stateOut) σ.outputs access
    { core := core
      outputs := if σ.slave.clkNios = false ∧ slave.clkNios = true
        then sampleOutputs tick.dontCare slave.transCount core else σ.outputs
      slave := slave
      program := σ.program.proceed slave.readdata }

abbrev session (w : RoadMap) (s : ℕ) (ticks : ℕ → Tick N) (initial : System N) : ℕ → System N :=
  trajectory (System.clock w s) ticks initial

section Clock

variable (w : RoadMap) (s : ℕ) (tick : Tick N) (σ : System N)

theorem clock_core :
    (σ.clock w s tick).core = Hardware.clock w (coreInputs tick σ.slave) σ.core := by
  unfold System.clock
  split <;> rfl

theorem clock_cases :
    ((σ.clock w s tick).outputs = σ.outputs ∧ (σ.clock w s tick).slave = σ.slave ∧
      (σ.clock w s tick).program = σ.program) ∨
    ∃ access, tick.go = true ∧ σ.program.access s = some access ∧
      (σ.clock w s tick).slave = σ.slave.perform
        (BitVec.ofNat 3 (σ.clock w s tick).core.stateOut) σ.outputs access ∧
      (σ.clock w s tick).program = σ.program.proceed (σ.clock w s tick).slave.readdata ∧
      (σ.clock w s tick).outputs =
        if σ.slave.clkNios = false ∧ (σ.clock w s tick).slave.clkNios = true
        then sampleOutputs tick.dontCare (σ.clock w s tick).slave.transCount (σ.clock w s tick).core
        else σ.outputs := by
  cases go : tick.go with
  | false => exact .inl (by simp [System.clock, go])
  | true =>
    cases next : σ.program.access s with
    | none => exact .inl (by simp [System.clock, go, next])
    | some access => exact .inr ⟨access, rfl, rfl, by simp [System.clock, go, next]⟩

variable {w s tick σ} in
theorem clock_go {access : Access} (go : tick.go = true) (next : σ.program.access s = some access) :
    (σ.clock w s tick).program = σ.program.proceed (σ.clock w s tick).slave.readdata := by
  simp [System.clock, go, next]

end Clock

def coreStream (w : RoadMap) (s : ℕ) (ticks : ℕ → Tick N) (initial : System N) (t : ℕ) : Inputs N :=
  coreInputs (ticks t) (session w s ticks initial t).slave

/-- In a session the accelerator runs as it does alone under these inputs. -/
theorem session_core (w : RoadMap) (s : ℕ) (ticks : ℕ → Tick N) (initial : System N) (t : ℕ) :
    (session w s ticks initial t).core =
      run w (coreStream w s ticks initial) initial.core t := by
  induction t with
  | zero => rfl
  | succ t ih =>
    rw [session, trajectory_succ, clock_core, ih]
    rfl

end PathAccelerator.Host
