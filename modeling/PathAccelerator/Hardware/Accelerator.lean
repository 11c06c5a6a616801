import PathAccelerator.Hardware.Components
import PathAccelerator.Semantics.Clocked

/-! The entity Dijkstra_vhdl.

Registers are what the clocked processes assign; wires are what the other
processes drive. The clocked part reads both, so it is shared by the reading of
the wires as combinational logic and by their reading under event semantics.
-/

set_option autoImplicit false

namespace PathAccelerator.Hardware

open Semantics

/-- `state_type`, with the constants of the architecture as constructors. -/
inductive State where
  | mapInit | dsnInit | minCost2 | minCost1 | minCost | updMinc | updDist | done
  deriving DecidableEq, Repr, Inhabited

def State.code : State → ℕ
  | .mapInit => 0
  | .dsnInit => 1
  | .minCost2 => 2
  | .minCost1 => 3
  | .minCost => 4
  | .updMinc => 5
  | .updDist => 6
  | .done => 7

/-- Resolution of everything the source leaves open in one cycle: the 'X' values
driven by the prefetch block and the result of an array read outside its bounds. -/
structure DontCare (N : ℕ) where
  writeAddress : Fin N → NodeIndex
  wData : Fin N → Distance
  readAddress : Fin N → NodeIndex
  memRead : Fin N → ℕ → Distance
  distanceRead : ℕ → Distance
  shortestRead : ℕ → Bool
  neighborRead : ℕ → NodeIndex
  deriving Inhabited

structure Inputs (N : ℕ) where
  reset : Bool
  start : NodeIndex
  dontCare : DontCare N

structure Registers (N : ℕ) where
  state : State
  stateReg : State
  stateRegReg : State
  counter : ℕ
  subCounter : ℕ
  subCounterReg : ℕ
  subCounterRegReg : ℕ
  ram : Fin N → RamVhdl N
  distance : Fin N → Distance
  neighbor : Fin N → NodeIndex
  shortest : Fin N → Bool
  compDist1 : ComparatorVhdl
  compDist2 : ComparatorVhdl
  compDist3 : ComparatorVhdl
  compDist4 : ComparatorVhdl
  minDistanceReg : Distance
  newReg : NodeIndex
  deriving Inhabited

structure Wires (N : ℕ) where
  mapInitValue : Fin N → Distance
  wEn : Fin N → Bool
  writeAddress : Fin N → NodeIndex
  wData : Fin N → Distance
  readAddress : Fin N → NodeIndex
  new1 : NodeIndex
  new2 : NodeIndex
  new3 : NodeIndex
  new4 : NodeIndex
  minDistance : Distance
  newNode : NodeIndex

variable {N : ℕ}

def Registers.stateOut (r : Registers N) : ℕ := r.state.code

/-! ## Controller -/

/-- The if/elsif chain over state, counter and sub_counter. Tests against
`NODE_CNT-1` and `NODE_CNT*1/4-1` are written with the one on the other side, as
the second bound is -1 for fewer than four nodes. -/
def controller (N : ℕ) (reset : Bool) (start : NodeIndex) (state : State)
    (counter subCounter : ℕ) : State × ℕ × ℕ :=
  if reset = false then (.mapInit, 0, 0)
  -- counter runs over the rows of the map,
  else if state = .mapInit ∧ counter + 1 ≠ N then (.mapInit, counter + 1, subCounter)
  -- holds the start node for one clock,
  else if state = .mapInit ∧ counter + 1 = N then (.dsnInit, start.toNat, subCounter)
  -- and then runs over the rounds.
  else if state = .dsnInit then (.minCost2, 0, subCounter)
  else if state = .minCost2 ∧ counter + 1 ≠ N then (.minCost1, counter, subCounter)
  else if state = .minCost1 then (.minCost, counter, subCounter)
  else if state = .minCost ∧ subCounter + 1 ≠ N * 1 / 4 ∧ counter + 1 ≠ N then
    (.minCost, counter, subCounter + 1)
  else if state = .minCost ∧ subCounter + 1 = N * 1 / 4 ∧ counter + 1 ≠ N then
    (.updMinc, counter, 0)
  else if state = .updMinc ∧ counter + 1 ≠ N then (.updDist, counter, subCounter)
  else if state = .updDist ∧ counter + 1 ≠ N then (.minCost2, counter + 1, subCounter)
  else (.done, counter, subCounter)

/-! ## Non-clocked processes -/

/-- The `case` of RAM_PREFETCH_BLOCK: w_en, write_address, w_data and read_address
of every RAM, driven from `state`, `counter`, `map_init_value` and `New_reg`. -/
def prefetch (dontCare : DontCare N) (r : Registers N) (mapInitValue : Fin N → Distance)
    (wires : Wires N) : Wires N :=
  match r.state with
  | .mapInit => { wires with
      wEn := fun _ => true
      writeAddress := fun _ => BitVec.ofNat 9 r.counter
      wData := mapInitValue
      readAddress := dontCare.readAddress }
  | .dsnInit => { wires with
      wEn := fun _ => false
      writeAddress := dontCare.writeAddress
      wData := dontCare.wData
      readAddress := fun _ => BitVec.ofNat 9 r.counter }
  | .updDist => { wires with
      wEn := fun _ => false
      writeAddress := dontCare.writeAddress
      wData := dontCare.wData
      readAddress := fun _ => r.newReg }
  | _ => { wires with
      wEn := fun _ => false
      writeAddress := dontCare.writeAddress
      wData := dontCare.wData
      readAddress := dontCare.readAddress }

def driveMap (w : RoadMap) (r : Registers N) (wires : Wires N) : Wires N :=
  { wires with mapInitValue := fun i => w r.counter i.val }

def driveNew1 (r : Registers N) (wires : Wires N) : Wires N :=
  { wires with new1 := r.compDist1.newOut + 0 }

def driveNew2 (r : Registers N) (wires : Wires N) : Wires N :=
  { wires with new2 := r.compDist2.newOut + BitVec.ofNat 9 (N * 1 / 4) }

def driveNew3 (r : Registers N) (wires : Wires N) : Wires N :=
  { wires with new3 := r.compDist3.newOut + BitVec.ofNat 9 (N * 2 / 4) }

def driveNew4 (r : Registers N) (wires : Wires N) : Wires N :=
  { wires with new4 := r.compDist4.newOut + BitVec.ofNat 9 (N * 3 / 4) }

/-- The instance comp_4_to_1; the four indices are read from `source`. -/
def driveComp4To1 (r : Registers N) (source wires : Wires N) : Wires N :=
  let best := comparator4To1Vhdl r.compDist1.minDistance r.compDist2.minDistance
    r.compDist3.minDistance r.compDist4.minDistance source.new1 source.new2 source.new3 source.new4
  { wires with minDistance := best.1, newNode := best.2 }

/-- All wires as pure functions of the registers, as synthesis reads them. -/
def Registers.wires (w : RoadMap) (dontCare : DontCare N) (r : Registers N) : Wires N :=
  let mapInitValue : Fin N → Distance := fun i => w r.counter i.val
  let blank : Wires N := ⟨mapInitValue, fun _ => false, dontCare.writeAddress, dontCare.wData,
    dontCare.readAddress, 0, 0, 0, 0, 0, 0⟩
  -- Drivers in dependency order: each reads only what is driven before it.
  let indexed := driveNew4 r (driveNew3 r (driveNew2 r (driveNew1 r blank)))
  driveComp4To1 r indexed (prefetch dontCare r mapInitValue indexed)

/-! ## Clocked processes -/

/-- One of comp_dist_1_4 .. comp_dist_4_4, whose window starts at `offset`. -/
def compDist (inputs : Inputs N) (r : Registers N) (offset : ℕ) (own : ComparatorVhdl) :
    ComparatorVhdl :=
  ComparatorVhdl.clock inputs.reset r.state.code
    (readAt r.distance inputs.dontCare.distanceRead (offset + r.subCounter))
    (readAt r.shortest inputs.dontCare.shortestRead (offset + r.subCounter))
    (BitVec.ofNat 9 r.subCounter) own.minDistance own.newOut

/-- The process that updates `distance(i)` and `neighbor(i)`. -/
def relaxNode (inputs : Inputs N) (r : Registers N) (i : Fin N) : Distance × NodeIndex :=
  let sum := readAt r.distance inputs.dontCare.distanceRead r.newReg.toNat + (r.ram i).rData
  -- Two clocks after its address was driven the requested row is in r_data.
  if r.stateRegReg = .dsnInit then ((r.ram i).rData, inputs.start)
  else if r.stateRegReg = .updDist then
    if r.shortest i = false ∧ sum < r.distance i then (sum, r.newReg)
    else (r.distance i, r.neighbor i)
  else (r.distance i, r.neighbor i)

/-- The process that updates `shortest(i)`. -/
def markNode (inputs : Inputs N) (r : Registers N) (newNode : NodeIndex) (i : Fin N) : Bool :=
  if r.stateRegReg = .dsnInit ∧ inputs.start.toNat ≠ i.val then false
  else if r.stateRegReg = .dsnInit ∧ inputs.start.toNat = i.val then true
  else if r.state = .updMinc ∧ newNode.toNat = i.val then true
  else r.shortest i

/-- One rising edge of `clk`, for any values on the wires. -/
def Registers.edge (wires : Wires N) (inputs : Inputs N) (r : Registers N) : Registers N :=
  let control := controller N inputs.reset inputs.start r.state r.counter r.subCounter
  { state := control.1
    stateReg := if inputs.reset = false then .mapInit else r.state
    stateRegReg := if inputs.reset = false then .mapInit else r.stateReg
    counter := control.2.1
    subCounter := control.2.2
    subCounterReg := if inputs.reset = false then 0 else r.subCounter
    subCounterRegReg := if inputs.reset = false then 0 else r.subCounterReg
    -- Write port and registered read port of the RAMs are driven by wires.
    ram := fun i => (r.ram i).clock (inputs.dontCare.memRead i) (wires.wEn i)
      (wires.writeAddress i).toNat (wires.wData i) (wires.readAddress i).toNat
    distance := fun i => (relaxNode inputs r i).1
    neighbor := fun i => (relaxNode inputs r i).2
    shortest := fun i => markNode inputs r wires.newNode i
    compDist1 := compDist inputs r 0 r.compDist1
    compDist2 := compDist inputs r (N * 1 / 4) r.compDist2
    compDist3 := compDist inputs r (N * 2 / 4) r.compDist3
    compDist4 := compDist inputs r (N * 3 / 4) r.compDist4
    minDistanceReg := if r.state = .updMinc then wires.minDistance else r.minDistanceReg
    newReg := if r.state = .updMinc then wires.newNode else r.newReg }

/-- One clock of the synthesised design. -/
def clock (w : RoadMap) (inputs : Inputs N) (r : Registers N) : Registers N :=
  r.edge (r.wires w inputs.dontCare) inputs

abbrev run (w : RoadMap) (inputs : ℕ → Inputs N) (initial : Registers N) : ℕ → Registers N :=
  trajectory (clock w) inputs initial

/-! ## Output process -/

structure Outputs where
  neighborOut : NodeIndex
  distanceOut : Distance
  deriving DecidableEq

/-- What a 0-to-1 change of clk_NIOS leaves on the output ports. -/
def sampleOutputs (dontCare : DontCare N) (transCount : NodeIndex) (r : Registers N) : Outputs where
  neighborOut := readAt r.neighbor dontCare.neighborRead transCount.toNat
  distanceOut := readAt r.distance dontCare.distanceRead transCount.toNat

/-- Edge `T` has reset low and the `c` edges after it have reset high. Cycle `c`
after the reset edge is cycle `T + 1 + c` of the run. -/
structure Released (inputs : ℕ → Inputs N) (T c : ℕ) : Prop where
  low : (inputs T).reset = false
  high : ∀ t, T < t → t < T + 1 + c → (inputs t).reset = true

theorem Released.mono {inputs : ℕ → Inputs N} {T c d : ℕ} (released : Released inputs T c)
    (le : d ≤ c) : Released inputs T d where
  low := released.low
  high t above below := released.high t above (by omega)

theorem Released.extend {inputs : ℕ → Inputs N} {T c : ℕ} (released : Released inputs T c)
    (high : (inputs (T + 1 + c)).reset = true) : Released inputs T (c + 1) where
  low := released.low
  high t above below := by
    rcases Nat.lt_or_ge t (T + 1 + c) with earlier | last
    · exact released.high t above earlier
    · obtain rfl : t = T + 1 + c := by omega
      exact high

def StartHeld (inputs : ℕ → Inputs N) (T c : ℕ) (s : Fin N) : Prop :=
  ∀ t, T < t → t < T + 1 + c → (inputs t).start.toNat = s.val

theorem StartHeld.extend {inputs : ℕ → Inputs N} {T c : ℕ} {s : Fin N} (held : StartHeld inputs T c s)
    (same : (inputs (T + 1 + c)).start.toNat = s.val) : StartHeld inputs T (c + 1) s := by
  intro t above below
  rcases Nat.lt_or_ge t (T + 1 + c) with earlier | last
  · exact held t above earlier
  · obtain rfl : t = T + 1 + c := by omega
    exact same

def resetPulse (start : NodeIndex) (t : ℕ) : Inputs N := ⟨decide (0 < t), start, default⟩

theorem resetPulse_released (start : NodeIndex) (c : ℕ) :
    Released (resetPulse (N := N) start) 0 c where
  low := rfl
  high _ above _ := decide_eq_true above

theorem resetPulse_startHeld {start : NodeIndex} {s : Fin N} (same : start.toNat = s.val) (c : ℕ) :
    StartHeld (resetPulse (N := N) start) 0 c s := fun _ _ _ => same

end PathAccelerator.Hardware
