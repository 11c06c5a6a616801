import PathAccelerator.Hardware.Accelerator

/-! The bus slave VGA_NIOS_CTRL and the macros that address its registers. -/

set_option autoImplicit false

namespace PathAccelerator.Host

open Hardware

/-- Parameter of the slave: the addresses below it are pixels. -/
def ramSize : ℕ := 0x4B000

/-- `VGA_WIDTH*VGA_HEIGHT`, where the macros place the registers. -/
def osdMemAddr : ℕ := 640 * 480

/-- The registers of the slave. `display` are mCursor_X to mOFF_B in address order. -/
structure VgaNiosCtrl where
  mCursorRgbN : BitVec 4
  display : Fin 11 → BitVec 10
  clkNios16 : BitVec 16
  reset16 : BitVec 16
  start16 : BitVec 16
  transCount16 : BitVec 16
  readdata : BitVec 16
  deriving Inhabited

namespace VgaNiosCtrl

def clkNios (c : VgaNiosCtrl) : Bool := c.clkNios16.getLsbD 0

def reset (c : VgaNiosCtrl) : Bool := c.reset16.getLsbD 0

def start (c : VgaNiosCtrl) : NodeIndex := c.start16.setWidth 9

def transCount (c : VgaNiosCtrl) : NodeIndex := c.transCount16.setWidth 9

/-- A falling clock edge with chip select and write. -/
def write (address : ℕ) (writedata : BitVec 16) (c : VgaNiosCtrl) : VgaNiosCtrl :=
  if address = ramSize + 0 then { c with mCursorRgbN := writedata.setWidth 4 }
  else if address = ramSize + 12 then { c with clkNios16 := writedata }
  else if address = ramSize + 13 then { c with reset16 := writedata }
  else if address = ramSize + 14 then { c with start16 := writedata }
  else if address = ramSize + 17 then { c with transCount16 := writedata }
  else { c with
    display := fun i => if address = ramSize + 1 + i.val then writedata.setWidth 10 else c.display i }

/-- A falling clock edge with chip select and read. -/
def read (address : ℕ) (state : BitVec 3) (outputs : Outputs) (c : VgaNiosCtrl) : VgaNiosCtrl :=
  if address = ramSize + 0 then { c with readdata := c.mCursorRgbN.setWidth 16 }
  else if address = ramSize + 12 then { c with readdata := c.clkNios16 }
  else if address = ramSize + 13 then { c with readdata := c.reset16 }
  else if address = ramSize + 14 then { c with readdata := c.start16 }
  else if address = ramSize + 15 then { c with readdata := state.setWidth 16 }
  else if address = ramSize + 16 then { c with readdata := outputs.neighborOut.setWidth 16 }
  else if address = ramSize + 17 then { c with readdata := c.transCount16 }
  else if address = ramSize + 18 then { c with readdata := outputs.distanceOut.setWidth 16 }
  else if h : ramSize + 1 ≤ address ∧ address < ramSize + 12 then
    { c with readdata := (c.display ⟨address - (ramSize + 1), by omega⟩).setWidth 16 }
  else c

end VgaNiosCtrl

/-! ## Accesses -/

inductive Access where
  | write (address : ℕ) (value : BitVec 16)
  | read (address : ℕ)

def dijstraSetClkNios (value : ℕ) : Access := .write (osdMemAddr + 12) (BitVec.ofNat 16 value)
def dijstraSetReset (value : ℕ) : Access := .write (osdMemAddr + 13) (BitVec.ofNat 16 value)
def dijstraSetStart (value : ℕ) : Access := .write (osdMemAddr + 14) (BitVec.ofNat 16 value)
def dijstraSetTransCount (value : ℕ) : Access := .write (osdMemAddr + 17) (BitVec.ofNat 16 value)
def dijstraClkNios : Access := .read (osdMemAddr + 12)
def dijstraReset : Access := .read (osdMemAddr + 13)
def dijstraStart : Access := .read (osdMemAddr + 14)
def dijstraState : Access := .read (osdMemAddr + 15)
def dijstraNeighbor : Access := .read (osdMemAddr + 16)
def dijstraTransCount : Access := .read (osdMemAddr + 17)
def dijstraDistance : Access := .read (osdMemAddr + 18)

def VgaNiosCtrl.perform (c : VgaNiosCtrl) (state : BitVec 3) (outputs : Outputs) : Access → VgaNiosCtrl
  | .write address value => c.write address value
  | .read address => c.read address state outputs

section Perform

variable (c : VgaNiosCtrl) (state : BitVec 3) (outputs : Outputs) (value : ℕ)

@[simp] theorem perform_setClkNios : c.perform state outputs (dijstraSetClkNios value) =
    { c with clkNios16 := BitVec.ofNat 16 value } := rfl

@[simp] theorem perform_setReset : c.perform state outputs (dijstraSetReset value) =
    { c with reset16 := BitVec.ofNat 16 value } := rfl

@[simp] theorem perform_setStart : c.perform state outputs (dijstraSetStart value) =
    { c with start16 := BitVec.ofNat 16 value } := rfl

@[simp] theorem perform_setTransCount : c.perform state outputs (dijstraSetTransCount value) =
    { c with transCount16 := BitVec.ofNat 16 value } := rfl

@[simp] theorem perform_state : c.perform state outputs dijstraState =
    { c with readdata := state.setWidth 16 } := rfl

@[simp] theorem perform_neighbor : c.perform state outputs dijstraNeighbor =
    { c with readdata := outputs.neighborOut.setWidth 16 } := rfl

@[simp] theorem perform_distance : c.perform state outputs dijstraDistance =
    { c with readdata := outputs.distanceOut.setWidth 16 } := rfl

@[simp] theorem perform_clkNios : c.perform state outputs dijstraClkNios =
    { c with readdata := c.clkNios16 } := rfl

@[simp] theorem perform_reset : c.perform state outputs dijstraReset =
    { c with readdata := c.reset16 } := rfl

@[simp] theorem perform_start : c.perform state outputs dijstraStart =
    { c with readdata := c.start16 } := rfl

@[simp] theorem perform_transCount : c.perform state outputs dijstraTransCount =
    { c with readdata := c.transCount16 } := rfl

end Perform

end PathAccelerator.Host
