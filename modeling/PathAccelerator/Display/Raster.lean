import PathAccelerator.Host.Registers
import PathAccelerator.Semantics.Clocked

/-! The module VGA_Controller.

Its clock is the pixel clock; cycle 0 is the first one after reset. The counters, the
sync pulses and the address of the pixel that is fetched do not depend on any input.
-/

set_option autoImplicit false

namespace PathAccelerator.Display

open Host Semantics

/-! ## Parameters -/

def hSyncCyc : ℕ := 96
def hSyncBack : ℕ := 45 + 3
def hSyncAct : ℕ := 640
def hSyncTotal : ℕ := 800
def vSyncCyc : ℕ := 2
def vSyncBack : ℕ := 30 + 2
def vSyncAct : ℕ := 480
def vSyncTotal : ℕ := 525
def xStart : ℕ := hSyncCyc + hSyncBack + 4
def yStart : ℕ := vSyncCyc + vSyncBack

/-- The three colours, each of which has its own registers and wires. -/
inductive Channel where
  | red | green | blue
  deriving DecidableEq

/-! ## The slave's side -/

section Slave

variable (c : VgaNiosCtrl)

def iCursorX : BitVec 10 := c.display 0
def iCursorY : BitVec 10 := c.display 1

def iCursor : Channel → BitVec 10
  | .red => c.display 2
  | .green => c.display 3
  | .blue => c.display 4

def iOn : Channel → BitVec 10
  | .red => c.display 5
  | .green => c.display 6
  | .blue => c.display 7

def iOff : Channel → BitVec 10
  | .red => c.display 8
  | .green => c.display 9
  | .blue => c.display 10

def mCursorEn : Bool := c.mCursorRgbN.getLsbD 3

/-- mRed_EN, mGreen_EN and mBlue_EN. -/
def channelEn : Channel → Bool
  | .red => c.mCursorRgbN.getLsbD 2
  | .green => c.mCursorRgbN.getLsbD 1
  | .blue => c.mCursorRgbN.getLsbD 0

end Slave

/-! ## The registers -/

structure VgaController where
  hCont : BitVec 10
  vCont : BitVec 10
  oVgaHSync : Bool
  oVgaVSync : Bool
  oCoordX : BitVec 10
  oCoordY : BitVec 10
  oAddress : BitVec 20
  curColor : Channel → BitVec 10

namespace VgaController

/-- The registers while iRST_N is low. -/
def reset : VgaController := ⟨0, 0, false, false, 0, 0, 0, fun _ => 0⟩

/-- The active part of the screen, `delay` clocks late. -/
def Active (delay : ℕ) (c : VgaController) : Prop :=
  (xStart + delay ≤ c.hCont.toNat ∧ c.hCont.toNat < xStart + hSyncAct + delay) ∧
    yStart ≤ c.vCont.toNat ∧ c.vCont.toNat < yStart + vSyncAct

instance (delay : ℕ) (c : VgaController) : Decidable (c.Active delay) :=
  inferInstanceAs (Decidable ((_ ∧ _) ∧ _ ∧ _))

def OnCursor (slave : VgaNiosCtrl) (c : VgaController) : Prop :=
  c.hCont.toNat = xStart + 8 + (iCursorX slave).toNat ∨
  c.hCont.toNat = xStart + 8 + (iCursorX slave).toNat + 1 ∨
  c.hCont.toNat = xStart + 8 + (iCursorX slave).toNat - 1 ∨
  c.vCont.toNat = yStart + (iCursorY slave).toNat ∨
  c.vCont.toNat = yStart + (iCursorY slave).toNat + 1 ∨
  c.vCont.toNat = yStart + (iCursorY slave).toNat - 1

instance (slave : VgaNiosCtrl) (c : VgaController) : Decidable (c.OnCursor slave) :=
  inferInstanceAs (Decidable (_ ∨ _))

/-- A rising edge of mCLK; `colour` is iRed, iGreen and iBlue. -/
def edge (slave : VgaNiosCtrl) (colour : Channel → BitVec 10) (c : VgaController) :
    VgaController where
  hCont := if c.hCont.toNat < hSyncTotal then c.hCont + 1 else 0
  vCont := if c.hCont = 0 then if c.vCont.toNat < vSyncTotal then c.vCont + 1 else 0 else c.vCont
  oVgaHSync := decide (hSyncCyc ≤ c.hCont.toNat)
  oVgaVSync := if c.hCont = 0 then decide (vSyncCyc ≤ c.vCont.toNat) else c.oVgaVSync
  oCoordX := if c.Active 0 then c.hCont - BitVec.ofNat 10 xStart else c.oCoordX
  oCoordY := if c.Active 0 then c.vCont - BitVec.ofNat 10 yStart else c.oCoordY
  oAddress := if c.Active 0 then
    c.oCoordY.setWidth 20 * BitVec.ofNat 20 hSyncAct + c.oCoordX.setWidth 20 - 3 else c.oAddress
  curColor := if c.Active 8 ∧ c.OnCursor slave ∧ mCursorEn slave = true then iCursor slave else colour

/-- oVGA_R, oVGA_G and oVGA_B. -/
def oVga (slave : VgaNiosCtrl) (c : VgaController) (channel : Channel) : BitVec 10 :=
  if c.Active 9 then if channelEn slave channel then c.curColor channel else 0 else 0

def oVgaBlank (c : VgaController) : Bool := c.oVgaHSync && c.oVgaVSync

/-! ## Counters -/

/-- Where the beam is in a cycle, and the sync pulses that follow from it. -/
structure At (t : ℕ) (c : VgaController) : Prop where
  hCont : c.hCont.toNat = t % 801
  vCont : c.vCont.toNat = (t + 800) / 801 % 526
  hSync : c.oVgaHSync = decide (0 < t ∧ ¬ (1 ≤ t % 801 ∧ t % 801 ≤ 96))
  vSync : c.oVgaVSync =
    decide (0 < t ∧ ¬ (1 ≤ (t + 800) / 801 % 526 ∧ (t + 800) / 801 % 526 ≤ 2))

theorem reset_at : reset.At 0 := by
  constructor <;> decide

theorem toNat_add_one {count : BitVec 10} (more : count.toNat < 1023) :
    (count + 1).toNat = count.toNat + 1 := by
  have one : (1 : BitVec 10).toNat = 1 := rfl
  rw [BitVec.toNat_add, one, Nat.mod_eq_of_lt (by omega)]

theorem hCont_edge (slave : VgaNiosCtrl) (colour : Channel → BitVec 10) (c : VgaController) :
    (c.edge slave colour).hCont.toNat = if c.hCont.toNat < 800 then c.hCont.toNat + 1 else 0 := by
  unfold edge hSyncTotal
  dsimp only
  split_ifs with more
  · exact toNat_add_one (by omega)
  · rfl

theorem vCont_edge (slave : VgaNiosCtrl) (colour : Channel → BitVec 10) (c : VgaController) :
    (c.edge slave colour).vCont.toNat = if c.hCont.toNat = 0 then
      if c.vCont.toNat < 525 then c.vCont.toNat + 1 else 0 else c.vCont.toNat := by
  have zero : c.hCont = 0 ↔ c.hCont.toNat = 0 := BitVec.toNat_inj.symm
  unfold edge vSyncTotal
  simp only [zero]
  split_ifs with start more
  · exact toNat_add_one (by omega)
  · rfl
  · rfl

theorem At.edge {t : ℕ} {c : VgaController} (at_t : c.At t) (slave : VgaNiosCtrl)
    (colour : Channel → BitVec 10) : (c.edge slave colour).At (t + 1) := by
  obtain ⟨hCont, vCont, hSync, vSync⟩ := at_t
  have zero : c.hCont = 0 ↔ c.hCont.toNat = 0 := BitVec.toNat_inj.symm
  constructor
  · rw [hCont_edge, hCont]
    split_ifs <;> omega
  · rw [vCont_edge, hCont, vCont]
    split_ifs <;> omega
  · unfold VgaController.edge hSyncCyc
    dsimp only
    rw [decide_eq_decide, hCont]
    omega
  · unfold VgaController.edge vSyncCyc
    simp only [zero, hCont, vCont, vSync]
    split_ifs with start
    · rw [decide_eq_decide]
      omega
    · rw [decide_eq_decide]
      omega

/-! ## Addresses -/

/-- What is fetched in the lines of the active part. The address is that of the
coordinates of the clock before, less three, and stands still behind the last column. -/
structure Fetching (c : VgaController) : Prop where
  coord : 34 ≤ c.vCont.toNat → c.vCont.toNat < 514 → 149 ≤ c.hCont.toNat →
    c.oCoordX.toNat = min (c.hCont.toNat - 149) 639 ∧ c.oCoordY.toNat = c.vCont.toNat - 34
  address : 34 ≤ c.vCont.toNat → c.vCont.toNat < 514 → 153 ≤ c.hCont.toNat →
    c.oAddress.toNat = (c.vCont.toNat - 34) * 640 + (min c.hCont.toNat 788 - 153)

theorem reset_fetching : reset.Fetching := by
  constructor <;> decide

theorem active_iff (delay : ℕ) (c : VgaController) : c.Active delay ↔
    (148 + delay ≤ c.hCont.toNat ∧ c.hCont.toNat < 788 + delay) ∧
      34 ≤ c.vCont.toNat ∧ c.vCont.toNat < 514 := by
  unfold Active xStart yStart hSyncCyc hSyncBack hSyncAct vSyncCyc vSyncBack vSyncAct
  omega

theorem toNat_sub_start {count : BitVec 10} {start : ℕ} (small : start < 1024)
    (above : start ≤ count.toNat) :
    (count - BitVec.ofNat 10 start).toNat = count.toNat - start := by
  have bound : BitVec.ofNat 10 start ≤ count := by
    rw [BitVec.le_def, BitVec.toNat_ofNat, Nat.mod_eq_of_lt small]
    exact above
  rw [BitVec.toNat_sub_of_le bound, BitVec.toNat_ofNat, Nat.mod_eq_of_lt small]

theorem address_toNat {x y : BitVec 10} (third : 3 ≤ x.toNat) (row : y.toNat < 480) :
    (y.setWidth 20 * BitVec.ofNat 20 hSyncAct + x.setWidth 20 - 3).toNat =
      y.toNat * 640 + x.toNat - 3 := by
  have three : (3 : BitVec 20).toNat = 3 := rfl
  unfold hSyncAct
  rw [BitVec.toNat_sub, BitVec.toNat_add, BitVec.toNat_mul, BitVec.toNat_ofNat,
    BitVec.toNat_setWidth, BitVec.toNat_setWidth, three]
  omega

theorem edge_within_line {slave : VgaNiosCtrl} {colour : Channel → BitVec 10} {c : VgaController}
    (far : 1 < (c.edge slave colour).hCont.toNat) :
    (c.edge slave colour).hCont.toNat = c.hCont.toNat + 1 ∧
      (c.edge slave colour).vCont.toNat = c.vCont.toNat := by
  have next := hCont_edge slave colour c
  rw [vCont_edge]
  split_ifs at next ⊢ <;> omega

theorem Fetching.edge {c : VgaController} (fetching : c.Fetching) (slave : VgaNiosCtrl)
    (colour : Channel → BitVec 10) : (c.edge slave colour).Fetching := by
  obtain ⟨coord, address⟩ := fetching
  constructor
  · intro top bottom far
    obtain ⟨next, kept⟩ := edge_within_line (Nat.lt_of_lt_of_le (by decide) far)
    rw [next] at far ⊢
    rw [kept] at top bottom ⊢
    by_cases active : c.Active 0
    · have column : (c.edge slave colour).oCoordX = c.hCont - BitVec.ofNat 10 148 := if_pos active
      have row : (c.edge slave colour).oCoordY = c.vCont - BitVec.ofNat 10 34 := if_pos active
      rw [active_iff] at active
      rw [column, row, toNat_sub_start (by omega) active.1.1, toNat_sub_start (by omega) top]
      omega
    -- Behind the last column the coordinates stand still.
    · have column : (c.edge slave colour).oCoordX = c.oCoordX := if_neg active
      have row : (c.edge slave colour).oCoordY = c.oCoordY := if_neg active
      rw [active_iff] at active
      obtain ⟨x, y⟩ := coord top bottom (by omega)
      rw [column, row, x, y]
      omega
  · intro top bottom far
    obtain ⟨next, kept⟩ := edge_within_line (Nat.lt_of_lt_of_le (by decide) far)
    rw [next] at far ⊢
    rw [kept] at top bottom ⊢
    by_cases active : c.Active 0
    -- The address is made of the coordinates before the edge.
    · have fetched : (c.edge slave colour).oAddress = _ := if_pos active
      rw [active_iff] at active
      obtain ⟨x, y⟩ := coord top bottom (by omega)
      rw [fetched, address_toNat (by omega) (by omega), x, y]
      omega
    · have fetched : (c.edge slave colour).oAddress = c.oAddress := if_neg active
      rw [active_iff] at active
      rw [fetched, address top bottom (by omega)]
      omega

end VgaController

end PathAccelerator.Display
