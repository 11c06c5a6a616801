import PathAccelerator.Display.Line
import PathAccelerator.Semantics.Clocked

/-! The mouse loop of main.

A turn decodes one report into displacements and buttons, moves the cursor and shows
it. The position is unsigned, the displacements are signed chars, and all arithmetic
between them is done in `int`.
-/

set_option autoImplicit false

namespace PathAccelerator.Display

open Host Semantics

/-! ## One turn -/

/-- What a turn reads: the control word of the transfer, the size found when the
mouse was enumerated, and the two words of the report. -/
structure Poll where
  usbCtlVal : BitVec 16
  dataSize : BitVec 8
  firstWord : BitVec 32
  secondWord : BitVec 32
  deriving DecidableEq

/-- The locals of main that outlive a turn. -/
structure Mouse where
  px : BitVec 16
  py : BitVec 16
  dx : BitVec 8
  dy : BitVec 8
  pbutton : BitVec 8
  deriving DecidableEq

def Mouse.initial : Mouse := ⟨320, 240, 0, 0, 0⟩

/-- `button_value & 0x00ff`, converted to a char. -/
def lowByte (buttonValue : BitVec 32) : BitVec 8 := (buttonValue &&& 0x00ff).setWidth 8

/-- `(button_value>>8) & 0x00ff`, converted to a char. -/
def highByte (buttonValue : BitVec 32) : BitVec 8 :=
  ((buttonValue.sshiftRight 8) &&& 0x00ff).setWidth 8

def button (byte : BitVec 8) : BitVec 8 := if byte = 1 then 1 else if byte = 2 then 2 else 0

/-- A displacement byte against the displacement in force: zero keeps it, a repetition
clears it. -/
def displacement (byte held : BitVec 8) : BitVec 8 :=
  if byte ≠ 0 then if byte = held then 0 else byte else held

def decode (p : Poll) (m : Mouse) : Mouse :=
  if p.usbCtlVal ≠ 0x03 then { m with pbutton := 0, dx := 0, dy := 0 }
  else if p.dataSize ≠ 8 then { m with
    pbutton := button (lowByte p.firstWord)
    dx := displacement (highByte p.firstWord) m.dx
    dy := displacement (lowByte p.secondWord) m.dy }
  else { m with
    pbutton := button (highByte p.firstWord)
    dy := displacement (highByte p.secondWord) m.dy
    dx := displacement (lowByte p.secondWord) m.dx }

def maxmin (no max min : ℤ) : ℤ :=
  let no := if no > max then max else no
  if no < min then min else no

/-- `p = p + d; p = maxmin(p,limit,0)` on an unsigned short and a signed char. -/
def moveAxis (limit : ℤ) (p : BitVec 16) (d : BitVec 8) : BitVec 16 :=
  let p := BitVec.ofInt 16 (p.toNat + d.toInt)
  BitVec.ofInt 16 (maxmin p.toNat limit 0)

def move (m : Mouse) : Mouse :=
  { m with px := moveAxis 639 m.px m.dx, py := moveAxis 479 m.py m.dy }

def turn (p : Poll) (m : Mouse) : Mouse := move (decode p m)

def vgaCursorX (value : BitVec 16) : Access := .write (osdMemAddr + 1) value
def vgaCursorY (value : BitVec 16) : Access := .write (osdMemAddr + 2) value

def Mouse.pixel (m : Mouse) : Pixel := ⟨m.px.toNat, m.py.toNat⟩

def Mouse.shown (m : Mouse) : List Access :=
  vgaCursorX m.px :: vgaCursorY m.py ::
    if m.pbutton = 1 then [vgaSetPixel m.pixel]
    else if m.pbutton = 2 then [vgaClrPixel m.pixel]
    else []

/-! ## Reports -/

def Poll.Completed (p : Poll) : Prop := p.usbCtlVal = 0x03

instance (p : Poll) : Decidable p.Completed := inferInstanceAs (Decidable (_ = _))

def Poll.xByte (p : Poll) : BitVec 8 :=
  if p.dataSize ≠ 8 then highByte p.firstWord else lowByte p.secondWord

def Poll.yByte (p : Poll) : BitVec 8 :=
  if p.dataSize ≠ 8 then lowByte p.secondWord else highByte p.secondWord

@[simp] theorem decode_px (p : Poll) (m : Mouse) : (decode p m).px = m.px := by
  unfold decode
  split_ifs <;> rfl

@[simp] theorem decode_py (p : Poll) (m : Mouse) : (decode p m).py = m.py := by
  unfold decode
  split_ifs <;> rfl

def Poll.after (p : Poll) (byte held : BitVec 8) : BitVec 8 :=
  if p.Completed then displacement byte held else 0

def Poll.dxAfter (p : Poll) (held : BitVec 8) : BitVec 8 := p.after p.xByte held
def Poll.dyAfter (p : Poll) (held : BitVec 8) : BitVec 8 := p.after p.yByte held

theorem after_zero {p : Poll} (done : p.Completed) (held : BitVec 8) : p.after 0 held = held :=
  if_pos done

theorem decode_dx (p : Poll) (m : Mouse) : (decode p m).dx = p.dxAfter m.dx := by
  unfold decode Poll.dxAfter Poll.after Poll.xByte Poll.Completed
  by_cases done : p.usbCtlVal = 0x03
  · simp only [done, ne_eq, not_true, if_false, if_true]
    split_ifs <;> rfl
  · simp only [done, ne_eq, not_false_iff, if_true, if_false]

theorem decode_dy (p : Poll) (m : Mouse) : (decode p m).dy = p.dyAfter m.dy := by
  unfold decode Poll.dyAfter Poll.after Poll.yByte Poll.Completed
  by_cases done : p.usbCtlVal = 0x03
  · simp only [done, ne_eq, not_true, if_false, if_true]
    split_ifs <;> rfl
  · simp only [done, ne_eq, not_false_iff, if_true, if_false]

/-! ## One axis -/

theorem signedChar_bounds (d : BitVec 8) : -128 ≤ d.toInt ∧ d.toInt < 128 :=
  ⟨BitVec.le_toInt d, BitVec.toInt_lt⟩

/-- A far edge beyond the reach of one displacement, and short of where sums below zero
wrap to. -/
structure FarEdge (limit : ℕ) : Prop where
  wide : 128 ≤ limit
  small : limit < 2 ^ 15

theorem farEdge_px : FarEdge 639 := ⟨by omega, by omega⟩

theorem farEdge_py : FarEdge 479 := ⟨by omega, by omega⟩

section Axis

variable {limit : ℕ} {p : BitVec 16} (edge : FarEdge limit) (inside : p.toNat ≤ limit)
  (d : BitVec 8)

include edge inside

/-- A sum below zero wraps around and is cut to the far edge. -/
theorem moveAxis_toNat : ((moveAxis limit p d).toNat : ℤ) =
    if 0 ≤ (p.toNat : ℤ) + d.toInt then min (limit : ℤ) (p.toNat + d.toInt) else limit := by
  have bounds := signedChar_bounds d
  have small := edge.small
  simp only [moveAxis, maxmin, BitVec.toNat_ofInt]
  split_ifs <;> omega

theorem moveAxis_le : (moveAxis limit p d).toNat ≤ limit := by
  have reached := moveAxis_toNat edge inside d
  split_ifs at reached <;> omega

theorem moveAxis_saturates_iff :
    ((moveAxis limit p d).toNat : ℤ) = min (limit : ℤ) (max 0 (p.toNat + d.toInt)) ↔
      0 ≤ (p.toNat : ℤ) + d.toInt := by
  have wide := edge.wide
  rw [moveAxis_toNat edge inside d]
  split_ifs <;> omega

theorem moveAxis_eq_iff : moveAxis limit p d = p ↔ d = 0 ∨ p.toNat = limit ∧ 0 < d.toInt := by
  have bounds := signedChar_bounds d
  have wide := edge.wide
  have reached := moveAxis_toNat edge inside d
  have same : moveAxis limit p d = p ↔ ((moveAxis limit p d).toNat : ℤ) = p.toNat := by
    rw [Nat.cast_inj, BitVec.toNat_inj]
  have still : d = 0 ↔ d.toInt = 0 := BitVec.toInt_inj.symm
  rw [same, reached, still]
  split_ifs <;> omega

end Axis

/-! ## Runs -/

structure Mouse.OnScreen (m : Mouse) : Prop where
  px_le : m.px.toNat ≤ 639
  py_le : m.py.toNat ≤ 479

theorem initial_onScreen : Mouse.initial.OnScreen := ⟨by decide, by decide⟩

theorem turn_px (p : Poll) (m : Mouse) : (turn p m).px = moveAxis 639 m.px (p.dxAfter m.dx) := by
  rw [turn, move, decode_px, decode_dx]

theorem turn_py (p : Poll) (m : Mouse) : (turn p m).py = moveAxis 479 m.py (p.dyAfter m.dy) := by
  rw [turn, move, decode_py, decode_dy]

theorem turn_dx (p : Poll) (m : Mouse) : (turn p m).dx = p.dxAfter m.dx := decode_dx p m

theorem turn_dy (p : Poll) (m : Mouse) : (turn p m).dy = p.dyAfter m.dy := decode_dy p m

theorem turn_onScreen {m : Mouse} (inside : m.OnScreen) (p : Poll) : (turn p m).OnScreen where
  px_le := turn_px p m ▸ moveAxis_le farEdge_px inside.px_le _
  py_le := turn_py p m ▸ moveAxis_le farEdge_py inside.py_le _

section Run

variable (polls : ℕ → Poll)

def mouse (turns : ℕ) : Mouse := trajectory turn polls Mouse.initial turns

theorem mouse_succ (n : ℕ) : mouse polls (n + 1) = turn (polls n) (mouse polls n) := rfl

theorem mouse_onScreen (n : ℕ) : (mouse polls n).OnScreen :=
  trajectory_invariant Mouse.OnScreen (T := 0) initial_onScreen
    (fun t _ _ inside => turn_onScreen inside (polls t)) (Nat.zero_le n)

/-- The cursor saturates at the edges in a run exactly when no report pushes it past zero. -/
theorem mouse_saturates_iff (turns : ℕ) :
    (∀ n < turns,
      ((mouse polls (n + 1)).px.toNat : ℤ) =
        min 639 (max 0 ((mouse polls n).px.toNat + (mouse polls (n + 1)).dx.toInt)) ∧
      ((mouse polls (n + 1)).py.toNat : ℤ) =
        min 479 (max 0 ((mouse polls n).py.toNat + (mouse polls (n + 1)).dy.toInt))) ↔
    ∀ n < turns,
      0 ≤ ((mouse polls n).px.toNat : ℤ) + ((polls n).dxAfter (mouse polls n).dx).toInt ∧
      0 ≤ ((mouse polls n).py.toNat : ℤ) + ((polls n).dyAfter (mouse polls n).dy).toInt := by
  refine forall₂_congr fun n _ => ?_
  obtain ⟨px_le, py_le⟩ := mouse_onScreen polls n
  rw [mouse_succ, turn_px, turn_py, turn_dx, turn_dy]
  exact and_congr (moveAxis_saturates_iff farEdge_px px_le _)
    (moveAxis_saturates_iff farEdge_py py_le _)

/-- Two reports upwards from the middle: the second ends at the bottom. -/
theorem mouse_jumps :
    let polls : ℕ → Poll := fun n => ⟨0x03, 4, 0, if n = 0 then 0x80 else 0x81⟩
    (mouse polls 1).py = 112 ∧ (mouse polls 2).dy.toInt = -127 ∧ (mouse polls 2).py = 479 ∧
    ¬ ((mouse polls 2).py.toNat : ℤ) =
      min 479 (max 0 ((mouse polls 1).py.toNat + (mouse polls 2).dy.toInt)) := by
  decide

/-- Zero bytes leave the cursor where it is in a run exactly when at each of them no
displacement is held, or the one held pushes against the far edge. -/
theorem mouse_still_iff (turns : ℕ) :
    (∀ n < turns, (polls n).Completed →
      ((polls n).xByte = 0 → (mouse polls (n + 1)).px = (mouse polls n).px) ∧
      ((polls n).yByte = 0 → (mouse polls (n + 1)).py = (mouse polls n).py)) ↔
    ∀ n < turns, (polls n).Completed →
      ((polls n).xByte = 0 →
        (mouse polls n).dx = 0 ∨ (mouse polls n).px.toNat = 639 ∧ 0 < (mouse polls n).dx.toInt) ∧
      ((polls n).yByte = 0 →
        (mouse polls n).dy = 0 ∨
          (mouse polls n).py.toNat = 479 ∧ 0 < (mouse polls n).dy.toInt) := by
  refine forall₃_congr fun n _ done => ?_
  obtain ⟨px_le, py_le⟩ := mouse_onScreen polls n
  rw [mouse_succ, turn_px, turn_py]
  refine and_congr (imp_congr_right fun still => ?_) (imp_congr_right fun still => ?_)
  · rw [Poll.dxAfter, still, after_zero done]
    exact moveAxis_eq_iff farEdge_px px_le _
  · rw [Poll.dyAfter, still, after_zero done]
    exact moveAxis_eq_iff farEdge_py py_le _

/-- A report of five to the right and one of none: both move the cursor. -/
theorem mouse_drifts :
    let polls : ℕ → Poll := fun n => ⟨0x03, 4, if n = 0 then 0x0500 else 0, 0⟩
    (polls 1).Completed ∧ (polls 1).xByte = 0 ∧
    (mouse polls 1).px = 325 ∧ (mouse polls 2).px = 330 := by
  decide

end Run

/-! ## What a turn shows -/

section Shown

variable (c : VgaNiosCtrl) (state : BitVec 3) (outputs : Hardware.Outputs)

theorem write_display (i : Fin 11) (value : BitVec 16) :
    c.write (ramSize + 1 + i.val) value =
      { c with display := Function.update c.display i (value.setWidth 10) } := by
  have other (j : ℕ) (apart : i.val + 1 ≠ j) : ramSize + 1 + i.val ≠ ramSize + j := by omega
  simp only [VgaNiosCtrl.write, other 0 (by omega), other 12 (by omega), other 13 (by omega),
    other 14 (by omega), other 17 (by omega), if_false]
  congr 1
  funext j
  by_cases same : j = i
  · rw [same, Function.update_self, if_pos rfl]
  · rw [Function.update_of_ne same, if_neg fun at_j => same (Fin.ext (by omega))]

theorem perform_cursorX (value : BitVec 16) : c.perform state outputs (vgaCursorX value) =
    { c with display := Function.update c.display 0 (value.setWidth 10) } :=
  write_display c 0 value

theorem perform_cursorY (value : BitVec 16) : c.perform state outputs (vgaCursorY value) =
    { c with display := Function.update c.display 1 (value.setWidth 10) } :=
  write_display c 1 value

theorem Mouse.OnScreen.pixel {m : Mouse} (inside : m.OnScreen) : m.pixel.OnScreen where
  x_nonneg := Int.natCast_nonneg _
  x_lt := Int.ofNat_lt.mpr (Nat.lt_succ_of_le inside.px_le)
  y_nonneg := Int.natCast_nonneg _
  y_lt := Int.ofNat_lt.mpr (Nat.lt_succ_of_le inside.py_le)

theorem perform_shown {m : Mouse} (inside : m.OnScreen) :
    m.shown.foldl (fun c access => c.perform state outputs access) c =
      { c with display :=
          Function.update (Function.update c.display 0 (m.px.setWidth 10)) 1 (m.py.setWidth 10) } := by
  rw [Mouse.shown, List.foldl_cons, List.foldl_cons, perform_cursorX, perform_cursorY]
  split_ifs
  · exact perform_setPixel _ state outputs inside.pixel
  · exact perform_clrPixel _ state outputs inside.pixel
  · rfl

/-- After every turn of a run the cursor registers hold the position, and the registers
of the accelerator what they held before. -/
theorem mouse_shown (polls : ℕ → Poll) (n : ℕ) :
    let m := mouse polls n
    let after := m.shown.foldl (fun c access => c.perform state outputs access) c
    (after.display 0).toNat = m.px.toNat ∧ (after.display 1).toNat = m.py.toNat ∧
      { after with display := c.display } = c := by
  intro m after
  have inside : m.OnScreen := mouse_onScreen polls n
  have shown : after = _ := perform_shown c state outputs inside
  have fits (value : BitVec 16) (lt : value.toNat < 2 ^ 10) :
      (value.setWidth 10).toNat = value.toNat := by
    rw [BitVec.toNat_setWidth, Nat.mod_eq_of_lt lt]
  rw [shown]
  dsimp only
  refine ⟨?_, ?_, rfl⟩
  · rw [Function.update_of_ne (by decide), Function.update_self,
      fits _ (Nat.lt_of_le_of_lt inside.px_le (by decide))]
  · rw [Function.update_self, fits _ (Nat.lt_of_le_of_lt inside.py_le (by decide))]

end Shown

end PathAccelerator.Display
