import PathAccelerator.Display.FrameBuffer
import PathAccelerator.Display.Mouse

/-! What the mouse leaves in the memory of the screen.

A turn writes at most one bit: the left button turns the pixel under the cursor on and
the right one turns it off.
-/

set_option autoImplicit false

namespace PathAccelerator.Display

open Host Semantics

def Mouse.paint (m : Mouse) : Option (BitVec 19 × Bool) :=
  if m.pbutton = 1 then some (m.pixel.cell, true)
  else if m.pbutton = 2 then some (m.pixel.cell, false)
  else none

theorem osdWrite_cursorX (value : BitVec 16) : osdWrite (vgaCursorX value) = none :=
  osdWrite_register (by decide) value

theorem osdWrite_cursorY (value : BitVec 16) : osdWrite (vgaCursorY value) = none :=
  osdWrite_register (by decide) value

theorem filterMap_shown {m : Mouse} (inside : m.OnScreen) :
    m.shown.filterMap osdWrite = m.paint.toList := by
  rw [Mouse.shown, List.filterMap_cons_none (osdWrite_cursorX _),
    List.filterMap_cons_none (osdWrite_cursorY _), Mouse.paint]
  split_ifs
  · rw [List.filterMap_cons_some (osdWrite_setPixel inside.pixel)]
    rfl
  · rw [List.filterMap_cons_some (osdWrite_clrPixel inside.pixel)]
    rfl
  · rfl

def painted (polls : ℕ → Poll) (ram : ImgRam) : ℕ → ImgRam
  | 0 => ram
  | n + 1 => (mouse polls (n + 1)).shown.foldl ImgRam.perform (painted polls ram n)

theorem painted_eq (polls : ℕ → Poll) (ram : ImgRam) (n : ℕ) :
    painted polls ram n = storeUntil (fun k => (mouse polls (k + 1)).paint) ram n := by
  induction n with
  | zero => rfl
  | succ n ih =>
    rw [painted, foldl_perform, filterMap_shown (mouse_onScreen polls (n + 1)), ih]
    rfl

theorem paint_eq_some_iff {m : Mouse} (inside : m.OnScreen) {p : Pixel} (onScreen : p.OnScreen)
    (bit : Bool) : m.paint = some (p.cell, bit) ↔
      m.pixel = p ∧ m.pbutton = if bit then 1 else 2 := by
  have cell : m.pixel.cell = p.cell ↔ m.pixel = p :=
    ⟨inside.pixel.cell_inj onScreen, congrArg Pixel.cell⟩
  by_cases left : m.pbutton = 1
  · cases bit <;> simp [Mouse.paint, left, cell]
  by_cases right : m.pbutton = 2
  · cases bit <;> simp [Mouse.paint, right, cell]
  -- Other buttons, and both at once, write nothing.
  · have idle : ¬ m.pbutton = if bit then 1 else 2 := by
      cases bit
      · exact right
      · exact left
    rw [Mouse.paint, if_neg left, if_neg right]
    exact iff_of_false (by simp) fun both => idle both.2

theorem paint_ne_iff {m : Mouse} (inside : m.OnScreen) {p : Pixel} (onScreen : p.OnScreen) :
    (∀ bit, m.paint ≠ some (p.cell, bit)) ↔ (m.pixel = p → m.pbutton ≠ 1 ∧ m.pbutton ≠ 2) := by
  simp only [ne_eq, paint_eq_some_iff inside onScreen, not_and, Bool.forall_bool, Bool.false_eq_true,
    if_true, if_false]
  constructor
  · intro other at_p
    exact ⟨other.2 at_p, other.1 at_p⟩
  · intro other
    exact ⟨fun at_p => (other at_p).2, fun at_p => (other at_p).1⟩

/-- In every run, a pixel is on exactly when the last turn with a button pressed on it was one
with the left button, or there was none and it was on before. -/
theorem painted_on_iff (polls : ℕ → Poll) (ram : ImgRam) (n : ℕ) (p : Pixel) (onScreen : p.OnScreen) :
    (painted polls ram n).on p = true ↔
      (∃ k < n, (mouse polls (k + 1)).pixel = p ∧ (mouse polls (k + 1)).pbutton = 1 ∧
        ∀ j, k < j → j < n → (mouse polls (j + 1)).pixel = p →
          (mouse polls (j + 1)).pbutton ≠ 1 ∧ (mouse polls (j + 1)).pbutton ≠ 2) ∨
      (∀ j < n, (mouse polls (j + 1)).pixel = p →
        (mouse polls (j + 1)).pbutton ≠ 1 ∧ (mouse polls (j + 1)).pbutton ≠ 2) ∧
        ram.on p = true := by
  have inside (k : ℕ) : (mouse polls (k + 1)).OnScreen := mouse_onScreen polls (k + 1)
  rw [ImgRam.on, painted_eq, storeUntil_eq_iff]
  unfold LastWrite Untouched
  simp only [paint_eq_some_iff (inside _) onScreen, paint_ne_iff (inside _) onScreen, if_true,
    and_assoc]
  rfl

end PathAccelerator.Display
