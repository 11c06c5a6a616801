import PathAccelerator.Arithmetic.ErrorTerm
import PathAccelerator.Host.MinPath
import PathAccelerator.Host.Registers
import Mathlib.Data.Int.Order.Lemmas

/-! The function VGA_line.

Coordinates are clamped to the screen first, so every later value of the function is
far inside the range of `int`.
-/

set_option autoImplicit false

namespace PathAccelerator.Display

open Arithmetic Host

/-! ## Pixels -/

/-- The arguments of `Vga_Set_Pixel` after `base`. -/
structure Pixel where
  x : ℤ
  y : ℤ
  deriving DecidableEq

/-- `y*VGA_WIDTH+x`, the word the pixel is written to. -/
def Pixel.offset (p : Pixel) : ℤ := p.y * 640 + p.x

def vgaSetPixel (p : Pixel) : Access := .write p.offset.toNat 1
def vgaClrPixel (p : Pixel) : Access := .write p.offset.toNat 0

structure Pixel.OnScreen (p : Pixel) : Prop where
  x_nonneg : 0 ≤ p.x
  x_lt : p.x < 640
  y_nonneg : 0 ≤ p.y
  y_lt : p.y < 480

theorem Pixel.OnScreen.offset_bounds {p : Pixel} (inside : p.OnScreen) :
    0 ≤ p.offset ∧ p.offset < osdMemAddr := by
  obtain ⟨left, right, top, bottom⟩ := inside
  unfold offset osdMemAddr
  omega

theorem Pixel.OnScreen.address_lt {p : Pixel} (inside : p.OnScreen) : p.offset.toNat < ramSize := by
  obtain ⟨nonneg, lt⟩ := inside.offset_bounds
  unfold osdMemAddr at lt
  unfold ramSize
  omega

theorem write_pixel (c : VgaNiosCtrl) {address : ℕ} (below : address < ramSize)
    (value : BitVec 16) : c.write address value = c := by
  have other (i : ℕ) : address ≠ ramSize + i := by omega
  have shown (i : Fin 11) : address ≠ ramSize + 1 + i.val := by omega
  simp only [VgaNiosCtrl.write, other, shown, if_false]

section Pixels

variable (c : VgaNiosCtrl) (state : BitVec 3) (outputs : Hardware.Outputs) {p : Pixel}
  (inside : p.OnScreen)

include inside

theorem perform_setPixel : c.perform state outputs (vgaSetPixel p) = c :=
  write_pixel c inside.address_lt 1

theorem perform_clrPixel : c.perform state outputs (vgaClrPixel p) = c :=
  write_pixel c inside.address_lt 0

omit inside in
theorem foldl_setPixel {pixels : List Pixel} (inside : ∀ p ∈ pixels, p.OnScreen) :
    pixels.foldl (fun c p => c.perform state outputs (vgaSetPixel p)) c = c := by
  induction pixels with
  | nil => rfl
  | cons p pixels ih =>
    rw [List.forall_mem_cons] at inside
    rw [List.foldl_cons, perform_setPixel c state outputs inside.1, ih inside.2]

end Pixels

/-! ## The loop -/

/-- The variables x, y and e. -/
structure Pen where
  x : ℤ
  y : ℤ
  e : ℤ

/-- The body of the loop after the pixel is set. -/
def lineStep (dx dy s1 s2 : ℤ) (xchange : Bool) (p : Pen) : Pen :=
  let turned :=
    if p.e ≥ 0 then
      if xchange then { p with x := p.x + s1, e := p.e - 2 * dx }
      else { p with y := p.y + s2, e := p.e - 2 * dx }
    else p
  let moved := if xchange then { turned with y := turned.y + s2 } else { turned with x := turned.x + s1 }
  { moved with e := moved.e + 2 * dy }

def lineLoop (dx dy s1 s2 : ℤ) (xchange : Bool) : ℕ → Pen → List Pixel
  | 0, _ => []
  | turns + 1, p => ⟨p.x, p.y⟩ :: lineLoop dx dy s1 s2 xchange turns (lineStep dx dy s1 s2 xchange p)

def vgaLine (x1 y1 x2 y2 : ℤ) : List Pixel :=
  let x1 := if x1 > 639 then 639 else x1
  let y1 := if y1 > 479 then 479 else y1
  let x2 := if x2 > 639 then 639 else x2
  let y2 := if y2 > 479 then 479 else y2
  let x1 := if x1 < 0 then 0 else x1
  let y1 := if y1 < 0 then 0 else y1
  let x2 := if x2 < 0 then 0 else x2
  let y2 := if y2 < 0 then 0 else y2
  let (dx, s1) := if x2 < x1 then (x1 - x2, -1) else if x2 = x1 then (0, 0) else (x2 - x1, 1)
  let (dy, s2) := if y2 < y1 then (y1 - y2, -1) else if y2 = y1 then (0, 0) else (y2 - y1, 1)
  let (dx, dy, xchange) := if dy > dx then (dy, dx, true) else (dx, dy, false)
  -- The loop runs while j, counted from 0, is at most dx.
  lineLoop dx dy s1 s2 xchange (dx + 1).toNat ⟨x1, y1, 2 * dy - dx⟩

/-! ## The line it stands for -/

/-- The point of the screen closest to the given one. -/
def Pixel.clamp (x y : ℤ) : Pixel := ⟨max 0 (min 639 x), max 0 (min 479 y)⟩

theorem Pixel.clamp_onScreen (x y : ℤ) : (Pixel.clamp x y).OnScreen := by
  constructor <;> dsimp only [clamp] <;> omega

theorem clamp_x (x y : ℤ) : (if (if x > 639 then 639 else x) < 0 then 0
    else if x > 639 then 639 else x) = (Pixel.clamp x y).x := by
  dsimp only [Pixel.clamp]
  split_ifs <;> omega

theorem clamp_y (x y : ℤ) : (if (if y > 479 then 479 else y) < 0 then 0
    else if y > 479 then 479 else y) = (Pixel.clamp x y).y := by
  dsimp only [Pixel.clamp]
  split_ifs <;> omega

def toward (a b : ℤ) (distance : ℕ) : ℤ := a + (b - a).sign * distance

/-- The pixel at a distance from the first end along the longer axis, which is the
x axis on a tie. -/
def linePixel (a b : Pixel) (step : ℕ) : Pixel :=
  let M := max (b.x - a.x).natAbs (b.y - a.y).natAbs
  let m := min (b.x - a.x).natAbs (b.y - a.y).natAbs
  if (b.y - a.y).natAbs ≤ (b.x - a.x).natAbs then
    ⟨toward a.x b.x step, toward a.y b.y (rounded m M step)⟩
  else ⟨toward a.x b.x (rounded m M step), toward a.y b.y step⟩

theorem axis_eq (a b : ℤ) :
    (if b < a then (a - b, -1) else if b = a then (0, 0) else (b - a, 1)) =
      (((b - a).natAbs : ℤ), (b - a).sign) := by
  split_ifs with back same
  · rw [Int.sign_eq_neg_one_of_neg (by omega)]
    congr 1
    omega
  · simp [same]
  · rw [Int.sign_eq_one_of_pos (by omega)]
    congr 1
    omega

section Loop

variable {x1 y1 s1 s2 : ℤ} {xchange : Bool} {m M : ℕ}

def penAt (x1 y1 s1 s2 : ℤ) (xchange : Bool) (m M step : ℕ) : Pen :=
  if xchange then ⟨x1 + s1 * rounded m M step, y1 + s2 * step, errorTerm m M step⟩
  else ⟨x1 + s1 * step, y1 + s2 * rounded m M step, errorTerm m M step⟩

theorem lineStep_penAt (positive : 0 < M) (le : m ≤ M) (step : ℕ) :
    lineStep M m s1 s2 xchange (penAt x1 y1 s1 s2 xchange m M step) =
      penAt x1 y1 s1 s2 xchange m M (step + 1) := by
  rcases lt_or_ge (errorTerm m M step) 0 with down | up
  · have kept := rounded_succ_of_neg positive down
    have moved := errorTerm_succ_of_neg positive down
    cases xchange <;> simp [lineStep, penAt, kept, moved, Int.not_le.mpr down] <;> ring
  · have raised := rounded_succ_of_nonneg positive le up
    have moved := errorTerm_succ_of_nonneg positive le up
    cases xchange <;> simp [lineStep, penAt, raised, moved, up] <;> constructor <;> ring

theorem lineLoop_eq (le : m ≤ M) {step turns : ℕ} (total : step + turns = M + 1) :
    lineLoop M m s1 s2 xchange turns (penAt x1 y1 s1 s2 xchange m M step) =
      (List.range' step turns).map fun j =>
        let pen := penAt x1 y1 s1 s2 xchange m M j
        ⟨pen.x, pen.y⟩ := by
  induction turns generalizing step with
  | zero => rfl
  | succ turns ih =>
    rw [lineLoop, List.range'_succ, List.map_cons]
    congr 1
    cases turns with
    | zero => rfl
    | succ turns =>
      -- Another turn follows, so the axis is not of length zero.
      rw [lineStep_penAt (by omega) le]
      exact ih (by omega)

theorem penAt_zero : penAt x1 y1 s1 s2 xchange m M 0 = ⟨x1, y1, 2 * m - M⟩ := by
  cases xchange <;> simp [penAt, errorTerm_zero]

theorem penAt_e_bounds (le : m ≤ M) (step : ℕ) :
    -(2 * M : ℤ) ≤ (penAt x1 y1 s1 s2 xchange m M step).e ∧
      (penAt x1 y1 s1 s2 xchange m M step).e ≤ 2 * M := by
  have term : (penAt x1 y1 s1 s2 xchange m M step).e = errorTerm m M step := by
    cases xchange <;> rfl
  rw [term]
  rcases Nat.eq_zero_or_pos M with rfl | positive
  · simp [Nat.le_zero.mp le, errorTerm]
  · have bounds := errorTerm_bounds positive m step
    omega

theorem lineLoop_whole (le : m ≤ M) :
    lineLoop M m s1 s2 xchange ((M : ℤ) + 1).toNat ⟨x1, y1, 2 * m - M⟩ =
      (List.range (M + 1)).map fun j =>
        let pen := penAt x1 y1 s1 s2 xchange m M j
        ⟨pen.x, pen.y⟩ := by
  rw [List.range_eq_range', ← penAt_zero]
  exact lineLoop_eq le (Nat.zero_add _)

end Loop

theorem lineLoop_axes (a b : Pixel) :
    (let (dx, dy, xchange) :=
      if ((b.y - a.y).natAbs : ℤ) > (b.x - a.x).natAbs
        then (((b.y - a.y).natAbs : ℤ), ((b.x - a.x).natAbs : ℤ), true)
        else (((b.x - a.x).natAbs : ℤ), ((b.y - a.y).natAbs : ℤ), false)
    lineLoop dx dy (b.x - a.x).sign (b.y - a.y).sign xchange (dx + 1).toNat ⟨a.x, a.y, 2 * dy - dx⟩) =
      (List.range (max (b.x - a.x).natAbs (b.y - a.y).natAbs + 1)).map (linePixel a b) := by
  by_cases steep : (b.x - a.x).natAbs < (b.y - a.y).natAbs
  · have flat : ¬ (b.y - a.y).natAbs ≤ (b.x - a.x).natAbs := Nat.not_le.mpr steep
    simp only [gt_iff_lt, Nat.cast_lt, steep, if_true, lineLoop_whole (le_of_lt steep)]
    rw [max_eq_right (le_of_lt steep)]
    congr 1
    funext step
    simp only [linePixel, flat, if_false, penAt, if_true, max_eq_right (le_of_lt steep),
      min_eq_left (le_of_lt steep), toward]
  · have flat : (b.y - a.y).natAbs ≤ (b.x - a.x).natAbs := Nat.not_lt.mp steep
    simp only [gt_iff_lt, Nat.cast_lt, steep, if_false, lineLoop_whole flat]
    rw [max_eq_left flat]
    congr 1
    funext step
    simp only [linePixel, flat, if_true, penAt, Bool.false_eq_true, if_false, max_eq_left flat,
      min_eq_right flat, toward]

theorem vgaLine_eq_map (x1 y1 x2 y2 : ℤ) :
    let a := Pixel.clamp x1 y1
    let b := Pixel.clamp x2 y2
    vgaLine x1 y1 x2 y2 =
      (List.range (max (b.x - a.x).natAbs (b.y - a.y).natAbs + 1)).map (linePixel a b) := by
  intro a b
  simp only [vgaLine, clamp_x x1 y1, clamp_y x1 y1, clamp_x x2 y2, clamp_y x2 y2, axis_eq]
  exact lineLoop_axes a b

/-! ## Ends and bounds -/

@[simp] theorem toward_zero (a b : ℤ) : toward a b 0 = a := by simp [toward]

@[simp] theorem toward_full (a b : ℤ) : toward a b (b - a).natAbs = b := by
  rw [toward, Int.sign_mul_natAbs]
  ring

theorem toward_bounds {a b : ℤ} {distance : ℕ} (le : distance ≤ (b - a).natAbs) :
    min a b ≤ toward a b distance ∧ toward a b distance ≤ max a b := by
  unfold toward
  rcases lt_trichotomy (b - a) 0 with back | same | ahead
  · rw [Int.sign_eq_neg_one_of_neg back]
    omega
  · rw [same, Int.sign_zero]
    omega
  · rw [Int.sign_eq_one_of_pos ahead]
    omega

section Line

variable (a b : Pixel)

theorem linePixel_first : linePixel a b 0 = a := by
  simp [linePixel]

theorem linePixel_last :
    linePixel a b (max (b.x - a.x).natAbs (b.y - a.y).natAbs) = b := by
  by_cases flat : (b.y - a.y).natAbs ≤ (b.x - a.x).natAbs
  · simp [linePixel, flat, rounded_full]
  · have steep := le_of_lt (Nat.not_le.mp flat)
    simp [linePixel, flat, steep, rounded_full]

variable {a b} {step : ℕ} (inside : step ≤ max (b.x - a.x).natAbs (b.y - a.y).natAbs)

include inside

theorem linePixel_bounds :
    (min a.x b.x ≤ (linePixel a b step).x ∧ (linePixel a b step).x ≤ max a.x b.x) ∧
    (min a.y b.y ≤ (linePixel a b step).y ∧ (linePixel a b step).y ≤ max a.y b.y) := by
  have short := rounded_le min_le_max inside
  by_cases flat : (b.y - a.y).natAbs ≤ (b.x - a.x).natAbs
  · rw [max_eq_left flat] at inside
    simp only [linePixel, flat, if_true]
    exact ⟨toward_bounds inside, toward_bounds (short.trans (min_le_right _ _))⟩
  · rw [max_eq_right (le_of_lt (Nat.not_le.mp flat))] at inside
    simp only [linePixel, flat, if_false]
    exact ⟨toward_bounds (short.trans (min_le_left _ _)), toward_bounds inside⟩

theorem linePixel_onScreen (first : a.OnScreen) (last : b.OnScreen) :
    (linePixel a b step).OnScreen := by
  obtain ⟨⟨left, right⟩, ⟨top, bottom⟩⟩ := linePixel_bounds inside
  obtain ⟨a_left, a_right, a_top, a_bottom⟩ := first
  obtain ⟨b_left, b_right, b_top, b_bottom⟩ := last
  constructor <;> omega

end Line

theorem vgaLine_onScreen (x1 y1 x2 y2 : ℤ) : ∀ p ∈ vgaLine x1 y1 x2 y2, p.OnScreen := by
  rw [vgaLine_eq_map]
  intro p member
  obtain ⟨j, inside, rfl⟩ := List.mem_map.mp member
  exact linePixel_onScreen (Nat.le_of_lt_succ (List.mem_range.mp inside))
    (Pixel.clamp_onScreen x1 y1) (Pixel.clamp_onScreen x2 y2)

/-- VGA_line writes to the frame buffer only, and draws the rounded line between the
clamped ends. -/
theorem vgaLine_correct (x1 y1 x2 y2 : ℤ) :
    (∀ p ∈ vgaLine x1 y1 x2 y2, 0 ≤ p.offset ∧ p.offset < 640 * 480 ∧
      ∀ c state outputs, VgaNiosCtrl.perform c state outputs (vgaSetPixel p) = c) ∧
    let X1 := max 0 (min 639 x1)
    let Y1 := max 0 (min 479 y1)
    let X2 := max 0 (min 639 x2)
    let Y2 := max 0 (min 479 y2)
    let M := max (X2 - X1).natAbs (Y2 - Y1).natAbs
    let m := min (X2 - X1).natAbs (Y2 - Y1).natAbs
    let written := vgaLine x1 y1 x2 y2
    written.length = M + 1 ∧
    (∀ j ≤ M,
      let across := if M = 0 then 0 else (2 * j * m + M) / (2 * M)
      written[j]? = some
        (if (Y2 - Y1).natAbs ≤ (X2 - X1).natAbs
          then ⟨X1 + (X2 - X1).sign * j, Y1 + (Y2 - Y1).sign * across⟩
          else ⟨X1 + (X2 - X1).sign * across, Y1 + (Y2 - Y1).sign * j⟩)) ∧
    written.head? = some ⟨X1, Y1⟩ ∧
    written.getLast? = some ⟨X2, Y2⟩ := by
  refine ⟨fun p member => ?_, ?_⟩
  · have onScreen := vgaLine_onScreen x1 y1 x2 y2 p member
    exact ⟨onScreen.offset_bounds.1, onScreen.offset_bounds.2,
      fun c state outputs => perform_setPixel c state outputs onScreen⟩
  intro X1 Y1 X2 Y2 M m written
  have listed : written = (List.range (M + 1)).map (linePixel ⟨X1, Y1⟩ ⟨X2, Y2⟩) :=
    vgaLine_eq_map x1 y1 x2 y2
  refine ⟨by simp [listed], fun j inside => ?_, ?_, ?_⟩
  · have across : (if M = 0 then 0 else (2 * j * m + M) / (2 * M)) = rounded m M j := by
      split_ifs with point
      · simp [rounded, point]
      · rfl
    rw [across, listed, List.getElem?_map, List.getElem?_range (Nat.lt_succ_of_le inside)]
    rfl
  · rw [listed, List.range_succ_eq_map, List.map_cons, List.head?_cons, linePixel_first]
  · rw [listed, List.range_succ, List.map_append, List.map_singleton, List.getLast?_concat]
    exact congrArg some (linePixel_last ⟨X1, Y1⟩ ⟨X2, Y2⟩)

example : vgaLine (-5) 0 3 1 = [⟨0, 0⟩, ⟨1, 0⟩, ⟨2, 1⟩, ⟨3, 1⟩] := by decide

def pixels (path : List Output) : List Pixel :=
  (drawn path).flatMap fun line => vgaLine line.x1 line.y1 line.x2 line.y2

theorem foldl_pixels (c : VgaNiosCtrl) (state : BitVec 3) (outputs : Hardware.Outputs)
    (path : List Output) :
    (pixels path).foldl (fun c p => c.perform state outputs (vgaSetPixel p)) c = c := by
  apply foldl_setPixel
  intro p member
  obtain ⟨line, -, member⟩ := List.mem_flatMap.mp member
  exact vgaLine_onScreen _ _ _ _ p member

end PathAccelerator.Display
