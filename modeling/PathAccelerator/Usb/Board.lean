import PathAccelerator.Display.Painting
import PathAccelerator.Display.Raster
import PathAccelerator.Usb.Reports

/-! What main shows on the board.

The digits, the LEDs, the registers of the screen and its memory are changed at the end of a
turn and nowhere else, so they agree with the position of the mouse at every read.
-/

set_option autoImplicit false

namespace PathAccelerator.Usb

open Display Host Semantics Hardware

/-! ## Outputs -/

/-- The outputs with their registers: LEDR has 18 bits and LEDG 9. -/
structure Board where
  seg7 : Seg7If
  ledr : BitVec 18
  ledg : BitVec 9
  slave : VgaNiosCtrl
  ram : ImgRam

section Perform

variable (state : BitVec 3) (outputs : Outputs)

def Board.perform (b : Board) : Action → Board
  | .seg7Set index segMask => { b with seg7 := b.seg7.perform [(index, segMask)] }
  | .ledr px => { b with ledr := px.setWidth 18 }
  | .ledg py => { b with ledg := py.setWidth 9 }
  | .vpg access =>
    { b with slave := b.slave.perform state outputs access, ram := b.ram.perform access }
  | .iowr _ _ | .usleep _ => b

def Board.run (b : Board) (actions : List Action) : Board :=
  actions.foldl (Board.perform state outputs) b

namespace Board

variable (b : Board)

@[simp] theorem run_nil : b.run state outputs [] = b := rfl

@[simp] theorem run_append (first last : List Action) :
    b.run state outputs (first ++ last) = (b.run state outputs first).run state outputs last :=
  List.foldl_append

@[simp] theorem run_cons (action : Action) (actions : List Action) :
    b.run state outputs (action :: actions) = (b.perform state outputs action).run state outputs actions :=
  rfl

@[simp] theorem perform_iowr (port : Port) (value : BitVec 16) :
    b.perform state outputs (.iowr port value) = b := rfl

@[simp] theorem perform_usleep (microseconds : ℕ) :
    b.perform state outputs (.usleep microseconds) = b := rfl

@[simp] theorem run_usbWrite (address data : BitVec 16) :
    b.run state outputs (usbWrite address data) = b := rfl

@[simp] theorem run_usbRead (address : BitVec 16) : b.run state outputs (usbRead address) = b := rfl

@[simp] theorem run_submit (words : List (BitVec 16)) : b.run state outputs (submit words) = b := by
  have block : b.run state outputs (words.map (Action.iowr .data)) = b := by
    induction words with
    | nil => rfl
    | cons word words ih => exact ih
  simp [submit, block]

@[simp] theorem run_sie1Init : b.run state outputs sie1Init = b := rfl

@[simp] theorem run_husbReset : b.run state outputs husbReset = b := rfl

theorem run_shows (m : Mouse) : b.run state outputs (shows m) =
    { seg7 := b.seg7.perform (seg7Hex ((m.px.setWidth 32 <<< 16) + m.py.setWidth 32) 0)
      ledr := m.px.setWidth 18
      ledg := m.py.setWidth 9
      slave := m.shown.foldl (fun c access => c.perform state outputs access) b.slave
      ram := m.shown.foldl ImgRam.perform b.ram } := by
  have digits (b : Board) (calls : List (ℕ × BitVec 8)) :
      b.run state outputs (calls.map fun call => .seg7Set call.1 call.2) =
        { b with seg7 := b.seg7.perform calls } := by
    induction calls generalizing b with
    | nil => rfl
    | cons call calls ih => exact ih (b.perform state outputs (.seg7Set call.1 call.2))
  have screen (b : Board) (accesses : List Access) : b.run state outputs (accesses.map Action.vpg) =
      { b with
        slave := accesses.foldl (fun c access => c.perform state outputs access) b.slave
        ram := accesses.foldl ImgRam.perform b.ram } := by
    induction accesses generalizing b with
    | nil => rfl
    | cons access accesses ih => exact ih (b.perform state outputs (.vpg access))
  rw [shows, run_append, run_append, digits, screen]
  rfl

end Board

theorem pass_run (b : Board) (σ : Main) (r : Request) : b.run state outputs (σ.pass r).1 = b := by
  cases r <;> simp [Main.pass, Main.request, Main.poll]

theorem step_run (b : Board) (v : BitVec 16) (σ : Main) : b.run state outputs (σ.step v).1 =
    match σ.report v with
    | some p => b.run state outputs (shows (turn p σ.mouse))
    | none => b := by
  unfold Main.step Main.report
  split <;> rename_i at_point
  all_goals try split_ifs
  all_goals simp_all [Main.hotPlug, Main.request, Main.poll, Main.turned, pass_run]

/-! ## Agreement -/

structure Board.Agrees (b : Board) (m : Mouse) : Prop where
  digits : b.seg7.reading 16 = m.px.toNat * 65536 + m.py.toNat
  ledr : b.ledr.toNat = m.px.toNat
  ledg : b.ledg.toNat = m.py.toNat
  cursorX : (iCursorX b.slave).toNat = m.px.toNat
  cursorY : (iCursorY b.slave).toNat = m.py.toNat

theorem agrees_of_shows (b : Board) {m : Mouse} (inside : m.OnScreen) :
    (b.run state outputs (shows m)).Agrees m := by
  have px_le := inside.px_le
  have py_le := inside.py_le
  -- The two halves of the number do not overlap.
  have number : ((m.px.setWidth 32 <<< 16) + m.py.setWidth 32).toNat =
      m.px.toNat * 65536 + m.py.toNat := by
    simp only [BitVec.toNat_add, BitVec.toNat_shiftLeft, BitVec.toNat_setWidth, Nat.shiftLeft_eq]
    omega
  obtain ⟨digits, -⟩ := base_hex.shown b.seg7
    ((m.px.setWidth 32 <<< 16) + m.py.setWidth 32) 0 (by decide) (by decide)
  have register {w : ℕ} {p : BitVec 16} {limit : ℕ} (below : p.toNat ≤ limit) (fits : limit < 2 ^ w) :
      (p.setWidth w).toNat = p.toNat := by
    rw [BitVec.toNat_setWidth, Nat.mod_eq_of_lt (below.trans_lt fits)]
  have screen := perform_shown b.slave state outputs inside
  rw [Board.run_shows]
  constructor
  · exact digits.trans (by rw [number]; omega)
  · exact register px_le (by decide)
  · exact register py_le (by decide)
  · dsimp only [iCursorX]
    rw [screen]
    simpa using register (w := 10) px_le (by decide)
  · dsimp only [iCursorY]
    rw [screen]
    simpa using register (w := 10) py_le (by decide)

/-! ## Runs -/

section Run

variable (values : ℕ → BitVec 16) (σ₀ : Main) (b₀ : Board)

def boardAt : ℕ → Board
  | 0 => b₀
  | t + 1 => (boardAt t).run state outputs ((run values σ₀ t).step (values t)).1

variable {polls : ℕ → Poll} (at_place : ∀ t n, n < (reports values σ₀ t).length →
  (reports values σ₀ t)[n]? = some (polls n))

include at_place

theorem read_cases (t : ℕ) :
    (run values σ₀ t).report (values t) = none ∧
      (reports values σ₀ (t + 1)).length = (reports values σ₀ t).length ∨
    (run values σ₀ t).report (values t) = some (polls (reports values σ₀ t).length) ∧
      (reports values σ₀ (t + 1)).length = (reports values σ₀ t).length + 1 := by
  have grown := reports_succ values σ₀ t
  cases report : (run values σ₀ t).report (values t) with
  | none =>
    rw [report, Option.toList_none, List.append_nil] at grown
    exact .inl ⟨rfl, congrArg List.length grown⟩
  | some p =>
    rw [report, Option.toList_some] at grown
    have place := at_place (t + 1) (reports values σ₀ t).length (by simp [grown])
    have latest : p = polls (reports values σ₀ t).length := by simpa [grown] using place
    exact .inr ⟨congrArg some latest, by simp [grown]⟩

theorem run_follows (start : σ₀.mouse = Mouse.initial) (t : ℕ) :
    (run values σ₀ t).mouse = mouse polls (reports values σ₀ t).length ∧
      (boardAt state outputs values σ₀ b₀ t).ram = painted polls b₀.ram (reports values σ₀ t).length := by
  induction t with
  | zero => exact ⟨start, rfl⟩
  | succ t ih =>
    obtain ⟨same, drawn⟩ := ih
    have turned := mouse_succ polls (reports values σ₀ t).length
    rw [run_succ, next_mouse, boardAt, step_run]
    rcases read_cases values σ₀ at_place t with ⟨report, length⟩ | ⟨report, length⟩ <;>
      rw [report, length]
    · exact ⟨same, drawn⟩
    · dsimp only
      rw [same, ← turned]
      exact ⟨rfl, by rw [Board.run_shows, painted, ← drawn]⟩

theorem run_agrees (start : σ₀.mouse = Mouse.initial) (t : ℕ) (turned : 0 < (reports values σ₀ t).length) :
    (boardAt state outputs values σ₀ b₀ t).Agrees (run values σ₀ t).mouse := by
  induction t with
  | zero => exact absurd turned (Nat.lt_irrefl 0)
  | succ t ih =>
    have same := (run_follows state outputs values σ₀ b₀ at_place start t).1
    have next := mouse_succ polls (reports values σ₀ t).length
    rw [run_succ, next_mouse, boardAt, step_run]
    rcases read_cases values σ₀ at_place t with ⟨report, length⟩ | ⟨report, -⟩ <;> rw [report]
    · exact ih (length ▸ turned)
    · dsimp only
      rw [same, ← next]
      exact agrees_of_shows state outputs _ (mouse_onScreen polls _)

theorem run_leaves (start : σ₀.mouse = Mouse.initial) (t : ℕ) :
    let c := (boardAt state outputs values σ₀ b₀ t).slave
    { c with display := b₀.slave.display } = b₀.slave ∧
      ∀ i : Fin 11, 2 ≤ i.val → c.display i = b₀.slave.display i := by
  induction t with
  | zero => exact ⟨rfl, fun _ _ => rfl⟩
  | succ t ih =>
    have same := (run_follows state outputs values σ₀ b₀ at_place start t).1
    have next := mouse_succ polls (reports values σ₀ t).length
    rw [boardAt, step_run]
    rcases read_cases values σ₀ at_place t with ⟨report, -⟩ | ⟨report, -⟩ <;> rw [report]
    · exact ih
    · dsimp only
      rw [same, ← next, Board.run_shows, perform_shown _ _ _ (mouse_onScreen polls _)]
      refine ⟨ih.1, fun i cursor => ?_⟩
      -- A turn writes the registers 0 and 1, where the cursor is.
      have first : i ≠ 0 := by rintro rfl; exact absurd cursor (by decide)
      have second : i ≠ 1 := by rintro rfl; exact absurd cursor (by decide)
      dsimp only
      rw [Function.update_of_ne second, Function.update_of_ne first]
      exact ih.2 i cursor

end Run

end Perform

/-- main with all its restarts is the mouse loop: the reports that come in drive the locals
and paint the screen as in the loop alone, and the outputs show the position. -/
theorem run_refines_mouse (state : BitVec 3) (outputs : Outputs) (values : ℕ → BitVec 16)
    (dataSize : BitVec 8) (buttonValue : BitVec 32) (b₀ : Board) :
    ∃ polls : ℕ → Poll,
      (∀ t n, n < (reports values (Main.initial dataSize buttonValue) t).length →
        (reports values (Main.initial dataSize buttonValue) t)[n]? = some (polls n)) ∧
      ∀ t,
        let σ := run values (Main.initial dataSize buttonValue) t
        let b := boardAt state outputs values (Main.initial dataSize buttonValue) b₀ t
        let turns := (reports values (Main.initial dataSize buttonValue) t).length
        σ.mouse = mouse polls turns ∧ b.ram = painted polls b₀.ram turns ∧
          (0 < turns → b.Agrees σ.mouse) := by
  obtain ⟨polls, at_place⟩ := exists_polls values (Main.initial dataSize buttonValue)
  refine ⟨polls, at_place, fun t => ?_⟩
  obtain ⟨same, drawn⟩ := run_follows state outputs values _ b₀ at_place rfl t
  exact ⟨same, drawn, run_agrees state outputs values _ b₀ at_place rfl t⟩

end PathAccelerator.Usb
