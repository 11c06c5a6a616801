import PathAccelerator.Display.Route
import PathAccelerator.Host.BuiltIn
import PathAccelerator.Usb.Board

/-! The picture that main makes: first the route, then the mouse. -/

set_option autoImplicit false

namespace PathAccelerator.Usb

open PathAccelerator.Graph Display Hardware Host Semantics

def Pressed (polls : ℕ → Poll) (p : Pixel) (button : BitVec 8) (k : ℕ) : Prop :=
  (mouse polls (k + 1)).pixel = p ∧ (mouse polls (k + 1)).pbutton = button

instance (polls : ℕ → Poll) (p : Pixel) (button : BitVec 8) (k : ℕ) :
    Decidable (Pressed polls p button k) :=
  inferInstanceAs (Decidable (_ ∧ _))

/-- The last press on a pixel was one of the left button, or there was none and it lies on the
route. -/
def Lit (nodes : List (Fin 16)) (polls : ℕ → Poll) (turns : ℕ) (p : Pixel) : Prop :=
  (∃ k < turns, Pressed polls p 1 k ∧
    ∀ j < turns, k < j → ¬ Pressed polls p 1 j ∧ ¬ Pressed polls p 2 j) ∨
  (∀ j < turns, ¬ Pressed polls p 1 j ∧ ¬ Pressed polls p 2 j) ∧ OnRoute xCoord yCoord nodes p

instance (nodes : List (Fin 16)) (polls : ℕ → Poll) (turns : ℕ) (p : Pixel) :
    Decidable (Lit nodes polls turns p) :=
  inferInstanceAs (Decidable (_ ∨ _ ∧ _))

theorem painted_lit_iff {nodes : List (Fin 16)} {memory : ImgRam}
    (route : ∀ p : Pixel, p.OnScreen → (memory.on p = true ↔ OnRoute xCoord yCoord nodes p))
    (polls : ℕ → Poll) (turns : ℕ) {p : Pixel} (onScreen : p.OnScreen) :
    (painted polls memory turns).on p = true ↔ Lit nodes polls turns p := by
  have other (k : ℕ) : ¬ Pressed polls p 1 k ∧ ¬ Pressed polls p 2 k ↔
      ((mouse polls (k + 1)).pixel = p → (mouse polls (k + 1)).pbutton ≠ 1 ∧
        (mouse polls (k + 1)).pbutton ≠ 2) := by
    unfold Pressed
    tauto
  unfold Lit
  rw [painted_on_iff polls memory turns p onScreen, route p onScreen]
  simp only [other]
  simp only [Pressed, and_assoc, forall_comm (α := _ < turns)]

/-- From the end of shortestPathFind on, whatever the mouse and the controller do, a pixel is
on exactly when the last press on it was one of the left button, or there was none and it
lies on the shortest route. -/
theorem main_picture (s dest : Fin 16) (apart : dest ≠ s) (ticks : ℕ → Tick 16)
    (initial : Host.System 16) (begins : initial.program.pc = .setStart) (state : BitVec 3)
    (outputs : Outputs) (reserved : BitVec 4) (t : ℕ)
    (finished : (session mapInitializationVhdl s ticks initial t).program.pc = .finished) :
    let g := (session mapInitializationVhdl s ticks initial t).program.globals xCoord yCoord
    ∃ path nodes, showPath g s dest 16 = some path ∧ Shortest mapInitializationVhdl s dest nodes ∧
      ∀ (board : Board) (values : ℕ → BitVec 16) (dataSize : BitVec 8) (buttonValue : BitVec 32),
      let σ₀ := Main.initial dataSize buttonValue
      let handshake := sessionAccesses mapInitializationVhdl s ticks initial t
      let b₀ := { board with ram := (accesses reserved handshake path).foldl ImgRam.perform board.ram }
      ∃ polls : ℕ → Poll,
        (∀ u n, n < (reports values σ₀ u).length → (reports values σ₀ u)[n]? = some (polls n)) ∧
        ∀ u p, p.OnScreen → ((boardAt state outputs values σ₀ b₀ u).ram.on p = true ↔
          Lit nodes polls (reports values σ₀ u).length p) := by
  intro g
  obtain ⟨nodes, ⟨path, called, -, lines⟩, shortest⟩ := builtIn_shows begins finished apart
  refine ⟨path, nodes, called, shortest, fun board values dataSize buttonValue => ?_⟩
  intro σ₀ handshake b₀
  obtain ⟨polls, at_place⟩ := exists_polls values σ₀
  refine ⟨polls, at_place, fun u p onScreen => ?_⟩
  rw [(run_follows state outputs values σ₀ b₀ at_place rfl u).2]
  refine painted_lit_iff (fun p inside => ?_) polls _ onScreen
  rw [on_after_call board.ram reserved t path inside]
  exact mem_pixels_iff lines p

theorem main_picture_fifteen :
    let initial : Host.System 16 := ⟨default, ⟨0, 0⟩, default, ⟨.setStart, 0, default, default⟩⟩
    ∃ t path nodes, showPath ((session mapInitializationVhdl (0 : Fin 16) (fun _ => ⟨true, default⟩)
      initial t).program.globals xCoord yCoord) (0 : Fin 16) (15 : Fin 16) 16 = some path ∧
      Shortest mapInitializationVhdl (0 : Fin 16) 15 nodes := by
  intro initial
  have finishes : ∃ t, (session mapInitializationVhdl (0 : Fin 16) (fun _ => ⟨true, default⟩)
      initial t).program.pc = .finished :=
    session_finishes (by decide) (by decide) rfl fun t => ⟨t, le_rfl, rfl⟩
  obtain ⟨t, finished⟩ := finishes
  obtain ⟨path, nodes, called, shortest, -⟩ := main_picture 0 15 (by decide)
    (fun _ => ⟨true, default⟩) initial rfl 0 ⟨0, 0⟩ 0 t finished
  exact ⟨t, path, nodes, called, shortest⟩

/-- After the first turn of the mouse loop the screen shows the cross of the cursor where the
mouse is, and around it the background, brighter on the pixels that are lit. -/
theorem main_screen (s dest : Fin 16) (apart : dest ≠ s) (ticks : ℕ → Tick 16)
    (initial : Host.System 16) (begins : initial.program.pc = .setStart) (state : BitVec 3)
    (outputs : Outputs) (reserved : BitVec 4) (t : ℕ)
    (finished : (session mapInitializationVhdl s ticks initial t).program.pc = .finished)
    (before : VgaNiosCtrl)
    (started : initial.slave =
      (initDisplay reserved).foldl (fun c access => c.perform state outputs access) before) :
    let σ := session mapInitializationVhdl s ticks initial t
    ∃ path nodes, showPath (σ.program.globals xCoord yCoord) s dest 16 = some path ∧
      Shortest mapInitializationVhdl s dest nodes ∧
      ∀ (board : Board) (values : ℕ → BitVec 16) (dataSize : BitVec 8) (buttonValue : BitVec 32),
      let σ₀ := Main.initial dataSize buttonValue
      let handshake := sessionAccesses mapInitializationVhdl s ticks initial t
      let b₀ := { board with
        slave := (pixels path).foldl (fun c p => c.perform state outputs (vgaSetPixel p)) σ.slave
        ram := (accesses reserved handshake path).foldl ImgRam.perform board.ram }
      ∃ polls : ℕ → Poll,
        (∀ u n, n < (reports values σ₀ u).length → (reports values σ₀ u)[n]? = some (polls n)) ∧
        ∀ u, 0 < (reports values σ₀ u).length →
        let turns := (reports values σ₀ u).length
        let b := boardAt state outputs values σ₀ b₀ u
        ∀ (ram : ℕ → ImgRam) (imgData : BitVec 19 → BitVec 8) (imgIndex : BitVec 8 → BitVec 24)
          (inputs : ℕ → VideoInputs) (bgrData : BitVec 24), Fed ram imgData imgIndex inputs bgrData →
          ∀ frame row column, row < 480 → column < 640 →
          let n := shownAt frame row column
          ram (n - 2) = b.ram → (∀ i ≤ 1, (inputs (n - i)).slave = b.slave) →
          (video inputs bgrData n).controller.oVga (inputs n).slave =
            initializedColour (mouse polls turns).px.toNat (mouse polls turns).py.toNat
              (Lit nodes polls turns (shownPixel row column)) (imgIndex ∘ imgData) row column := by
  intro σ
  obtain ⟨nodes, ⟨path, called, -, lines⟩, shortest⟩ := builtIn_shows begins finished apart
  refine ⟨path, nodes, called, shortest, fun board values dataSize buttonValue => ?_⟩
  intro σ₀ handshake b₀
  obtain ⟨polls, at_place⟩ := exists_polls values σ₀
  refine ⟨polls, at_place, fun u turned => ?_⟩
  intro turns b ram imgData imgIndex inputs bgrData fed frame row column above inside
  dsimp only
  intro memory slave
  obtain ⟨position, drawn⟩ := run_follows state outputs values σ₀ b₀ at_place rfl u
  obtain ⟨kept, colours⟩ := run_leaves state outputs values σ₀ b₀ at_place rfl u
  have agrees := run_agrees state outputs values σ₀ b₀ at_place rfl u turned
  rw [position] at agrees
  have drew : b₀.slave = σ.slave := foldl_pixels σ.slave state outputs path
  -- Neither the route nor the mouse has touched the colours and the flags.
  have initialized : Initialized b.slave := by
    have flags := congrArg VgaNiosCtrl.mCursorRgbN (kept.trans drew)
    refine (session_initialized mapInitializationVhdl s ticks initial started t).congr ?_ flags
    intro i cursor
    rw [colours i cursor, drew]
  -- The mouse has painted over the route.
  have lit : (ram (shownAt frame row column - 2)).on (shownPixel row column) = true ↔
      Lit nodes polls turns (shownPixel row column) := by
    rw [memory, drawn]
    refine painted_lit_iff (fun p inside => ?_) polls _ (shownPixel_onScreen above)
    rw [on_after_call board.ram reserved t path inside]
    exact mem_pixels_iff lines p
  rw [video_initialized fed initialized above inside slave, agrees.cursorX, agrees.cursorY,
    initializedColour_congr lit]

theorem main_screen_fifteen :
    let slave := (initDisplay 0).foldl (fun c access => c.perform 0 ⟨0, 0⟩ access) default
    let initial : Host.System 16 := ⟨default, ⟨0, 0⟩, slave, ⟨.setStart, 0, default, default⟩⟩
    ∃ (t : ℕ) (path : List Output) (nodes : List (Fin 16)) (polls : ℕ → Poll) (turns : ℕ)
        (inputs : ℕ → VideoInputs),
      showPath ((session mapInitializationVhdl (0 : Fin 16) (fun _ => ⟨true, default⟩) initial
        t).program.globals xCoord yCoord) (0 : Fin 16) (15 : Fin 16) 16 = some path ∧
      Shortest mapInitializationVhdl (0 : Fin 16) 15 nodes ∧ 0 < turns ∧
        let n := shownAt 3 240 320
        (video inputs 0 n).controller.oVga (inputs n).slave =
          initializedColour (mouse polls turns).px.toNat (mouse polls turns).py.toNat
            (Lit nodes polls turns (shownPixel 240 320)) (fun _ => 0x102030) 240 320 := by
  intro slave initial
  have started : slave = (initDisplay 0).foldl (fun c access => c.perform 0 ⟨0, 0⟩ access) default := rfl
  clear_value slave
  have finishes : ∃ t, (session mapInitializationVhdl (0 : Fin 16) (fun _ => ⟨true, default⟩)
      initial t).program.pc = .finished :=
    session_finishes (by decide) (by decide) rfl fun t => ⟨t, le_rfl, rfl⟩
  obtain ⟨t, finished⟩ := finishes
  obtain ⟨path, nodes, called, shortest, screen⟩ := main_screen 0 15 (by decide)
    (fun _ => ⟨true, default⟩) initial rfl 0 ⟨0, 0⟩ 0 t finished default started
  let board : Board := ⟨⟨fun _ => 0, 0⟩, 0, 0, default, fun _ => false⟩
  obtain ⟨polls, -, shows⟩ := screen board (fun t => reply (pointAt t)) 0 0
  have turned : 0 < (reports (fun t => reply (pointAt t)) (.initial 0 0) 51).length := by
    have point := run_reply 0 0 50
    rw [reports_succ, Main.report, point, show pointAt 50 = .secondWord by decide]
    simp
  have shown := shows 51 turned
  dsimp only at shown
  generalize boardAt 0 ⟨0, 0⟩ _ _ _ 51 = b at shown
  exact ⟨t, path, nodes, polls, _, connected (fun _ => b.slave) (fun _ => b.ram) (fun _ => 0)
    fun _ => 0x102030, called, shortest, turned, shown (fun _ => b.ram) (fun _ => 0)
      (fun _ => 0x102030) _ 0 (connected_fed (fun _ => b.slave) (fun _ => b.ram) _ _ 0) 3 240 320
      (by decide) (by decide) rfl fun _ _ => rfl⟩

end PathAccelerator.Usb
