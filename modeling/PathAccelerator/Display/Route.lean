import PathAccelerator.Display.Screen
import PathAccelerator.Host.ShortestPathFind

/-! The route on the screen.

main clears the screen and sets its colours, and shortestPathFind draws the route. The
accesses of the handshake with the accelerator lie in between.
-/

set_option autoImplicit false

namespace PathAccelerator.Display

open PathAccelerator.Graph Algorithm Hardware Host Semantics

/-! ## The start of main -/

def vgaWriteCtrl (value : BitVec 8) : Access := .write osdMemAddr (value.setWidth 16)

def setPixelOnColor (r g b : BitVec 32) : List Access :=
  [.write (osdMemAddr + 6) (r.setWidth 16), .write (osdMemAddr + 7) (g.setWidth 16),
    .write (osdMemAddr + 8) (b.setWidth 16)]

def setPixelOffColor (r g b : BitVec 32) : List Access :=
  [.write (osdMemAddr + 9) (r.setWidth 16), .write (osdMemAddr + 10) (g.setWidth 16),
    .write (osdMemAddr + 11) (b.setWidth 16)]

def setCursorColor (r g b : BitVec 32) : List Access :=
  [.write (osdMemAddr + 3) (r.setWidth 16), .write (osdMemAddr + 4) (g.setWidth 16),
    .write (osdMemAddr + 5) (b.setWidth 16)]

/-- The accesses of main before shortestPathFind. The four flags are set; the bits RESERVED
of the union are never assigned. -/
def initDisplay (reserved : BitVec 4) : List Access :=
  vgaWriteCtrl (reserved ++ 0b1111#4) :: (vgaClearScreen ++ (setPixelOnColor 512 512 512 ++
    (setPixelOffColor 0 0 0 ++ setCursorColor 0 1023 0)))

structure Initialized (c : VgaNiosCtrl) : Prop where
  mCursorEn : mCursorEn c = true
  channelEn : ∀ channel, channelEn c channel = true
  iOn : ∀ channel, iOn c channel = 512
  iOff : ∀ channel, iOff c channel = 0
  iCursor : iCursor c = fun
    | .green => 1023
    | _ => 0

theorem Initialized.congr {c c' : VgaNiosCtrl} (initialized : Initialized c)
    (display : ∀ i : Fin 11, 2 ≤ i.val → c'.display i = c.display i)
    (flags : c'.mCursorRgbN = c.mCursorRgbN) : Initialized c' := by
  obtain ⟨cursor, channels, on, off, colour⟩ := initialized
  constructor
  · rw [Display.mCursorEn, flags]
    exact cursor
  · intro channel
    rw [← channels channel]
    cases channel <;> simp only [Display.channelEn, flags]
  · intro channel
    rw [← on channel]
    cases channel <;> exact display _ (by decide)
  · intro channel
    rw [← off channel]
    cases channel <;> exact display _ (by decide)
  · rw [← colour]
    funext channel
    cases channel <;> exact display _ (by decide)

/-- What a position shows with these registers: the green cross of the cursor, or the
background, brighter where the pixel to the right is lit. -/
def initializedColour (x y : ℕ) (lit : Prop) [Decidable lit] (picture : BitVec 19 → BitVec 24)
    (row column : ℕ) (channel : Channel) : BitVec 10 :=
  if column = x ∨ column = x + 1 ∨ column + 1 = x ∨ row = y ∨ row = y + 1 ∨ row + 1 = y
  then if channel = .green then 1023 else 0
  else mMouse (if lit then 512 else 0)
    (bgr (picture (BitVec.ofNat 19 (row * 640 + min (column + 1) 635))) channel)

theorem initializedColour_congr {x y : ℕ} {lit lit' : Prop} [Decidable lit] [Decidable lit']
    (same : lit ↔ lit') : initializedColour x y lit = initializedColour x y lit' := by
  unfold initializedColour
  simp only [same]

theorem video_initialized {ram : ℕ → ImgRam} {imgData : BitVec 19 → BitVec 8}
    {imgIndex : BitVec 8 → BitVec 24} {inputs : ℕ → VideoInputs} {bgrData : BitVec 24}
    (fed : Fed ram imgData imgIndex inputs bgrData) {c : VgaNiosCtrl} (initialized : Initialized c)
    {frame row column : ℕ} (above : row < 480) (inside : column < 640)
    (slave : ∀ i ≤ 1, (inputs (shownAt frame row column - i)).slave = c) :
    let n := shownAt frame row column
    (video inputs bgrData n).controller.oVga (inputs n).slave =
      initializedColour (iCursorX c).toNat (iCursorY c).toNat
        ((ram (n - 2)).on (shownPixel row column)) (imgIndex ∘ imgData) row column := by
  intro n
  have now : (inputs (shownAt frame row column)).slave = c := slave 0 (Nat.zero_le 1)
  have previous : (inputs (shownAt frame row column - 1)).slave = c := slave 1 le_rfl
  have offset : (shownPixel row column).offset.toNat = row * 640 + min (column + 1) 635 := by
    unfold shownPixel Pixel.offset
    dsimp only
    omega
  funext channel
  unfold initializedColour
  rw [video_shows fed frame row column above inside, previous, ← offset]
  simp only [shownColour, now, initialized.channelEn, initialized.mCursorEn, initialized.iCursor,
    initialized.iOn, initialized.iOff, if_true, true_and]
  cases channel <;> rfl

section Slave

variable (state : BitVec 3) (outputs : Outputs)

theorem foldl_clrPixel (c : VgaNiosCtrl) {pixels : List Pixel} (inside : ∀ p ∈ pixels, p.OnScreen) :
    (pixels.map vgaClrPixel).foldl (fun c access => c.perform state outputs access) c = c := by
  induction pixels with
  | nil => rfl
  | cons p pixels ih =>
    rw [List.forall_mem_cons] at inside
    rw [List.map_cons, List.foldl_cons, perform_clrPixel c state outputs inside.1, ih inside.2]

theorem initDisplay_initialized (c : VgaNiosCtrl) (reserved : BitVec 4) :
    Initialized ((initDisplay reserved).foldl (fun c access => c.perform state outputs access) c) := by
  have cleared (c : VgaNiosCtrl) :
      vgaClearScreen.foldl (fun c access => c.perform state outputs access) c = c :=
    foldl_clrPixel state outputs c fun p => (mem_screen_iff p).mp
  have flags : ((reserved ++ 0b1111#4).setWidth 16).setWidth 4 = 0b1111#4 := by
    revert reserved
    decide
  rw [initDisplay, List.foldl_cons, List.foldl_append, cleared]
  constructor
  · exact congrArg (fun flags : BitVec 4 => flags.getLsbD 3) flags
  · intro channel
    cases channel with
    | red => exact congrArg (fun flags : BitVec 4 => flags.getLsbD 2) flags
    | green => exact congrArg (fun flags : BitVec 4 => flags.getLsbD 1) flags
    | blue => exact congrArg (fun flags : BitVec 4 => flags.getLsbD 0) flags
  · intro channel
    cases channel <;> rfl
  · intro channel
    cases channel <;> rfl
  · funext channel
    cases channel <;> rfl

end Slave

/-! ## The accesses of shortestPathFind -/

section Session

variable {N : ℕ} (w : RoadMap) (s : ℕ) (ticks : ℕ → Tick N) (initial : System N)

def sessionAccesses (t : ℕ) : List Access :=
  (List.range t).filterMap fun u =>
    if (ticks u).go then (session w s ticks initial u).program.access s else none

theorem access_register {p : Program N} {access : Access} (next : p.access s = some access) :
    osdWrite access = none := by
  unfold Program.access at next
  cases point : p.pc <;> rw [point] at next <;> cases next <;> rfl

theorem sessionAccesses_quiet (t : ℕ) :
    (sessionAccesses w s ticks initial t).filterMap osdWrite = [] := by
  rw [List.filterMap_eq_nil_iff]
  intro access member
  obtain ⟨u, _, performed⟩ := List.mem_filterMap.mp member
  split_ifs at performed
  exact access_register s performed

theorem perform_register (c : VgaNiosCtrl) (state : BitVec 3) (outputs : Outputs) {p : Program N}
    {access : Access} (next : p.access s = some access) :
    (c.perform state outputs access).display = c.display ∧
      (c.perform state outputs access).mCursorRgbN = c.mCursorRgbN := by
  unfold Program.access at next
  cases point : p.pc <;> rw [point] at next <;> cases next <;> exact ⟨rfl, rfl⟩

theorem session_display (t : ℕ) :
    (session w s ticks initial t).slave.display = initial.slave.display ∧
      (session w s ticks initial t).slave.mCursorRgbN = initial.slave.mCursorRgbN := by
  induction t with
  | zero => exact ⟨rfl, rfl⟩
  | succ t ih =>
    rw [session, trajectory_succ]
    rcases clock_cases w s (ticks t) (session w s ticks initial t) with
      ⟨_, same, _⟩ | ⟨access, _, next, slave, _⟩
    · rw [same]
      exact ih
    · rw [slave]
      obtain ⟨display, flags⟩ := perform_register s (session w s ticks initial t).slave
        (BitVec.ofNat 3 (System.clock w s (ticks t) (session w s ticks initial t)).core.stateOut)
        (session w s ticks initial t).outputs next
      exact ⟨display.trans ih.1, flags.trans ih.2⟩

theorem session_initialized {state : BitVec 3} {outputs : Outputs} {before : VgaNiosCtrl}
    {reserved : BitVec 4} (started : initial.slave =
      (initDisplay reserved).foldl (fun c access => c.perform state outputs access) before)
    (t : ℕ) : Initialized (session w s ticks initial t).slave := by
  obtain ⟨display, flags⟩ := session_display w s ticks initial t
  rw [started] at display flags
  exact (initDisplay_initialized state outputs before reserved).congr
    (fun i _ => congrFun display i) flags

end Session

/-! ## The memory after a call -/

section Memory

variable {N : ℕ} {w : RoadMap} {s : ℕ} {ticks : ℕ → Tick N} {initial : System N}

/-- The accesses of main up to the end of shortestPathFind, which has drawn `path`. -/
def accesses (reserved : BitVec 4) (handshake : List Access) (path : List Output) : List Access :=
  initDisplay reserved ++ handshake ++ (pixels path).map vgaSetPixel

theorem initDisplay_writes (reserved : BitVec 4) :
    (initDisplay reserved).filterMap osdWrite = vgaClearScreen.filterMap osdWrite := by
  have flags : osdWrite (vgaWriteCtrl (reserved ++ 0b1111#4)) = none := rfl
  have colours : (setPixelOnColor 512 512 512 ++ (setPixelOffColor 0 0 0 ++
      setCursorColor 0 1023 0)).filterMap osdWrite = [] := rfl
  rw [initDisplay, List.filterMap_cons_none flags, List.filterMap_append, colours, List.append_nil]

theorem pixels_onScreen (path : List Output) : ∀ p ∈ pixels path, p.OnScreen := by
  intro p member
  obtain ⟨_, _, member⟩ := List.mem_flatMap.mp member
  exact vgaLine_onScreen _ _ _ _ p member

/-- Whatever the memory held before, the pixels that are on are those of the lines drawn. -/
theorem on_after_call (ram : ImgRam) (reserved : BitVec 4) (t : ℕ) (path : List Output) {p : Pixel}
    (onScreen : p.OnScreen) :
    ((accesses reserved (sessionAccesses w s ticks initial t) path).foldl ImgRam.perform ram).on p =
      true ↔ p ∈ pixels path := by
  have cleared : (initDisplay reserved ++ sessionAccesses w s ticks initial t).foldl
      ImgRam.perform ram = vgaClearScreen.foldl ImgRam.perform ram := by
    rw [foldl_perform, foldl_perform, List.filterMap_append, initDisplay_writes,
      sessionAccesses_quiet, List.append_nil]
  rw [accesses, List.foldl_append, on_after_set _ (pixels_onScreen path) onScreen, cleared,
    off_after_clear ram onScreen]
  simp

end Memory

/-! ## The route -/

section Nodes

variable {N : ℕ} (xCoord yCoord : Fin N → BitVec 16)

/-- A pixel of the line between two consecutive nodes. -/
def OnRoute (nodes : List (Fin N)) (p : Pixel) : Prop :=
  ∃ leg ∈ legs nodes, p ∈ vgaLine (xCoord leg.2).toNat (yCoord leg.2).toNat
    (xCoord leg.1).toNat (yCoord leg.1).toNat

instance (nodes : List (Fin N)) (p : Pixel) : Decidable (OnRoute xCoord yCoord nodes p) :=
  inferInstanceAs (Decidable (∃ leg ∈ legs nodes, _))

variable {xCoord yCoord}

theorem mem_pixels_iff {g : Globals N} {path : List Output} {nodes : List (Fin N)}
    (lines : drawn path = (legs nodes).reverse.map fun leg => g.segment leg.2 leg.1) (p : Pixel) :
    p ∈ pixels path ↔ OnRoute g.xCoord g.yCoord nodes p := by
  unfold pixels OnRoute
  rw [lines, List.mem_flatMap]
  simp only [List.mem_map, List.mem_reverse]
  constructor
  · rintro ⟨_, ⟨leg, member, rfl⟩, inside⟩
    exact ⟨leg, member, inside⟩
  · rintro ⟨leg, member, inside⟩
    exact ⟨_, ⟨leg, member, rfl⟩, inside⟩

end Nodes

/-- After a call for a node that can be reached and is not the start node, each position shows
the cross of the cursor, or the background, brighter on the lines of a shortest route, in every
cycle with the memory and the registers as the call has left them. -/
theorem route_on_screen {N : ℕ} [NeZero N] (quarters : 4 ∣ N) (large : 4 ≤ N) (small : N ≤ 512)
    (w : RoadMap) (formed : w.WellFormed N) (s dest : Fin N) (near : Near w s) (apart : dest ≠ s)
    (reached : Reachable (roads w) s dest) (ticks : ℕ → Tick N) (initial : System N)
    (begins : initial.program.pc = .setStart) (state : BitVec 3) (outputs : Outputs)
    (before : VgaNiosCtrl) (reserved : BitVec 4)
    (started : initial.slave =
      (initDisplay reserved).foldl (fun c access => c.perform state outputs access) before)
    (t : ℕ) (finished : (session w s ticks initial t).program.pc = .finished)
    (xCoord yCoord : Fin N → BitVec 16) :
    let σ := session w s ticks initial t
    ∃ path nodes, showPath (σ.program.globals xCoord yCoord) s dest N = some path ∧
      printed path = nodes.map Fin.val ∧ Shortest w s dest nodes ∧
      ∀ (ram : ℕ → ImgRam) (imgData : BitVec 19 → BitVec 8) (imgIndex : BitVec 8 → BitVec 24)
        (inputs : ℕ → VideoInputs) (bgrData : BitVec 24), Fed ram imgData imgIndex inputs bgrData →
        ∀ frame row column, row < 480 → column < 640 →
        let n := shownAt frame row column
        (∃ earlier, ram (n - 2) =
          (accesses reserved (sessionAccesses w s ticks initial t) path).foldl ImgRam.perform earlier) →
        (∀ i ≤ 1, (inputs (n - i)).slave =
          (pixels path).foldl (fun c p => c.perform state outputs (vgaSetPixel p)) σ.slave) →
        (video inputs bgrData n).controller.oVga (inputs n).slave =
          initializedColour (iCursorX σ.slave).toNat (iCursorY σ.slave).toNat
            (OnRoute xCoord yCoord nodes (shownPixel row column)) (imgIndex ∘ imgData) row column := by
  intro σ
  have holds := session_holds quarters large small begins finished xCoord yCoord
  obtain ⟨nodes, ⟨path, called, prints, lines⟩, shortest⟩ := holds_shortest formed near holds apart reached
  refine ⟨path, nodes, called, prints, shortest, ?_⟩
  intro ram imgData imgIndex inputs bgrData fed frame row column above inside
  dsimp only
  rintro ⟨earlier, memory⟩ slave
  -- Setting pixels is no write to a register.
  have kept := foldl_pixels σ.slave state outputs path
  have initialized : Initialized σ.slave := session_initialized w s ticks initial started t
  have lit : (ram (shownAt frame row column - 2)).on (shownPixel row column) = true ↔
      OnRoute xCoord yCoord nodes (shownPixel row column) := by
    rw [memory, on_after_call _ _ _ _ (shownPixel_onScreen above)]
    exact mem_pixels_iff lines _
  rw [video_initialized fed initialized above inside (fun i le => (slave i le).trans kept),
    initializedColour_congr lit]

theorem route_on_screen_four :
    let slave := (initDisplay 0).foldl (fun c access => c.perform 0 ⟨0, 0⟩ access) default
    let initial : System 4 := ⟨default, ⟨0, 0⟩, slave, ⟨.setStart, 0, default, default⟩⟩
    let place : Fin 4 → BitVec 16 := fun v => BitVec.ofNat 16 (100 * v.val)
    ∃ t path nodes, showPath ((session mapInitializationVhdl 1 (fun _ => ⟨true, default⟩) initial
        t).program.globals place place) (1 : Fin 4) (3 : Fin 4) 4 = some path ∧
      Shortest mapInitializationVhdl 1 3 nodes ∧ ∃ inputs : ℕ → VideoInputs,
        let σ := session mapInitializationVhdl 1 (fun _ => ⟨true, default⟩) initial t
        let n := shownAt 0 240 320
        (video inputs 0 n).controller.oVga (inputs n).slave =
          initializedColour (iCursorX σ.slave).toNat (iCursorY σ.slave).toNat
            (OnRoute place place nodes (shownPixel 240 320)) (fun _ => 0x102030) 240 320 := by
  intro slave initial place
  have started : slave = (initDisplay 0).foldl (fun c access => c.perform 0 ⟨0, 0⟩ access) default := rfl
  clear_value slave
  have finishes : ∃ t, (session mapInitializationVhdl (1 : Fin 4) (fun _ => ⟨true, default⟩) initial
      t).program.pc = .finished :=
    session_finishes le_rfl (by decide) rfl fun t => ⟨t, le_rfl, rfl⟩
  obtain ⟨t, finished⟩ := finishes
  obtain ⟨path, nodes, called, -, shortest, screen⟩ := route_on_screen (N := 4) (dvd_refl 4) le_rfl
    (by decide) mapInitializationVhdl (mapInitializationVhdl_wellFormed 4) 1 3 mapInitialization_near
    (by decide) (mapInitialization_walk 3).reachable (fun _ => ⟨true, default⟩) initial rfl 0 ⟨0, 0⟩
    default 0 started t finished place place
  refine ⟨t, path, nodes, called, shortest, ?_⟩
  let slaves (_ : ℕ) := (pixels path).foldl (fun c p => c.perform 0 ⟨0, 0⟩ (vgaSetPixel p))
    (session mapInitializationVhdl 1 (fun _ => ⟨true, default⟩) initial t).slave
  let ram (_ : ℕ) := (accesses 0 (sessionAccesses mapInitializationVhdl 1 (fun _ => ⟨true, default⟩)
    initial t) path).foldl ImgRam.perform fun _ => false
  refine ⟨connected slaves ram (fun _ => 0) fun _ => 0x102030, ?_⟩
  exact screen ram (fun _ => 0) (fun _ => 0x102030) _ 0 (connected_fed slaves ram _ _ 0) 0 240 320
    (by decide) (by decide) ⟨fun _ => false, rfl⟩ fun _ _ => rfl

end PathAccelerator.Display
