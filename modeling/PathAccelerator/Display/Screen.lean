import PathAccelerator.Display.FrameBuffer
import PathAccelerator.Display.Raster

/-! From the memory to the screen.

The controller is clocked by iCLK_25 and the read side of VGA_OSD_RAM by its complement,
so a cycle has the edge of the latter in its middle. Img_RAM, img_data and img_index wrap a
memory of the vendor that is not part of the source: what they put out is an input of the
machine, and `Fed` says what it is.
-/

set_option autoImplicit false

namespace PathAccelerator.Display

open Host Semantics

/-! ## The read side of VGA_OSD_RAM -/

/-- `colour` is oRed, oGreen and oBlue. -/
structure VgaOsdRam where
  colour : Channel → BitVec 10
  addrD : BitVec 3
  addrDd : BitVec 3

def VgaOsdRam.reset : VgaOsdRam := ⟨fun _ => 0, 0, 0⟩

/-- A rising edge of iVGA_CLK. -/
def VgaOsdRam.edge (slave : VgaNiosCtrl) (iVgaAddr : BitVec 19) (romData : BitVec 8)
    (r : VgaOsdRam) : VgaOsdRam where
  addrD := iVgaAddr.extractLsb' 0 3
  addrDd := ~~~r.addrD
  colour channel := if romData.getLsbD r.addrDd.toNat then iOn slave channel else iOff slave channel

/-! ## The pixel pipeline of VGA_NIOS_CTRL -/

/-- r_data, g_data and b_data. -/
def bgr (bgrData : BitVec 24) : Channel → BitVec 8
  | .red => bgrData.extractLsb' 0 8
  | .green => bgrData.extractLsb' 8 8
  | .blue => bgrData.extractLsb' 16 8

/-- mMouse_R, mMouse_G and mMouse_B. -/
def mMouse (mVga : BitVec 10) (data : BitVec 8) : BitVec 10 :=
  if mVga.toNat + (data ++ 0b00#2).toNat ≥ 1021 then 0b1111111111
  else BitVec.ofNat 10 (mVga.toNat + (data ++ 0b00#2).toNat)

structure Video where
  controller : VgaController
  osd : VgaOsdRam
  bgrData : BitVec 24

structure VideoInputs where
  slave : VgaNiosCtrl
  romData : BitVec 8
  bgrDataRaw : BitVec 24

def Video.mVgaAddr (v : Video) : BitVec 19 := v.controller.oAddress.setWidth 19

/-- A falling edge of iCLK_25, then a rising one. -/
def Video.clock (i : VideoInputs) (v : Video) : Video :=
  let osd := v.osd.edge i.slave v.mVgaAddr i.romData
  { controller := v.controller.edge i.slave fun channel =>
      mMouse (osd.colour channel) (bgr v.bgrData channel)
    osd := osd
    bgrData := i.bgrDataRaw }

/-- The register bgr_data has no reset. -/
def Video.reset (bgrData : BitVec 24) : Video := ⟨.reset, .reset, bgrData⟩

abbrev video (inputs : ℕ → VideoInputs) (bgrData : BitVec 24) : ℕ → Video :=
  trajectory Video.clock inputs (.reset bgrData)

/-- What the memory blocks put out. Img_RAM has registers at the address and at the
output of its reading port, whose words are eight bits of the writing port; img_data and
img_index have one at the address, on opposite edges of the clock. -/
structure Fed (ram : ℕ → ImgRam) (imgData : BitVec 19 → BitVec 8) (imgIndex : BitVec 8 → BitVec 24)
    (inputs : ℕ → VideoInputs) (bgrData : BitVec 24) : Prop where
  romData : ∀ t, (inputs (t + 2)).romData =
    (ram (t + 1)).word ((video inputs bgrData t).mVgaAddr.extractLsb' 3 16)
  bgrDataRaw : ∀ t, (inputs (t + 1)).bgrDataRaw =
    imgIndex (imgData (video inputs bgrData t).mVgaAddr)

section Run

variable (inputs : ℕ → VideoInputs) (bgrData : BitVec 24)

theorem video_at (t : ℕ) : (video inputs bgrData t).controller.At t := by
  induction t with
  | zero => exact VgaController.reset_at
  | succ t ih => exact ih.edge _ _

theorem video_fetching (t : ℕ) : (video inputs bgrData t).controller.Fetching := by
  induction t with
  | zero => exact VgaController.reset_fetching
  | succ t ih => exact ih.edge _ _

/-! ## The raster -/

/-- The cycle in which a position of the screen is shown. -/
def shownAt (frame row column : ℕ) : ℕ := 801 * (526 * frame + 33 + row) + 157 + column

theorem hCont_shownAt {frame row column : ℕ} (inside : column < 640) :
    shownAt frame row column % 801 = 157 + column := by
  unfold shownAt
  omega

theorem vCont_shownAt {frame row column : ℕ} (above : row < 480) (inside : column < 640) :
    (shownAt frame row column + 800) / 801 % 526 = 34 + row := by
  unfold shownAt
  omega

theorem shown_iff (n : ℕ) : (video inputs bgrData n).controller.Active 9 ↔
    ∃ frame row column, row < 480 ∧ column < 640 ∧ n = shownAt frame row column := by
  obtain ⟨hCont, vCont, _, _⟩ := video_at inputs bgrData n
  rw [VgaController.active_iff, hCont, vCont]
  constructor
  · rintro ⟨⟨left, right⟩, top, bottom⟩
    refine ⟨(n + 800) / 801 / 526, (n + 800) / 801 % 526 - 34, n % 801 - 157, by omega, by omega, ?_⟩
    unfold shownAt
    omega
  · rintro ⟨frame, row, column, above, inside, rfl⟩
    rw [hCont_shownAt inside, vCont_shownAt above inside]
    omega

theorem oVga_of_inactive {c : VgaController} (outside : ¬ c.Active 9) (slave : VgaNiosCtrl) :
    c.oVga slave = fun _ => 0 := by
  funext channel
  exact if_neg outside

/-- A line takes 801 clocks and a frame 526 lines. The sync pulses are low in 96 clocks of
a line and in two lines of a frame; outside the active part the screen is black, and
within it each position is shown in one clock of the frame, between the pulses. -/
theorem screen_raster (n : ℕ) :
    ((video inputs bgrData n).controller.oVgaHSync = false ↔ n = 0 ∨ 1 ≤ n % 801 ∧ n % 801 ≤ 96) ∧
    ((video inputs bgrData n).controller.oVgaVSync = false ↔
      n = 0 ∨ 1 ≤ (n + 800) / 801 % 526 ∧ (n + 800) / 801 % 526 ≤ 2) ∧
    ((∃! position : ℕ × ℕ × ℕ, position.2.1 < 480 ∧ position.2.2 < 640 ∧
        n = shownAt position.1 position.2.1 position.2.2) ∧
        (video inputs bgrData n).controller.oVgaBlank = true ∨
      (¬ ∃ frame row column, row < 480 ∧ column < 640 ∧ n = shownAt frame row column) ∧
        ∀ slave channel, (video inputs bgrData n).controller.oVga slave channel = 0) := by
  obtain ⟨hCont, vCont, hSync, vSync⟩ := video_at inputs bgrData n
  refine ⟨?_, ?_, ?_⟩
  · rw [hSync, decide_eq_false_iff_not]
    omega
  · rw [vSync, decide_eq_false_iff_not]
    omega
  · by_cases active : (video inputs bgrData n).controller.Active 9
    · obtain ⟨frame, row, column, above, inside, same⟩ := (shown_iff inputs bgrData n).mp active
      refine .inl ⟨⟨(frame, row, column), ⟨above, inside, same⟩, ?_⟩, ?_⟩
      -- A cycle determines its frame, its row and its column.
      · rintro ⟨frame', row', column'⟩ ⟨above', inside', same'⟩
        simp only [Prod.mk.injEq]
        dsimp only at above' inside' same'
        unfold shownAt at same same'
        omega
      · have column_n : n % 801 = 157 + column := same ▸ hCont_shownAt inside
        have row_n : (n + 800) / 801 % 526 = 34 + row := same ▸ vCont_shownAt above inside
        rw [VgaController.oVgaBlank, hSync, vSync, Bool.and_eq_true, decide_eq_true_iff,
          decide_eq_true_iff]
        omega
    · refine .inr ⟨?_, fun slave channel => ?_⟩
      · rwa [← shown_iff inputs bgrData]
      · rw [oVga_of_inactive active slave]

/-- The pixel that is shown at a position: the one to its right, as far as column 635. -/
def shownPixel (row column : ℕ) : Pixel := ⟨(min (column + 1) 635 : ℕ), row⟩

theorem shownPixel_onScreen {row column : ℕ} (above : row < 480) :
    (shownPixel row column).OnScreen := by
  constructor <;> dsimp only [shownPixel] <;> omega

theorem mVgaAddr_shown {frame row column t : ℕ} (above : row < 480) (inside : column < 640)
    (later : t + 3 = shownAt frame row column) :
    (video inputs bgrData t).mVgaAddr =
      BitVec.ofNat 19 (shownPixel row column).offset.toNat := by
  obtain ⟨hCont, vCont, _, _⟩ := video_at inputs bgrData t
  obtain ⟨_, address⟩ := video_fetching inputs bgrData t
  have column_t : t % 801 = 154 + column := by unfold shownAt at later; omega
  have row_t : (t + 800) / 801 % 526 = 34 + row := by unfold shownAt at later; omega
  rw [column_t] at hCont
  rw [row_t] at vCont
  have fetched := address (by omega) (by omega) (by omega)
  have offset : (shownPixel row column).offset.toNat = row * 640 + min (column + 1) 635 := by
    unfold shownPixel Pixel.offset
    dsimp only
    omega
  have same : (34 + row - 34) * 640 + (min (154 + column) 788 - 153) =
      row * 640 + min (column + 1) 635 := by omega
  apply BitVec.eq_of_toNat_eq
  rw [Video.mVgaAddr, BitVec.toNat_setWidth, fetched, hCont, vCont, BitVec.toNat_ofNat, offset, same]

end Run

/-! ## The memory blocks connected -/

def VgaController.beam (c : VgaController) : BitVec 10 × BitVec 10 × BitVec 10 × BitVec 10 × BitVec 20 :=
  (c.hCont, c.vCont, c.oCoordX, c.oCoordY, c.oAddress)

theorem VgaController.beam_edge {c c' : VgaController} (same : c.beam = c'.beam)
    (slave slave' : VgaNiosCtrl) (colour colour' : Channel → BitVec 10) :
    (c.edge slave colour).beam = (c'.edge slave' colour').beam := by
  simp only [beam, Prod.mk.injEq] at same
  obtain ⟨hCont, vCont, x, y, address⟩ := same
  have active : c.Active 0 ↔ c'.Active 0 := by rw [active_iff, active_iff, hCont, vCont]
  simp only [beam, edge, active, hCont, vCont, x, y, address]

theorem mVgaAddr_free (inputs inputs' : ℕ → VideoInputs) (bgrData bgrData' : BitVec 24) (t : ℕ) :
    (video inputs bgrData t).mVgaAddr = (video inputs' bgrData' t).mVgaAddr := by
  have alike : (video inputs bgrData t).controller.beam =
      (video inputs' bgrData' t).controller.beam := by
    induction t with
    | zero => rfl
    | succ t ih => exact VgaController.beam_edge ih _ _ _ _
  exact congrArg (fun beam => beam.2.2.2.2.setWidth 19) alike

def connected (slaves : ℕ → VgaNiosCtrl) (ram : ℕ → ImgRam) (imgData : BitVec 19 → BitVec 8)
    (imgIndex : BitVec 8 → BitVec 24) (t : ℕ) : VideoInputs :=
  let address (t : ℕ) : BitVec 19 := (video (fun t => ⟨slaves t, 0, 0⟩) 0 t).mVgaAddr
  { slave := slaves t
    romData := (ram (t - 1)).word ((address (t - 2)).extractLsb' 3 16)
    bgrDataRaw := imgIndex (imgData (address (t - 1))) }

theorem connected_fed (slaves : ℕ → VgaNiosCtrl) (ram : ℕ → ImgRam) (imgData : BitVec 19 → BitVec 8)
    (imgIndex : BitVec 8 → BitVec 24) (bgrData : BitVec 24) :
    Fed ram imgData imgIndex (connected slaves ram imgData imgIndex) bgrData where
  romData t := by
    rw [mVgaAddr_free _ (fun t => ⟨slaves t, 0, 0⟩) _ 0]
    rfl
  bgrDataRaw t := by
    rw [mVgaAddr_free _ (fun t => ⟨slaves t, 0, 0⟩) _ 0]
    rfl

/-! ## The picture -/

section Picture

variable {ram : ℕ → ImgRam} {imgData : BitVec 19 → BitVec 8} {imgIndex : BitVec 8 → BitVec 24}
  {inputs : ℕ → VideoInputs} {bgrData : BitVec 24} (fed : Fed ram imgData imgIndex inputs bgrData)

include fed

theorem fetched_colour (t : ℕ) (channel : Channel) :
    let slave := (inputs (t + 2)).slave
    let address := (video inputs bgrData t).mVgaAddr
    (video inputs bgrData (t + 3)).controller.curColor channel =
      if (video inputs bgrData (t + 2)).controller.Active 8 ∧
          (video inputs bgrData (t + 2)).controller.OnCursor slave ∧ mCursorEn slave = true
        then iCursor slave channel
        else mMouse (if ram (t + 1) (wraddress address) then iOn slave channel else iOff slave channel)
          (bgr (imgIndex (imgData address)) channel) := by
  intro slave address
  have bit : (inputs (t + 2)).romData.getLsbD (video inputs bgrData (t + 2)).osd.addrDd.toNat =
      ram (t + 1) (wraddress address) := by
    rw [fed.romData]
    exact getLsbD_word _ _ _
  have background : (video inputs bgrData (t + 2)).bgrData = imgIndex (imgData address) :=
    fed.bgrDataRaw t
  rw [← bit, ← background]
  by_cases cross : (video inputs bgrData (t + 2)).controller.Active 8 ∧
      (video inputs bgrData (t + 2)).controller.OnCursor slave ∧ mCursorEn slave = true
  · rw [if_pos cross]
    exact congrFun (if_pos cross) channel
  · rw [if_neg cross]
    exact congrFun (if_neg cross) channel

/-- What a position of the screen shows, given the registers and the bits of the memory in
the cycles in which they are used. -/
def shownColour (now before : VgaNiosCtrl) (ram : ImgRam) (picture : BitVec 19 → BitVec 24)
    (row column : ℕ) (channel : Channel) : BitVec 10 :=
  let x := (iCursorX before).toNat
  let y := (iCursorY before).toNat
  if channelEn now channel then
    if mCursorEn before = true ∧ (column = x ∨ column = x + 1 ∨ column + 1 = x ∨
        row = y ∨ row = y + 1 ∨ row + 1 = y)
      then iCursor before channel
      else mMouse
        (if ram.on (shownPixel row column) then iOn before channel else iOff before channel)
        (bgr (picture (BitVec.ofNat 19 (shownPixel row column).offset.toNat)) channel)
  else 0

theorem video_shows (frame row column : ℕ) (above : row < 480) (inside : column < 640) :
    let n := shownAt frame row column
    (video inputs bgrData n).controller.oVga (inputs n).slave =
      shownColour (inputs n).slave (inputs (n - 1)).slave (ram (n - 2)) (imgIndex ∘ imgData)
        row column := by
  intro n
  -- The address went out three cycles before the colour comes in.
  obtain ⟨t, later⟩ : ∃ t, t + 3 = n := ⟨n - 3, by unfold n shownAt; omega⟩
  have before : n - 1 = t + 2 := by omega
  have fetching : n - 2 = t + 1 := by omega
  have active : (video inputs bgrData n).controller.Active 9 :=
    (shown_iff inputs bgrData n).mpr ⟨frame, row, column, above, inside, rfl⟩
  obtain ⟨hCont, vCont, _, _⟩ := video_at inputs bgrData (t + 2)
  have column_t : (t + 2) % 801 = 156 + column := by unfold n shownAt at later; omega
  have row_t : (t + 2 + 800) / 801 % 526 = 34 + row := by unfold n shownAt at later; omega
  rw [column_t] at hCont
  rw [row_t] at vCont
  have eight : (video inputs bgrData (t + 2)).controller.Active 8 := by
    rw [VgaController.active_iff, hCont, vCont]
    omega
  -- The cross is compared with counters eight columns ahead, which makes up for the delay.
  have cross (slave : VgaNiosCtrl) : (video inputs bgrData (t + 2)).controller.OnCursor slave ↔
      column = (iCursorX slave).toNat ∨ column = (iCursorX slave).toNat + 1 ∨
        column + 1 = (iCursorX slave).toNat ∨ row = (iCursorY slave).toNat ∨
        row = (iCursorY slave).toNat + 1 ∨ row + 1 = (iCursorY slave).toNat := by
    unfold VgaController.OnCursor
    rw [hCont, vCont]
    unfold xStart yStart hSyncCyc hSyncBack vSyncCyc vSyncBack
    omega
  funext channel
  have colour := fetched_colour fed t channel
  rw [mVgaAddr_shown inputs bgrData above inside later] at colour
  simp only [eight, cross, true_and] at colour
  rw [VgaController.oVga, if_pos active, ← later, colour, later, before, fetching]
  unfold shownColour
  simp only [and_comm (a := mCursorEn _ = true)]
  rfl

omit fed in
theorem oVga_of_hidden {n : ℕ} (hidden : ¬ ∃ frame row column, row < 480 ∧ column < 640 ∧
    n = shownAt frame row column) (slave : VgaNiosCtrl) :
    (video inputs bgrData n).controller.oVga slave = fun _ => 0 := by
  rw [← shown_iff inputs bgrData] at hidden
  exact oVga_of_inactive hidden slave

end Picture

/-- In every run, whatever the processor writes meanwhile, each position of each frame shows
the drawn pixel over the background, or the cross of the cursor, in the channels that are
enabled, and in all other cycles the screen is black. -/
theorem screen_shows {ram : ℕ → ImgRam} {imgData : BitVec 19 → BitVec 8}
    {imgIndex : BitVec 8 → BitVec 24} {inputs : ℕ → VideoInputs} {bgrData : BitVec 24}
    (fed : Fed ram imgData imgIndex inputs bgrData) (n : ℕ) :
    (∃ frame row column, row < 480 ∧ column < 640 ∧ n = shownAt frame row column ∧
      (video inputs bgrData n).controller.oVga (inputs n).slave =
        shownColour (inputs n).slave (inputs (n - 1)).slave (ram (n - 2)) (imgIndex ∘ imgData)
          row column) ∨
    (¬ ∃ frame row column, row < 480 ∧ column < 640 ∧ n = shownAt frame row column) ∧
      (video inputs bgrData n).controller.oVga (inputs n).slave = fun _ => 0 := by
  by_cases shown : ∃ frame row column, row < 480 ∧ column < 640 ∧ n = shownAt frame row column
  · left
    obtain ⟨frame, row, column, above, inside, rfl⟩ := shown
    exact ⟨frame, row, column, above, inside, rfl, video_shows fed frame row column above inside⟩
  · exact .inr ⟨shown, oVga_of_hidden shown _⟩

/-- A pixel that is on, with all channels enabled, over a background of three colours. -/
theorem screen_shows_pixel :
    let colours : Fin 11 → BitVec 10 := fun i => if 5 ≤ i.val ∧ i.val < 8 then 512 else 0
    let slave : VgaNiosCtrl := { (default : VgaNiosCtrl) with mCursorRgbN := 0b1111, display := colours }
    let dotted : ImgRam := fun cell => decide (cell = (shownPixel 240 320).cell)
    let inputs := connected (fun _ => slave) (fun _ => dotted) (fun _ => 1) (fun _ => 0x102030)
    (video inputs 0 (shownAt 2 240 320)).controller.oVga (inputs (shownAt 2 240 320)).slave = fun
      | .red => 704
      | .green => 640
      | .blue => 576 := by
  intro colours slave dotted inputs
  rcases screen_shows (connected_fed (fun _ => slave) (fun _ => dotted) (fun _ => 1)
    (fun _ => 0x102030) 0) (shownAt 2 240 320) with
    ⟨frame, row, column, above, inside, same, shown⟩ | ⟨hidden, -⟩
  · obtain ⟨rfl, rfl⟩ : row = 240 ∧ column = 320 := by
      unfold shownAt at same
      omega
    refine shown.trans ?_
    funext channel
    cases channel <;> decide
  · exact absurd ⟨2, 240, 320, by decide, by decide, rfl⟩ hidden

/-! ## What never shows -/

/-- The pixels of the first column and of the last four are never shown: two runs with the same
registers and background, whose memories agree on all other pixels, look the same in every
cycle, whatever bgr_data held first. -/
theorem screen_hidden {ram ram' : ℕ → ImgRam} {imgData : BitVec 19 → BitVec 8}
    {imgIndex : BitVec 8 → BitVec 24} {inputs inputs' : ℕ → VideoInputs} {bgrData bgrData' : BitVec 24}
    (fed : Fed ram imgData imgIndex inputs bgrData)
    (fed' : Fed ram' imgData imgIndex inputs' bgrData')
    (slaves : ∀ t, (inputs t).slave = (inputs' t).slave)
    (agree : ∀ t (p : Pixel), p.OnScreen → 1 ≤ p.x → p.x ≤ 635 → (ram t).on p = (ram' t).on p)
    (n : ℕ) :
    (video inputs bgrData n).controller.oVga (inputs n).slave =
      (video inputs' bgrData' n).controller.oVga (inputs' n).slave := by
  by_cases active : (video inputs bgrData n).controller.Active 9
  · obtain ⟨frame, row, column, above, inside, rfl⟩ := (shown_iff inputs bgrData n).mp active
    have bit := agree (shownAt frame row column - 2) (shownPixel row column)
      (shownPixel_onScreen above) (by dsimp only [shownPixel]; omega)
      (by dsimp only [shownPixel]; omega)
    rw [video_shows fed frame row column above inside,
      video_shows fed' frame row column above inside, slaves, slaves]
    funext channel
    unfold shownColour
    rw [bit]
  · rw [shown_iff] at active
    rw [oVga_of_hidden active, oVga_of_hidden active]

/-- The corner of the screen turned on, with the channels enabled and no cursor. -/
theorem screen_hidden_corner :
    let colours : Fin 11 → BitVec 10 := fun i => if 5 ≤ i.val ∧ i.val < 8 then 512 else 0
    let slave : VgaNiosCtrl := { (default : VgaNiosCtrl) with mCursorRgbN := 0b0111, display := colours }
    let blank : ℕ → ImgRam := fun _ _ => false
    let dotted : ℕ → ImgRam := fun _ cell => decide (cell = Pixel.cell ⟨0, 0⟩)
    let picture (ram : ℕ → ImgRam) := connected (fun _ => slave) ram (fun _ => 1) (fun _ => 0x102030)
    (video (picture blank) 0 (shownAt 1 0 0)).controller.oVga (picture blank (shownAt 1 0 0)).slave =
      (video (picture dotted) 0 (shownAt 1 0 0)).controller.oVga
        (picture dotted (shownAt 1 0 0)).slave := by
  intro colours slave blank dotted picture
  have fed (ram : ℕ → ImgRam) : Fed ram (fun _ => 1) (fun _ => 0x102030) (picture ram) 0 :=
    connected_fed (fun _ => slave) ram (fun _ => 1) (fun _ => 0x102030) 0
  refine screen_hidden (fed blank) (fed dotted) (fun _ => rfl) (fun t p onScreen left _ => ?_)
    (shownAt 1 0 0)
  have corner : Pixel.OnScreen ⟨0, 0⟩ := by constructor <;> simp
  have apart : p.cell ≠ Pixel.cell ⟨0, 0⟩ := by
    intro same
    rw [onScreen.cell_inj corner same] at left
    exact absurd left (by decide)
  exact (decide_eq_false apart).symm

end PathAccelerator.Display
