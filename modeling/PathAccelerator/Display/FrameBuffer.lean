import PathAccelerator.Display.Line
import PathAccelerator.Host.Session
import PathAccelerator.Semantics.Memory

/-! The memory behind VGA_OSD_RAM as the processor writes it, one bit a pixel. -/

set_option autoImplicit false

namespace PathAccelerator.Display

open Host Semantics

/-! ## Cells -/

/-- The bits of Img_RAM by the address of its write port. -/
abbrev ImgRam := BitVec 19 → Bool

/-- `{iWR_ADDR[18:3],~iWR_ADDR[2:0]}`. -/
def wraddress (iWrAddr : BitVec 19) : BitVec 19 :=
  iWrAddr.extractLsb' 3 16 ++ ~~~iWrAddr.extractLsb' 0 3

theorem getLsbD_wraddress (address : BitVec 19) (i : ℕ) :
    (wraddress address).getLsbD i =
      if i < 3 then !address.getLsbD i else address.getLsbD i := by
  unfold wraddress
  rw [BitVec.getLsbD_append]
  split_ifs with low
  · simp [low]
  · have same : 3 + (i - 3) = i := by omega
    rw [BitVec.getLsbD_extractLsb', same]
    by_cases inside : i - 3 < 16
    · simp [inside]
    · simp [inside, BitVec.getLsbD_of_ge address i (by omega)]

theorem wraddress_wraddress (address : BitVec 19) : wraddress (wraddress address) = address := by
  apply BitVec.eq_of_getLsbD_eq
  intro i _
  rw [getLsbD_wraddress, getLsbD_wraddress]
  split_ifs with low
  · exact Bool.not_not _
  · rfl

theorem wraddress_injective : Function.Injective wraddress :=
  Function.LeftInverse.injective wraddress_wraddress

/-- A word of the reading port, the lowest address in its lowest bit. -/
def ImgRam.word (ram : ImgRam) (rdaddress : BitVec 16) : BitVec 8 :=
  (BitVec.ofBoolListLE ((List.range 8).map fun i => ram (rdaddress ++ BitVec.ofNat 3 i))).cast
    (by simp)

theorem getLsbD_word (ram : ImgRam) (rdaddress : BitVec 16) (bit : BitVec 3) :
    (ram.word rdaddress).getLsbD bit.toNat = ram (rdaddress ++ bit) := by
  have bound : bit.toNat < 8 := bit.isLt
  rw [ImgRam.word, BitVec.getLsbD_cast, BitVec.getLsbD_ofBoolListLE]
  simp [List.getD_eq_getElem?_getD, List.getElem?_range bound]

/-- The write port, which iWR_EN opens for addresses below RAM_SIZE only. -/
def osdWrite : Access → Option (BitVec 19 × Bool)
  | .write address value =>
    if address < ramSize then some (wraddress (BitVec.ofNat 19 address), value.getLsbD 0) else none
  | .read _ => none

theorem osdWrite_register {address : ℕ} (above : ramSize ≤ address) (value : BitVec 16) :
    osdWrite (.write address value) = none := if_neg (Nat.not_lt.mpr above)

def ImgRam.perform (ram : ImgRam) (access : Access) : ImgRam := store ram (osdWrite access).toList

theorem foldl_perform (ram : ImgRam) (accesses : List Access) :
    accesses.foldl ImgRam.perform ram = store ram (accesses.filterMap osdWrite) := by
  induction accesses generalizing ram with
  | nil => rfl
  | cons access accesses ih =>
    rw [List.foldl_cons, ih, ImgRam.perform, List.filterMap_cons]
    cases osdWrite access <;> rfl

/-! ## Pixels -/

def Pixel.cell (p : Pixel) : BitVec 19 := wraddress (BitVec.ofNat 19 p.offset.toNat)

def ImgRam.on (ram : ImgRam) (p : Pixel) : Bool := ram p.cell

theorem Pixel.OnScreen.cell_inj {p q : Pixel} (inside : p.OnScreen) (inside' : q.OnScreen)
    (same : p.cell = q.cell) : p = q := by
  have address := congrArg BitVec.toNat (wraddress_injective same)
  obtain ⟨nonneg, below⟩ := inside.offset_bounds
  obtain ⟨nonneg', below'⟩ := inside'.offset_bounds
  unfold osdMemAddr at below below'
  rw [BitVec.toNat_ofNat, BitVec.toNat_ofNat, Nat.mod_eq_of_lt (by omega),
    Nat.mod_eq_of_lt (by omega)] at address
  obtain ⟨left, right, top, bottom⟩ := inside
  obtain ⟨left', right', top', bottom'⟩ := inside'
  -- Row and column are the digits of the offset, which the 19 bits of an address hold.
  have offsets : p.y * 640 + p.x = q.y * 640 + q.x := by
    unfold Pixel.offset at *
    omega
  obtain ⟨x, y⟩ := p
  obtain ⟨x', y'⟩ := q
  dsimp only at *
  rw [Pixel.mk.injEq]
  omega

section Pixels

variable {p : Pixel} (inside : p.OnScreen)

include inside

theorem osdWrite_setPixel : osdWrite (vgaSetPixel p) = some (p.cell, true) :=
  if_pos inside.address_lt

theorem osdWrite_clrPixel : osdWrite (vgaClrPixel p) = some (p.cell, false) :=
  if_pos inside.address_lt

end Pixels

theorem cell_mem_iff {pixels : List Pixel} (inside : ∀ p ∈ pixels, p.OnScreen) {p : Pixel}
    (onScreen : p.OnScreen) : p.cell ∈ pixels.map Pixel.cell ↔ p ∈ pixels := by
  constructor
  · rw [List.mem_map]
    rintro ⟨q, member, same⟩
    rwa [onScreen.cell_inj (inside q member) same.symm]
  · exact List.mem_map_of_mem

theorem filterMap_setPixel {pixels : List Pixel} (inside : ∀ p ∈ pixels, p.OnScreen) :
    (pixels.map vgaSetPixel).filterMap osdWrite =
      (pixels.map Pixel.cell).map fun cell => (cell, true) := by
  rw [List.filterMap_map, List.map_map]
  exact List.filterMap_eq_map_iff_forall_eq_some.mpr fun p member =>
    osdWrite_setPixel (inside p member)

theorem filterMap_clrPixel {pixels : List Pixel} (inside : ∀ p ∈ pixels, p.OnScreen) :
    (pixels.map vgaClrPixel).filterMap osdWrite =
      (pixels.map Pixel.cell).map fun cell => (cell, false) := by
  rw [List.filterMap_map, List.map_map]
  exact List.filterMap_eq_map_iff_forall_eq_some.mpr fun p member =>
    osdWrite_clrPixel (inside p member)

theorem on_after_set (ram : ImgRam) {pixels : List Pixel} (inside : ∀ p ∈ pixels, p.OnScreen)
    {p : Pixel} (onScreen : p.OnScreen) :
    ImgRam.on ((pixels.map vgaSetPixel).foldl ImgRam.perform ram) p = true ↔
      p ∈ pixels ∨ ram.on p = true := by
  rw [foldl_perform, filterMap_setPixel inside, ImgRam.on, store_const]
  simp only [cell_mem_iff inside onScreen, ImgRam.on]
  split_ifs with member <;> simp [member]

/-! ## The start of main -/

/-- The pixels in the order of the two loops of Vga_clear_screen. -/
def screen : List Pixel :=
  (List.range 480).flatMap fun (y : ℕ) => (List.range 640).map fun (x : ℕ) => ⟨x, y⟩

def vgaClearScreen : List Access := screen.map vgaClrPixel

theorem mem_screen_iff (p : Pixel) : p ∈ screen ↔ p.OnScreen := by
  unfold screen
  rw [List.mem_flatMap]
  constructor
  · rintro ⟨y, row, member⟩
    obtain ⟨x, column, rfl⟩ := List.mem_map.mp member
    rw [List.mem_range] at row column
    constructor <;> dsimp only <;> omega
  · rintro ⟨left, right, top, bottom⟩
    refine ⟨p.y.toNat, List.mem_range.mpr (by omega), List.mem_map.mpr
      ⟨p.x.toNat, List.mem_range.mpr (by omega), ?_⟩⟩
    rw [Int.toNat_of_nonneg left, Int.toNat_of_nonneg top]

theorem off_after_clear (ram : ImgRam) {p : Pixel} (onScreen : p.OnScreen) :
    ImgRam.on (vgaClearScreen.foldl ImgRam.perform ram) p = false := by
  have inside : ∀ p ∈ screen, p.OnScreen := fun p => (mem_screen_iff p).mp
  rw [foldl_perform, vgaClearScreen, filterMap_clrPixel inside, ImgRam.on, store_const]
  rw [if_pos ((cell_mem_iff inside onScreen).mpr ((mem_screen_iff p).mpr onScreen))]

end PathAccelerator.Display
