import PathAccelerator.Display.FrameBuffer

/-! VGA_NIOS_CTRL with its memory as a store.

Each address that can be written is a location with a width of its own: one bit for a
pixel, and 4, 10 or 16 for a register.
-/

set_option autoImplicit false

namespace PathAccelerator.Display

open Host Semantics

/-! ## Locations -/

structure BusSlave where
  slave : VgaNiosCtrl
  ram : ImgRam

def BusSlave.perform (state : BitVec 3) (outputs : Hardware.Outputs) (b : BusSlave) (access : Access) :
    BusSlave :=
  ⟨b.slave.perform state outputs access, b.ram.perform access⟩

inductive Location where
  | pixel (address : Fin ramSize)
  | mCursorRgbN
  | display (i : Fin 11)
  | clkNios
  | reset
  | start
  | transCount

namespace Location

def address : Location → ℕ
  | .pixel address => address
  | .mCursorRgbN => ramSize
  | .display i => ramSize + 1 + i
  | .clkNios => ramSize + 12
  | .reset => ramSize + 13
  | .start => ramSize + 14
  | .transCount => ramSize + 17

def width : Location → ℕ
  | .pixel _ => 1
  | .mCursorRgbN => 4
  | .display _ => 10
  | .clkNios | .reset | .start | .transCount => 16

end Location

def BusSlave.content (b : BusSlave) : Location → ℕ
  | .pixel address => (b.ram (wraddress (BitVec.ofNat 19 address))).toNat
  | .mCursorRgbN => b.slave.mCursorRgbN.toNat
  | .display i => (b.slave.display i).toNat
  | .clkNios => b.slave.clkNios16.toNat
  | .reset => b.slave.reset16.toNat
  | .start => b.slave.start16.toNat
  | .transCount => b.slave.transCount16.toNat

def Location.written (l : Location) : Access → Option ℕ
  | .write address value => if address = l.address then some (value.toNat % 2 ^ l.width) else none
  | .read _ => none

/-! ## One access -/

section Perform

variable (state : BitVec 3) (outputs : Hardware.Outputs) (b : BusSlave)

theorem wraddress_ofNat_inj {a address : ℕ} (below : a < ramSize) (below' : address < ramSize) :
    wraddress (BitVec.ofNat 19 a) = wraddress (BitVec.ofNat 19 address) ↔ a = address := by
  unfold ramSize at below below'
  rw [wraddress_injective.eq_iff, ← BitVec.toNat_inj, BitVec.toNat_ofNat, BitVec.toNat_ofNat,
    Nat.mod_eq_of_lt (by omega), Nat.mod_eq_of_lt (by omega)]

theorem content_pixel (address : ℕ) (value : BitVec 16) (a : Fin ramSize) :
    (b.perform state outputs (.write address value)).content (.pixel a) =
      if address = a.val then value.toNat % 2 else b.content (.pixel a) := by
  have bit : (value.getLsbD 0).toNat = value.toNat % 2 := by
    rw [BitVec.getLsbD, Nat.toNat_testBit, pow_zero, Nat.div_one]
  by_cases inside : address < ramSize
  · have memory : (b.ram.perform (.write address value)) (wraddress (BitVec.ofNat 19 a)) =
        if address = a.val then value.getLsbD 0 else b.ram (wraddress (BitVec.ofNat 19 a)) := by
      rw [ImgRam.perform, osdWrite, if_pos inside, Option.toList_some, store_cons, store_nil,
        Function.update_apply]
      simp only [wraddress_ofNat_inj a.isLt inside, eq_comm]
    simp only [BusSlave.content, BusSlave.perform, memory]
    split_ifs
    · exact bit
    · rfl
  -- Addresses that the write port does not take belong to no pixel.
  · have other : address ≠ a.val := fun same => inside (same ▸ a.isLt)
    rw [if_neg other]
    simp only [BusSlave.content, BusSlave.perform, ImgRam.perform, osdWrite_register (Nat.not_lt.mp inside),
      Option.toList_none, store_nil]

theorem write_display_eq (c : VgaNiosCtrl) (address : ℕ) (value : BitVec 16) (i : Fin 11) :
    (c.write address value).display i =
      if address = ramSize + 1 + i then value.setWidth 10 else c.display i := by
  have bound := i.isLt
  unfold VgaNiosCtrl.write
  by_cases here : address = ramSize + 1 + i
  · rw [if_pos here]
    iterate 5 rw [if_neg (by omega)]
    exact if_pos here
  · rw [if_neg here]
    split_ifs <;> first | rfl | exact if_neg here

theorem content_write (l : Location) (address : ℕ) (value : BitVec 16) :
    (b.perform state outputs (.write address value)).content l =
      if address = l.address then value.toNat % 2 ^ l.width else b.content l := by
  have whole : value.toNat = value.toNat % 2 ^ 16 := (Nat.mod_eq_of_lt value.isLt).symm
  by_cases here : address = l.address
  · rw [if_pos here]
    cases l with
    | pixel a => exact (content_pixel state outputs b address value a).trans (if_pos here)
    | display i =>
      have display := (write_display_eq b.slave address value i).trans (if_pos here)
      exact (congrArg BitVec.toNat display).trans (BitVec.toNat_setWidth 10 value)
    | mCursorRgbN =>
      subst here
      exact BitVec.toNat_setWidth 4 value
    | clkNios | reset | start | transCount =>
      subst here
      exact whole
  · rw [if_neg here]
    cases l with
    | pixel a => exact (content_pixel state outputs b address value a).trans (if_neg here)
    | display i =>
      have display := (write_display_eq b.slave address value i).trans (if_neg here)
      exact congrArg BitVec.toNat display
    -- The ports of the accelerator and the flags: every other branch leaves them alone.
    | _ =>
      simp only [BusSlave.content, BusSlave.perform, VgaNiosCtrl.perform, VgaNiosCtrl.write]
      split_ifs <;> first | rfl | exact absurd (by assumption) here

theorem content_read (l : Location) (address : ℕ) :
    (b.perform state outputs (.read address)).content l = b.content l := by
  have kept : ∃ data, b.slave.read address state outputs = { b.slave with readdata := data } := by
    unfold VgaNiosCtrl.read
    repeat
      split
      · exact ⟨_, rfl⟩
    exact ⟨_, rfl⟩
  obtain ⟨data, kept⟩ := kept
  simp only [BusSlave.content, BusSlave.perform, VgaNiosCtrl.perform, ImgRam.perform, osdWrite, kept]
  rfl

theorem content_perform (l : Location) (access : Access) :
    (b.perform state outputs access).content l = (l.written access).getD (b.content l) := by
  cases access with
  | write address value =>
    rw [content_write, Location.written]
    split_ifs <;> rfl
  | read address => exact content_read state outputs b l address

/-- A register is read back; a pixel is not, the read leaves the data of the read before. -/
theorem readdata_read (l : Location) :
    (b.slave.read l.address state outputs).readdata.toNat =
      if l.address < ramSize then b.slave.readdata.toNat else b.content l := by
  cases l with
  | pixel a =>
    have below := a.isLt
    -- No branch of a read is for the memory.
    rw [Location.address, if_pos below, VgaNiosCtrl.read]
    iterate 8 rw [if_neg (by omega)]
    rw [dif_neg (by omega)]
  | display i =>
    have bound := i.isLt
    have same : ramSize + 1 + i.val - (ramSize + 1) = i.val := by omega
    rw [Location.address, if_neg (by omega), VgaNiosCtrl.read]
    iterate 8 rw [if_neg (by omega)]
    rw [dif_pos (by omega)]
    simp only [same, BitVec.toNat_setWidth, BusSlave.content]
    exact Nat.mod_eq_of_lt ((b.slave.display i).isLt.trans (by decide))
  | mCursorRgbN =>
    have narrow := Nat.mod_eq_of_lt (b.slave.mCursorRgbN.isLt.trans (by decide : 2 ^ 4 < 2 ^ 16))
    exact (BitVec.toNat_setWidth 16 b.slave.mCursorRgbN).trans narrow
  | clkNios | reset | start | transCount => rfl

end Perform

/-! ## Histories -/

def busSlave (ports : ℕ → BitVec 3 × Hardware.Outputs) (accesses : ℕ → Access) (b₀ : BusSlave) :
    ℕ → BusSlave
  | 0 => b₀
  | n + 1 => (busSlave ports accesses b₀ n).perform (ports n).1 (ports n).2 (accesses n)

theorem busSlave_content (ports : ℕ → BitVec 3 × Hardware.Outputs) (accesses : ℕ → Access)
    (b₀ : BusSlave) (l : Location) (n : ℕ) : (busSlave ports accesses b₀ n).content l =
      storeUntil (fun k => (l.written (accesses k)).map (Prod.mk ())) (fun _ => b₀.content l) n () := by
  induction n with
  | zero => rfl
  | succ n ih =>
    rw [busSlave, content_perform, ih, storeUntil]
    cases l.written (accesses n) <;> rfl

theorem written_eq_some_iff (l : Location) (access : Access) (content : ℕ) :
    l.written access = some content ↔
      ∃ value, access = .write l.address value ∧ content = value.toNat % 2 ^ l.width := by
  cases access with
  | write address value =>
    rw [Location.written]
    split_ifs with here
    · rw [here]
      simp [eq_comm]
    · simp [here]
  | read address => simp [Location.written]

/-- After any accesses, a location holds the value last written to it, as far as its width
goes, and a register is read back so. Nothing else changes a location: neither accesses to
the others, nor reads, nor writes to the ports of the accelerator. -/
theorem slave_stores (ports : ℕ → BitVec 3 × Hardware.Outputs) (accesses : ℕ → Access)
    (b₀ : BusSlave) (n : ℕ) (l : Location) :
    let b := busSlave ports accesses b₀ n
    ((∃ k < n, ∃ value, accesses k = .write l.address value ∧
        (∀ j, k < j → j < n → ∀ other, accesses j ≠ .write l.address other) ∧
        b.content l = value.toNat % 2 ^ l.width) ∨
      (∀ j < n, ∀ value, accesses j ≠ .write l.address value) ∧ b.content l = b₀.content l) ∧
    ∀ state outputs, (b.slave.read l.address state outputs).readdata.toNat =
      if l.address < ramSize then b.slave.readdata.toNat else b.content l := by
  intro b
  refine ⟨?_, fun state outputs => readdata_read state outputs b l⟩
  have other {j : ℕ} (none : ∀ u, (l.written (accesses j)).map (Prod.mk ()) ≠ some ((), u))
      (value : BitVec 16) : accesses j ≠ .write l.address value := by
    intro same
    refine none (value.toNat % 2 ^ l.width) ?_
    rw [same, Location.written, if_pos rfl]
    rfl
  have content : b.content l = _ := busSlave_content ports accesses b₀ l n
  rw [content]
  rcases storeUntil_cases (fun k => (l.written (accesses k)).map (Prod.mk ()))
    (fun _ => b₀.content l) () n with ⟨k, before, here, after⟩ | ⟨untouched, first⟩
  · obtain ⟨content, wrote, same⟩ := Option.map_eq_some_iff.mp here
    obtain ⟨value, access, left⟩ := (written_eq_some_iff l (accesses k) content).mp wrote
    refine .inl ⟨k, before, value, access, fun j later earlier => other (after j later earlier), ?_⟩
    rw [← left, (Prod.mk.inj same).2]
  · exact .inr ⟨fun j before => other (untouched j before), first⟩

end PathAccelerator.Display
