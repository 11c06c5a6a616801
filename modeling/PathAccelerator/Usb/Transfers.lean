import Mathlib.Algebra.Order.Ring.Nat
import PathAccelerator.Host.Registers
import PathAccelerator.Semantics.Memory

/-! The transfers that main has the USB controller carry out.

Words are written through the data register of the port, which moves on through the memory
of the controller. A transfer is a list of descriptors there, linked by addresses.
-/

set_option autoImplicit false

namespace PathAccelerator.Usb

open Host

/-! ## The port of the controller -/

inductive Port where
  | data
  | mailbox
  | addr
  | status
  deriving DecidableEq

inductive Action where
  | iowr (port : Port) (value : BitVec 16)
  | usleep (microseconds : ℕ)
  | seg7Set (index : ℕ) (segMask : BitVec 8)
  | ledr (px : BitVec 16)
  | ledg (py : BitVec 16)
  | vpg (access : Access)

def usbWrite (address data : BitVec 16) : List Action := [.iowr .addr address, .iowr .data data]

/-- The write of UsbRead, whose read of the data register follows. -/
def usbRead (address : BitVec 16) : List Action := [.iowr .addr address]

/-- The memory of the controller and the address of its next word. The controller is not part
of the source; this is its documented port, whose address moves on by 2 with every word, as the
addresses noted beside the writes of main have it. -/
structure Chip where
  address : BitVec 16
  memory : BitVec 16 → BitVec 16

def Chip.perform (c : Chip) : Action → Chip
  | .iowr .addr address => { c with address }
  | .iowr .data value => ⟨c.address + 2, Function.update c.memory c.address value⟩
  | _ => c

def Chip.run (c : Chip) (actions : List Action) : Chip := actions.foldl Chip.perform c

@[simp] theorem Chip.run_append (c : Chip) (first last : List Action) :
    c.run (first ++ last) = (c.run first).run last :=
  List.foldl_append

theorem Chip.run_cons (c : Chip) (action : Action) (actions : List Action) :
    c.run (action :: actions) = (c.perform action).run actions := rfl

/-! ## Blocks of words -/

def Holds (memory : BitVec 16 → BitVec 16) (a : BitVec 16) (words : List (BitVec 16)) : Prop :=
  ∀ i v, words[i]? = some v → memory (a + BitVec.ofNat 16 (2 * i)) = v

theorem holds_cons {memory : BitVec 16 → BitVec 16} {a v : BitVec 16} {words : List (BitVec 16)} :
    Holds memory a (v :: words) ↔ memory a = v ∧ Holds memory (a + 2) words := by
  have next (i : ℕ) : a + 2 + BitVec.ofNat 16 (2 * i) = a + BitVec.ofNat 16 (2 * (i + 1)) := by
    bv_omega
  unfold Holds
  constructor
  · intro holds
    refine ⟨by simpa using holds 0 v rfl, fun i u at_i => ?_⟩
    rw [next]
    exact holds (i + 1) u at_i
  · rintro ⟨first, rest⟩ i u at_i
    cases i with
    | zero => simpa [← Option.some.inj at_i] using first
    | succ i =>
      rw [← next]
      exact rest i u at_i

theorem holds_append {memory : BitVec 16 → BitVec 16} {a : BitVec 16} {first last : List (BitVec 16)} :
    Holds memory a (first ++ last) ↔
      Holds memory a first ∧ Holds memory (a + BitVec.ofNat 16 (2 * first.length)) last := by
  induction first generalizing a with
  | nil => simp [Holds]
  | cons v first ih =>
    have next : a + 2 + BitVec.ofNat 16 (2 * first.length) =
        a + BitVec.ofNat 16 (2 * (first.length + 1)) := by
      bv_omega
    rw [List.cons_append, holds_cons, holds_cons, ih, and_assoc, next, List.length_cons]

section Block

variable {words : List (BitVec 16)}

theorem Chip.run_data_other (c : Chip) {b : BitVec 16}
    (outside : ∀ i < words.length, b ≠ c.address + BitVec.ofNat 16 (2 * i)) :
    (c.run (words.map (Action.iowr .data))).memory b = c.memory b := by
  induction words generalizing c with
  | nil => rfl
  | cons v words ih =>
    have here : b ≠ c.address := by simpa using outside 0 (Nat.zero_lt_succ _)
    rw [List.map_cons, run_cons, ih]
    · exact Function.update_of_ne here v c.memory
    · intro i below
      have later := outside (i + 1) (Nat.succ_lt_succ below)
      simp only [perform]
      bv_omega

theorem Chip.run_data_holds (c : Chip) (short : words.length ≤ 2 ^ 15) :
    Holds (c.run (words.map (Action.iowr .data))).memory c.address words := by
  induction words generalizing c with
  | nil => intro i v at_i; cases at_i
  | cons v words ih =>
    rw [List.length_cons] at short
    rw [List.map_cons, run_cons, holds_cons]
    constructor
    · rw [run_data_other]
      · exact Function.update_self c.address v c.memory
      · intro i below
        simp only [perform]
        bv_omega
    · exact ih (c.perform (.iowr .data v)) (by omega)

end Block

/-! ## Descriptors -/

/-- The six words of a descriptor. The fourth holds the toggle, and the controller puts its
status next to it; the fifth it clears down to 0x03 when the transfer is done. -/
structure Td where
  base : BitVec 16
  length : BitVec 16
  device : BitVec 16
  toggle : BitVec 16
  control : BitVec 16
  next : BitVec 16
  deriving DecidableEq

def Td.words (td : Td) : List (BitVec 16) :=
  [td.base, td.length, td.device, td.toggle, td.control, td.next]

def Td.fetch (memory : BitVec 16 → BitVec 16) (a : BitVec 16) : Td :=
  ⟨memory a, memory (a + 2), memory (a + 4), memory (a + 6), memory (a + 8), memory (a + 10)⟩

inductive Chain (memory : BitVec 16 → BitVec 16) : BitVec 16 → List Td → Prop where
  | done : Chain memory 0 []
  | link {a : BitVec 16} {rest : List Td} : a ≠ 0 →
      Chain memory (Td.fetch memory a).next rest → Chain memory a (Td.fetch memory a :: rest)

theorem fetch_of_holds {memory : BitVec 16 → BitVec 16} {a : BitVec 16} {td : Td}
    (holds : Holds memory a td.words) : Td.fetch memory a = td := by
  have add (x y : BitVec 16) : a + x + y = a + (x + y) := BitVec.add_assoc a x y
  simp only [Td.words, holds_cons, add] at holds
  obtain ⟨base, length, device, toggle, control, next, -⟩ := holds
  cases td
  simp_all [Td.fetch]

/-! ## Control transfers -/

structure ControlTransfer where
  device : BitVec 16
  request : List (BitVec 16)
  buffers : List (BitVec 16 × BitVec 16)
  status : BitVec 16

def setupTd (device : BitVec 16) : Td := ⟨0x050C, 0x0008, device, 0x0001, 0x0013, 0x0514⟩

/-- The data phase, with the first descriptor at an address, and the status phase. -/
def phases (status : BitVec 16) : BitVec 16 → Bool → List (BitVec 16 × BitVec 16) → List Td
  | _, _, [] => [⟨0x0000, 0x0000, status, 0x0041, 0x0013, 0x0000⟩]
  | a, odd, (base, length) :: buffers =>
    ⟨base, length, 0x0290, if odd then 0x0041 else 0x0001, 0x0013, a + 12⟩ ::
      phases status (a + 12) (!odd) buffers

def ControlTransfer.tds (t : ControlTransfer) : List Td :=
  setupTd t.device :: phases t.status 0x0514 true t.buffers

/-- The words from 0x0500 on: the request stands behind the first descriptor. -/
def ControlTransfer.words (t : ControlTransfer) : List (BitVec 16) :=
  (setupTd t.device).words ++ (t.request ++ (phases t.status 0x0514 true t.buffers).flatMap Td.words)

inductive Request where
  | setAddress
  | deviceDescriptor1
  | deviceDescriptor2
  | configurationDescriptor1
  | configurationDescriptor2
  | setConfiguration
  | classRequestOut
  | classDescriptor21
  | classDescriptor22
  deriving DecidableEq

def getDescriptor (request : List (BitVec 16)) (buffers : List (BitVec 16 × BitVec 16)) :
    ControlTransfer :=
  ⟨0x02D0, request, buffers, 0x0210⟩

def Request.transfer : Request → ControlTransfer
  | .setAddress => ⟨0x00D0, [0x0500, 0x0002, 0x0000, 0x0000], [], 0x0090⟩
  | .deviceDescriptor1 => getDescriptor [0x0680, 0x0100, 0x0000, 0x0008] [(0x052C, 8)]
  | .deviceDescriptor2 => getDescriptor [0x0680, 0x0100, 0x0000, 0x0012]
      [(0x0544, 8), (0x054c, 8), (0x0554, 2)]
  | .configurationDescriptor1 => getDescriptor [0x0680, 0x0200, 0x0000, 0x0009]
      [(0x0544, 8), (0x054c, 1)]
  | .configurationDescriptor2 => getDescriptor [0x0680, 0x0200, 0x0000, 0x00FF]
      [(0x055c, 8), (0x0564, 8), (0x056c, 8), (0x0574, 8), (0x057c, 2)]
  | .setConfiguration => ⟨0x02D0, [0x0900, 0x0001, 0x0000, 0x0000], [], 0x0290⟩
  | .classRequestOut => ⟨0x02D0, [0x0A21, 0x0000, 0x0000, 0x0000], [], 0x0290⟩
  | .classDescriptor21 => getDescriptor [0x0681, 0x2100, 0x0000, 0x007B] [(0x0544, 8)]
  | .classDescriptor22 => getDescriptor [0x0681, 0x2200, 0x0000, 0x007B]
      [(0x0580, 8), (0x0588, 8), (0x0590, 8), (0x0598, 8), (0x05a0, 8), (0x05a8, 8), (0x05b0, 8),
        (0x05b8, 3)]

def reportTd (dataSize toggle : BitVec 8) : Td where
  base := 0x051c
  length := if dataSize = 8 then 0x0006 else 0x000f &&& dataSize.setWidth 16
  device := 0x0291
  toggle := if toggle % 2 ≠ 0 then 0x0001 else 0x0041
  control := 0x0013
  next := 0x0000

def hpiSie1MsgAdr : BitVec 16 := 0x0144
def husbSie1PCurrentTDPtr : BitVec 16 := 0x01B0

/-- The words are written from 0x0500 on, and the controller is pointed to them. -/
def submit (words : List (BitVec 16)) : List Action :=
  .iowr .addr 0x0500 :: words.map (Action.iowr .data) ++ usbWrite husbSie1PCurrentTDPtr 0x0500

/-! ## What the controller is handed -/

structure Handed (c : Chip) (tds : List Td) : Prop where
  pointer : c.memory husbSie1PCurrentTDPtr = 0x0500
  chain : Chain c.memory 0x0500 tds

theorem run_submit (c : Chip) {words : List (BitVec 16)} (short : words.length ≤ 2 ^ 10) :
    Holds (c.run (submit words)).memory 0x0500 words ∧
      (c.run (submit words)).memory husbSie1PCurrentTDPtr = 0x0500 := by
  have written : Holds ((⟨0x0500, c.memory⟩ : Chip).run (words.map (Action.iowr .data))).memory
      0x0500 words := Chip.run_data_holds ⟨0x0500, c.memory⟩ (by omega)
  have after : (c.run (submit words)).memory = Function.update
      ((⟨0x0500, c.memory⟩ : Chip).run (words.map (Action.iowr .data))).memory
      husbSie1PCurrentTDPtr 0x0500 := by
    rw [submit, List.cons_append, Chip.run_cons, Chip.run_append]
    rfl
  rw [after]
  refine ⟨fun i v at_i => ?_, Function.update_self _ _ _⟩
  have below : i < words.length := (List.getElem?_eq_some_iff.mp at_i).1
  rw [Function.update_of_ne, written i v at_i]
  unfold husbSie1PCurrentTDPtr
  bv_omega

theorem chain_cons {memory : BitVec 16 → BitVec 16} {a : BitVec 16} {td : Td} {rest : List Td}
    (somewhere : a ≠ 0) (holds : Holds memory a td.words) (further : Chain memory td.next rest) :
    Chain memory a (td :: rest) := by
  obtain rfl := fetch_of_holds holds
  exact .link somewhere further

theorem phases_chain {memory : BitVec 16 → BitVec 16} (status : BitVec 16) {a : BitVec 16} (odd : Bool)
    {buffers : List (BitVec 16 × BitVec 16)} (low : 0 < a.toNat)
    (high : a.toNat + 12 * buffers.length < 2 ^ 16)
    (holds : Holds memory a ((phases status a odd buffers).flatMap Td.words)) :
    Chain memory a (phases status a odd buffers) := by
  induction buffers generalizing a odd with
  | nil =>
    rw [phases, List.flatMap_cons, List.flatMap_nil, List.append_nil] at holds
    exact chain_cons (by rintro rfl; exact absurd low (by decide)) holds .done
  | cons buffer buffers ih =>
    rw [List.length_cons] at high
    have next : (a + 12).toNat = a.toNat + 12 := by
      rw [BitVec.toNat_add]
      exact Nat.mod_eq_of_lt (by simp; omega)
    rw [phases, List.flatMap_cons, holds_append] at holds
    have further := ih (a := a + 12) (!odd) (by omega) (by omega) holds.2
    exact chain_cons (by rintro rfl; exact absurd low (by decide)) holds.1 further

/-- Whatever the memory held before, a control transfer is found with all its phases, and
the request where its first descriptor says. -/
theorem ControlTransfer.handed (t : ControlTransfer) (four : t.request.length = 4)
    (few : t.buffers.length < 64) (c : Chip) :
    Handed (c.run (submit t.words)) t.tds ∧
      Holds (c.run (submit t.words)).memory (setupTd t.device).base t.request := by
  have count (a : BitVec 16) (odd : Bool) (buffers : List (BitVec 16 × BitVec 16)) :
      ((phases t.status a odd buffers).flatMap Td.words).length = 6 * (buffers.length + 1) := by
    induction buffers generalizing a odd with
    | nil => rfl
    | cons buffer buffers ih =>
      rw [phases, List.flatMap_cons, List.length_append, ih, List.length_cons]
      simp only [Td.words, List.length_cons, List.length_nil]
      omega
  have short : t.words.length ≤ 2 ^ 10 := by
    rw [words, List.length_append, List.length_append, count, four]
    simp only [Td.words, List.length_cons, List.length_nil]
    omega
  obtain ⟨written, pointer⟩ := run_submit c short
  rw [words, holds_append, holds_append, four] at written
  obtain ⟨setup, request, rest⟩ := written
  refine ⟨⟨pointer, chain_cons (by decide) setup ?_⟩, request⟩
  have low : 0 < (0x0514 : BitVec 16).toNat := by decide
  have high : (0x0514 : BitVec 16).toNat + 12 * t.buffers.length < 2 ^ 16 := by
    simp
    omega
  exact phases_chain t.status true low high rest

theorem reportTd_handed (dataSize toggle : BitVec 8) (c : Chip) :
    Handed (c.run (submit (reportTd dataSize toggle).words)) [reportTd dataSize toggle] := by
  have short : (reportTd dataSize toggle).words.length ≤ 2 ^ 10 := by simp [Td.words]
  obtain ⟨written, pointer⟩ := run_submit c short
  exact ⟨pointer, chain_cons (by decide) written .done⟩

def Ascending : ℕ → List (BitVec 16 × BitVec 16) → Prop
  | _, [] => True
  | a, (base, length) :: buffers => a ≤ base.toNat ∧ Ascending (base.toNat + length.toNat) buffers

instance instDecidableAscending : ∀ (a : ℕ) (buffers : List (BitVec 16 × BitVec 16)), Decidable (Ascending a buffers)
  | _, [] => .isTrue trivial
  | a, (base, length) :: buffers =>
    have := instDecidableAscending (base.toNat + length.toNat) buffers
    inferInstanceAs (Decidable (a ≤ base.toNat ∧ _))

/-- No buffer of a request lies over its descriptors or over another one, and together they
do not exceed the length that is asked for. -/
theorem Request.buffers_apart (r : Request) :
    Ascending (0x0500 + 2 * r.transfer.words.length) r.transfer.buffers ∧
      (r.transfer.buffers.map fun buffer => buffer.2.toNat).sum ≤
        (r.transfer.request.getD 3 0).toNat := by
  cases r <;> decide

end PathAccelerator.Usb
