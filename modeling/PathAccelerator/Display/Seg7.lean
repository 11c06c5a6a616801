import Mathlib.Data.Nat.Digits.Defs
import PathAccelerator.Semantics.Memory

/-! The seven-segment digits.

SEG7.c writes a number to the eight digits, in hexadecimal or in decimal, and SEG7_IF
keeps their segments.
-/

set_option autoImplicit false

namespace PathAccelerator.Display

open Semantics

/-! ## SEG7.c -/

def szMap : List (BitVec 8) :=
  [63, 6, 91, 79, 102, 109, 125, 7, 127, 111, 119, 124, 57, 94, 121, 113]

/-- The loop of SEG7_Hex and SEG7_Decimal, which differ in how they take a digit off: the
calls of SEG7_SET for the digits from `i` on. -/
def seg7Digits (digit rest : BitVec 32 → BitVec 32) (pointMask : BitVec 8) :
    ℕ → ℕ → BitVec 32 → BitVec 8 → List (ℕ × BitVec 8)
  | 0, _, _, _ => []
  | left + 1, i, data, mask =>
    let segMask := szMap.getD (digit data).toNat 0
    (i, if pointMask &&& mask ≠ 0 then segMask ||| 0x80 else segMask) ::
      seg7Digits digit rest pointMask left (i + 1) (rest data) (mask <<< 1)

def seg7Hex (data : BitVec 32) (pointMask : BitVec 8) : List (ℕ × BitVec 8) :=
  seg7Digits (· &&& 0x0F) (· >>> 4) pointMask 8 0 data 0x01

def seg7Decimal (data : BitVec 32) (pointMask : BitVec 8) : List (ℕ × BitVec 8) :=
  seg7Digits (· % 10) (· / 10) pointMask 8 0 data 0x01

structure Base (b : ℕ) (digit rest : BitVec 32 → BitVec 32) : Prop where
  digit_toNat : ∀ data, (digit data).toNat = data.toNat % b
  rest_toNat : ∀ data, (rest data).toNat = data.toNat / b

theorem base_hex : Base 16 (· &&& 0x0F) (· >>> 4) where
  digit_toNat data := by
    rw [BitVec.toNat_and]
    exact Nat.and_two_pow_sub_one_eq_mod data.toNat 4
  rest_toNat data := by
    rw [BitVec.toNat_ushiftRight, Nat.shiftRight_eq_div_pow]

theorem base_decimal : Base 10 (· % 10) (· / 10) where
  digit_toNat _ := BitVec.toNat_umod
  rest_toNat _ := BitVec.toNat_udiv

def segments (n : ℕ) (point : Bool) : BitVec 8 :=
  if point then szMap.getD n 0 ||| 0x80 else szMap.getD n 0

theorem seg7Digits_eq {b : ℕ} {digit rest : BitVec 32 → BitVec 32} (base : Base b digit rest)
    (pointMask : BitVec 8) (left i : ℕ) (data : BitVec 32) (mask : BitVec 8) :
    seg7Digits digit rest pointMask left i data mask = (List.range left).map fun j =>
      (i + j, segments (data.toNat / b ^ j % b) (pointMask &&& mask <<< j ≠ 0)) := by
  induction left generalizing i data mask with
  | zero => rfl
  | succ left ih =>
    rw [seg7Digits, ih, List.range_succ_eq_map, List.map_cons, List.map_map, base.digit_toNat]
    congr 1
    · simp [segments]
    · apply List.map_congr_left
      intro j _
      have shifted : mask <<< 1 <<< j = mask <<< (j + 1) := by
        rw [← BitVec.shiftLeft_add, Nat.add_comm]
      have divided : data.toNat / b / b ^ j = data.toNat / b ^ (j + 1) := by
        rw [Nat.div_div_eq_div_mul, pow_succ']
      rw [base.rest_toNat, shifted, divided, Function.comp_apply, Nat.add_right_comm, Nat.add_assoc]

/-! ## SEG7_IF -/

/-- The register file with eight bits for each digit, and the data of the last read. -/
structure Seg7If where
  regFile : BitVec 3 → BitVec 8
  readData : BitVec 8

/-- A falling edge of s_clk. -/
def Seg7If.negedge (reset write read : Bool) (address : BitVec 3) (writedata : BitVec 8)
    (c : Seg7If) : Seg7If :=
  if reset then { c with regFile := fun _ => 0xFF }
  else if write then { c with regFile := Function.update c.regFile address writedata }
  else if read then { c with readData := c.regFile address }
  else c

def Seg7If.seg7 (c : Seg7If) (digit : BitVec 3) : BitVec 8 := ~~~ c.regFile digit

def Seg7If.perform (c : Seg7If) (calls : List (ℕ × BitVec 8)) : Seg7If :=
  calls.foldl (fun c call => c.negedge false true false (BitVec.ofNat 3 call.1) call.2) c

theorem Seg7If.regFile_perform (c : Seg7If) (calls : List (ℕ × BitVec 8)) :
    (c.perform calls).regFile =
      store c.regFile (calls.map fun call => (BitVec.ofNat 3 call.1, call.2)) := by
  induction calls generalizing c with
  | nil => rfl
  | cons call calls ih =>
    rw [List.map_cons, store_cons]
    exact ih (c.negedge false true false (BitVec.ofNat 3 call.1) call.2)

/-! ## What the digits show -/

def Seg7If.lit (c : Seg7If) (digit : BitVec 3) : BitVec 7 := (~~~ c.seg7 digit).setWidth 7

def Seg7If.point (c : Seg7If) (digit : BitVec 3) : Bool := (~~~ c.seg7 digit).getLsbD 7

/-- The number that someone reads off the digits, digit 0 being the last one. -/
def Seg7If.reading (c : Seg7If) (b : ℕ) : ℕ :=
  Nat.ofDigits b ((List.range 8).map fun i =>
    (szMap.map (BitVec.setWidth 7)).idxOf (c.lit (BitVec.ofNat 3 i)))

theorem idxOf_segments {n : ℕ} (digit : n < 16) (point : Bool) :
    (szMap.map (BitVec.setWidth 7)).idxOf ((segments n point).setWidth 7) = n := by
  revert n point
  decide

theorem segments_point {n : ℕ} (digit : n < 16) (point : Bool) :
    (segments n point).getLsbD 7 = point := by
  revert n point
  decide

theorem ofDigits_range (b n k : ℕ) :
    Nat.ofDigits b ((List.range k).map fun i => n / b ^ i % b) = n % b ^ k := by
  induction k with
  | zero => simp [Nat.mod_one]
  | succ k ih =>
    rw [List.range_succ, List.map_append, Nat.ofDigits_append, ih, List.length_map,
      List.length_range, List.map_singleton, Nat.ofDigits_singleton, Nat.mod_pow_succ]

theorem test_bit (pointMask : BitVec 8) {i : ℕ} (below : i < 8) :
    decide (pointMask &&& 0x01#8 <<< i ≠ 0) = pointMask.getLsbD i := by
  have power : 0x01#8 <<< i = BitVec.twoPow 8 i := rfl
  have nonzero : BitVec.twoPow 8 i ≠ 0#8 := fun zero => by
    have lit := congrArg (fun v => v.getLsbD i) zero
    simp [below] at lit
  rw [power, BitVec.and_twoPow]
  cases pointMask.getLsbD i <;> simp [nonzero]

section Shown

variable {b : ℕ} {digit rest : BitVec 32 → BitVec 32} (base : Base b digit rest)
  (c : Seg7If) (data : BitVec 32) (pointMask : BitVec 8)

include base

theorem Base.regFile_perform {i : ℕ} (below : i < 8) :
    (c.perform (seg7Digits digit rest pointMask 8 0 data 0x01)).regFile (BitVec.ofNat 3 i) =
      segments (data.toNat / b ^ i % b) (pointMask.getLsbD i) := by
  -- Each digit has a register of its own.
  have apart : ∀ i ∈ List.range 8, ∀ j ∈ List.range 8, BitVec.ofNat 3 i = BitVec.ofNat 3 j → i = j := by
    decide
  rw [Seg7If.regFile_perform, seg7Digits_eq base, List.map_map]
  simp only [Function.comp_def, Nat.zero_add]
  rw [store_map c.regFile (BitVec.ofNat 3) _ apart (List.mem_range.mpr below)]
  exact congrArg (segments _) (test_bit pointMask below)

theorem Base.shown (small : b ≤ 16) (positive : 0 < b) :
    let after := c.perform (seg7Digits digit rest pointMask 8 0 data 0x01)
    after.reading b = data.toNat % b ^ 8 ∧
      ∀ i < 8, after.point (BitVec.ofNat 3 i) = pointMask.getLsbD i := by
  intro after
  have digits (i : ℕ) : data.toNat / b ^ i % b < 16 := (Nat.mod_lt _ positive).trans_le small
  have held {i : ℕ} (below : i < 8) : ~~~ after.seg7 (BitVec.ofNat 3 i) =
      segments (data.toNat / b ^ i % b) (pointMask.getLsbD i) := by
    rw [Seg7If.seg7, BitVec.not_not]
    exact base.regFile_perform c data pointMask below
  constructor
  · rw [← ofDigits_range b data.toNat 8, Seg7If.reading]
    refine congrArg (Nat.ofDigits b) (List.map_congr_left fun i below => ?_)
    rw [Seg7If.lit, held (List.mem_range.mp below), idxOf_segments (digits i)]
  · intro i below
    rw [Seg7If.point, held below, segments_point (digits i)]

end Shown

/-- Whatever the digits showed before, the number is read back from them, as far as it has
eight digits, and the points lit are those of the mask. -/
theorem seg7_reads_back (c : Seg7If) (data : BitVec 32) (pointMask : BitVec 8) :
    (c.perform (seg7Hex data pointMask)).reading 16 = data.toNat ∧
    (c.perform (seg7Decimal data pointMask)).reading 10 = data.toNat % 10 ^ 8 ∧
    ∀ i < 8, (c.perform (seg7Hex data pointMask)).point (BitVec.ofNat 3 i) = pointMask.getLsbD i ∧
      (c.perform (seg7Decimal data pointMask)).point (BitVec.ofNat 3 i) = pointMask.getLsbD i := by
  obtain ⟨hex, hexPoint⟩ := base_hex.shown c data pointMask (by decide) (by decide)
  obtain ⟨decimal, decimalPoint⟩ := base_decimal.shown c data pointMask (by decide) (by decide)
  refine ⟨?_, decimal, fun i below => ⟨hexPoint i below, decimalPoint i below⟩⟩
  exact hex.trans (Nat.mod_eq_of_lt data.isLt)

end PathAccelerator.Display
