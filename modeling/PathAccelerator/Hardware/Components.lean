import Mathlib.Data.Fin.Basic
import Mathlib.Data.Nat.Notation

/-! Signal types and the leaf entities RAM_vhdl, comparator_vhdl,
comparator_4_to_1_vhdl and map_initialization_vhdl.

A clocked process is a function from the values its signals hold before a rising
edge to the values they hold after it. `std_logic` carries `true` for '1'.
-/

set_option autoImplicit false

namespace PathAccelerator.Hardware

/-- `std_logic_vector(13 downto 0)`. -/
abbrev Distance := BitVec 14

/-- `std_logic_vector(8 downto 0)`. -/
abbrev NodeIndex := BitVec 9

/-- Value of every unlisted pair of the map and the comparators' cleared minimum. -/
def noEdge : Distance := 10000

section Arrays

variable {N : ℕ} {α : Type*}

/-- `a(i)` for an array with bounds `NODE_CNT-1 downto 0`. A read outside the
bounds has no defined value and yields whatever `undefined` says. -/
def readAt (a : Fin N → α) (undefined : ℕ → α) (i : ℕ) : α :=
  if h : i < N then a ⟨i, h⟩ else undefined i

def writeAt (a : Fin N → α) (i : ℕ) (value : α) : Fin N → α :=
  fun j => if j.val = i then value else a j

@[simp] theorem readAt_val (a : Fin N → α) (undefined : ℕ → α) (i : Fin N) :
    readAt a undefined i.val = a i := by
  simp [readAt]

theorem readAt_of_lt (a : Fin N → α) (undefined : ℕ → α) {i : ℕ} (bound : i < N) :
    readAt a undefined i = a ⟨i, bound⟩ := dif_pos bound

theorem writeAt_of_ne (a : Fin N → α) {i : ℕ} (value : α) {j : Fin N} (different : j.val ≠ i) :
    writeAt a i value j = a j := if_neg different

end Arrays

/-! ## RAM_vhdl -/

structure RamVhdl (N : ℕ) where
  mem : Fin N → Distance
  readAddressReg : ℕ
  rData : Distance
  deriving Inhabited

/-- Both clocked processes of the RAM. The word read out is the one addressed an
edge earlier, from the contents as they were then. -/
def RamVhdl.clock {N : ℕ} (undefined : ℕ → Distance) (wEn : Bool) (writeAddress : ℕ)
    (wData : Distance) (readAddress : ℕ) (ram : RamVhdl N) : RamVhdl N where
  mem := if wEn = true then writeAt ram.mem writeAddress wData else ram.mem
  -- Reads the contents before the write.
  rData := readAt ram.mem undefined ram.readAddressReg
  readAddressReg := readAddress

/-! ## comparator_vhdl -/

structure ComparatorVhdl where
  minDistance : Distance
  newOut : NodeIndex
  deriving DecidableEq, Inhabited

/-- The entity tests its `state` port against the literal 4. -/
def ComparatorVhdl.clock (reset : Bool) (state : ℕ) (distance : Distance) (shortest : Bool)
    (counter : NodeIndex) (minDistanceIn : Distance) (newIn : NodeIndex) : ComparatorVhdl :=
  if reset = false ∨ state ≠ 4 then ⟨noEdge, 0⟩
  else if shortest = false ∧ minDistanceIn > distance then ⟨distance, counter⟩
  else ⟨minDistanceIn, newIn⟩

/-! ## comparator_4_to_1_vhdl -/

def comparator4To1Vhdl (minDistance1 minDistance2 minDistance3 minDistance4 : Distance)
    (new1 new2 new3 new4 : NodeIndex) : Distance × NodeIndex :=
  if minDistance1 ≤ minDistance2 ∧ minDistance1 ≤ minDistance3 ∧ minDistance1 ≤ minDistance4 then
    (minDistance1, new1)
  else if minDistance2 ≤ minDistance1 ∧ minDistance2 ≤ minDistance3 ∧
      minDistance2 ≤ minDistance4 then
    (minDistance2, new2)
  else if minDistance3 ≤ minDistance1 ∧ minDistance3 ≤ minDistance2 ∧
      minDistance3 ≤ minDistance4 then
    (minDistance3, new3)
  else (minDistance4, new4)

/-! ## map_initialization_vhdl -/

/-- A road map: `row` and `column` to the value written into the RAM. -/
abbrev RoadMap := ℕ → ℕ → Distance

/-- The branches of the built-in map in source order, each listed once and tested
for the pair in both orders. -/
def mapRoads : List (ℕ × ℕ × Distance) :=
  [(0, 1, 247), (0, 2, 258),
   (1, 2, 289), (1, 5, 245),
   (2, 3, 132), (2, 4, 258),
   (3, 6, 217), (3, 7, 290),
   (4, 5, 178), (4, 7, 94),
   (5, 14, 187), (5, 13, 341),
   (6, 9, 309),
   (7, 8, 119), (7, 11, 180),
   (8, 9, 165), (8, 10, 312), (8, 12, 145),
   (9, 10, 176),
   (10, 15, 465),
   (11, 12, 45), (11, 13, 75),
   (12, 15, 352),
   (13, 15, 286),
   (14, 15, 231)]

def mapInitializationVhdl : RoadMap := fun row column =>
  if row = column then 0
  else
    match mapRoads.find? (fun road =>
      (row = road.1 ∧ column = road.2.1) ∨ (row = road.2.1 ∧ column = road.1)) with
    | some road => road.2.2
    | none => noEdge

/-- Zero on the diagonal, and no value above the one that stands for a missing road. -/
structure RoadMap.WellFormed (w : RoadMap) (N : ℕ) : Prop where
  diagonal : ∀ v < N, w v v = 0
  bounded : ∀ u < N, ∀ v < N, w u v ≤ noEdge

theorem mapRoads_bounded : ∀ road ∈ mapRoads, road.2.2 ≤ noEdge := by decide

theorem mapInitializationVhdl_wellFormed (N : ℕ) : mapInitializationVhdl.WellFormed N where
  diagonal v _ := by simp [mapInitializationVhdl]
  bounded u _ v _ := by
    unfold mapInitializationVhdl
    split
    · decide
    · split
      next road found => exact mapRoads_bounded road (List.mem_of_find?_eq_some found)
      next => decide

theorem mapInitializationVhdl_symmetric (u v : ℕ) :
    mapInitializationVhdl u v = mapInitializationVhdl v u := by
  unfold mapInitializationVhdl
  by_cases same : u = v
  · rw [if_pos same, if_pos same.symm]
  · rw [if_neg same, if_neg (Ne.symm same)]
    congr 2
    funext road
    simp only [or_comm, and_comm]

end PathAccelerator.Hardware
