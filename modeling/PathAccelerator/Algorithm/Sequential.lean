import PathAccelerator.Graph.ShortestPaths
import PathAccelerator.Hardware.Components
import Mathlib.Data.Fintype.Basic
import Mathlib.Data.Fin.Tuple.Basic

/-! What the accelerator is for: N-1 label-setting rounds from a start node, with
labels added modulo 2^14 and 10000 standing for a missing road.
-/

set_option autoImplicit false

namespace PathAccelerator.Algorithm

open PathAccelerator.Graph Hardware

variable {N : ℕ}

def weight (w : RoadMap) (u v : Fin N) : ℕ := (w u.val v.val).toNat

def sentinel : ℕ := 10000

/-- The roads of a map: the pairs with an entry below the sentinel. -/
abbrev roads (w : RoadMap) : Network (Fin N) := arcsBelow (weight w) sentinel

/-- Extension of a label along a road by a 14-bit adder. -/
def wrapped (w : RoadMap) (label : ℕ) (u v : Fin N) : ℕ := (label + weight w u v) % 2 ^ 14

def exactly (w : RoadMap) (label : ℕ) (u v : Fin N) : ℕ := label + weight w u v

def initial (w : RoadMap) (s : Fin N) : Table (Fin N) ℕ where
  dist i := weight w s i
  pred _ := s
  settled i := decide (i = s)

instance (T : Table (Fin N) ℕ) (limit : ℕ) (u : Fin N) : Decidable (T.LeastOpen limit u) :=
  decidable_of_iff (T.Open limit u ∧ ∀ v, T.Open limit v → T.dist u ≤ T.dist v)
    ⟨fun h => ⟨h.1, h.2⟩, fun h => ⟨h.isOpen, h.least⟩⟩

/-- The lowest-index unsettled node of least label among those with a label below
the sentinel, or node 0 if there is none. -/
def select [NeZero N] (T : Table (Fin N) ℕ) : Fin N :=
  (Fin.find? fun u => decide (T.LeastOpen sentinel u)).getD 0

/-- The result of `k` rounds of the 14-bit algorithm. -/
def sequential [NeZero N] (w : RoadMap) (s : Fin N) (k : ℕ) : Table (Fin N) ℕ :=
  rounds (wrapped w) select (initial w s) k

/-- The same rounds on unbounded integers. -/
def unbounded [NeZero N] (w : RoadMap) (s : Fin N) (k : ℕ) : Table (Fin N) ℕ :=
  rounds (exactly w) select (initial w s) k

theorem weight_self {w : RoadMap} (formed : w.WellFormed N) (v : Fin N) : weight w v v = 0 := by
  simp [weight, formed.diagonal v v.isLt]

theorem weight_le {w : RoadMap} (formed : w.WellFormed N) (u v : Fin N) : weight w u v ≤ sentinel :=
  formed.bounded u u.isLt v v.isLt

/-! ## Selection -/

section Selection

variable [NeZero N] {T : Table (Fin N) ℕ}

theorem select_eq_of_first {u : Fin N} (least : T.LeastOpen sentinel u)
    (first : ∀ v, T.Open sentinel v → T.dist v ≤ T.dist u → u ≤ v) : select T = u := by
  have found : (Fin.find? fun u => decide (T.LeastOpen sentinel u)) = some u := by
    rw [Fin.find?_eq_some_iff]
    refine ⟨by simpa using least, fun v earlier => ?_⟩
    rw [decide_eq_false_iff_not]
    intro tied
    exact absurd (first v tied.isOpen (tied.least u least.isOpen)) (not_le_of_gt earlier)
  rw [select, found, Option.getD_some]

theorem select_eq_zero (bare : ∀ v, ¬ T.Open sentinel v) : select T = 0 := by
  have absent : (Fin.find? fun u => decide (T.LeastOpen sentinel u)) = none := by
    rw [Fin.find?_eq_none_iff]
    exact fun v => decide_eq_false fun least => bare v least.isOpen
  rw [select, absent, Option.getD_none]

omit [NeZero N] in
theorem exists_leastOpen (some : ∃ v, T.Open sentinel v) : ∃ u, T.LeastOpen sentinel u := by
  have nonempty : (Finset.univ.filter fun v => T.Open sentinel v).Nonempty := by
    obtain ⟨v, open'⟩ := some
    exact ⟨v, by simpa using open'⟩
  obtain ⟨u, member, least⟩ := Finset.exists_min_image _ T.dist nonempty
  exact ⟨u, by simpa using member, fun v open' => least v (by simpa using open')⟩

theorem select_leastOpen (some : ∃ v, T.Open sentinel v) : T.LeastOpen sentinel (select T) := by
  obtain ⟨u, least⟩ := exists_leastOpen some
  unfold select
  cases found : Fin.find? fun u => decide (T.LeastOpen sentinel u) with
  | none => exact absurd least (of_decide_eq_false (Fin.find?_eq_none_iff.mp found u))
  | some v => exact of_decide_eq_true (Fin.find?_eq_some_iff.mp found).1

end Selection

/-! ## The initial table -/

section Initial

variable {w : RoadMap} {s : Fin N}

theorem initial_settled {v : Fin N} : (initial w s).settled v = true ↔ v = s := by
  simp [initial]

theorem initial_rooted : Rooted s (initial w s) where
  settled_root := initial_settled.mpr rfl
  fixed := rfl
  settled_pred _ := initial_settled.mpr rfl
  climbs _ settled := ⟨0, initial_settled.mp settled⟩

theorem initial_settledCount : (initial w s).settledCount = 1 := by
  have : (Finset.univ.filter fun v => (initial w s).settled v = true) = {s} := by
    ext v
    simp [initial_settled]
  rw [Table.settledCount, this, Finset.card_singleton]

theorem initial_dist_source (formed : w.WellFormed N) : (initial w s).dist s = 0 :=
  weight_self formed s

theorem initial_exact (formed : w.WellFormed N) : Exact (weight w) sentinel s (initial w s) where
  settled_source := initial_settled.mpr rfl
  settled_pred _ := initial_settled.mpr rfl
  tight v := by simp [initial, weight_self formed]
  walk v settled := by
    rw [initial_settled.mp settled, initial_dist_source formed]
    exact .nil
  least v settled length _ := by
    rw [initial_settled.mp settled, initial_dist_source formed]
    exact Nat.zero_le _
  relaxed u v settled _ := by
    rw [initial_settled.mp settled]
    exact Nat.le_add_left _ _
  bounded v := weight_le formed s v

end Initial

end PathAccelerator.Algorithm
