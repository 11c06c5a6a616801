import PathAccelerator.Hardware.Rounds
import Mathlib.Data.Fin.VecNotation

/-! The four comparators against one search through all nodes.

Nothing is assumed of the data path: the arrays the comparators look at are
arbitrary, and so are the registers the run starts from.
-/

set_option autoImplicit false

namespace PathAccelerator.Hardware

open PathAccelerator.Graph Search Algorithm Semantics

variable {N : ℕ}

/-- Search through the nodes before `n` in order, with a strict less-than update
that starts from 10000 and node 0. -/
def searchInOrder (distance : Fin N → Distance) (shortest : Fin N → Bool) : ℕ → Distance × ℕ
  | 0 => (noEdge, 0)
  | n + 1 =>
    let best := searchInOrder distance shortest n
    if h : n < N then
      if shortest ⟨n, h⟩ = false ∧ distance ⟨n, h⟩ < best.1 then (distance ⟨n, h⟩, n) else best
    else best

def Candidate (distance : Fin N → Distance) (shortest : Fin N → Bool) (v : Fin N) : Prop :=
  shortest v = false ∧ distance v < noEdge

def tableOf (distance : Fin N → Distance) (shortest : Fin N → Bool) : Table (Fin N) ℕ where
  dist i := (distance i).toNat
  pred := id
  settled := shortest

section Search

variable {distance : Fin N → Distance} {shortest : Fin N → Bool}

theorem scanKey_tableOf (quarters : 4 ∣ N) (v : Fin N) :
    scanKey (tableOf distance shortest) v.val =
      if shortest v = false then (distance v).toNat else sentinel :=
  scanKey_of_scanned (scanned_of_dvd quarters v.isLt)

theorem scanKey_of_candidate (quarters : 4 ∣ N) {v : Fin N}
    (candidate : Candidate distance shortest v) :
    scanKey (tableOf distance shortest) v.val = (distance v).toNat := by
  rw [scanKey_tableOf quarters, if_pos candidate.1]

theorem candidate_of_scanKey (quarters : 4 ∣ N) {v : Fin N}
    (below : scanKey (tableOf distance shortest) v.val < sentinel) :
    Candidate distance shortest v := by
  rw [scanKey_tableOf quarters] at below
  split at below
  · next unsettled => exact ⟨unsettled, below⟩
  · exact absurd below (lt_irrefl _)

theorem searchInOrder_firstLeast (quarters : 4 ∣ N) {n : ℕ} (le : n ≤ N) :
    FirstLeast (scanKey (tableOf distance shortest)) sentinel 0 0 n
      (searchInOrder distance shortest n).1.toNat (searchInOrder distance shortest n).2 := by
  induction n with
  | zero => exact .empty
  | succ n ih =>
    have found := ih (by omega)
    have key : scanKey (tableOf distance shortest) n =
        if shortest ⟨n, le⟩ = false then (distance ⟨n, le⟩).toNat else sentinel :=
      scanKey_tableOf quarters ⟨n, le⟩
    simp only [searchInOrder, dif_pos (show n < N from le)]
    split
    · next smaller =>
      rw [if_pos smaller.1] at key
      rw [← key]
      exact found.replace (Nat.zero_le n) (key ▸ smaller.2)
    · next larger =>
      apply found.keep
      rw [key]
      split
      · next unsettled => exact Nat.not_lt.mp fun smaller => larger ⟨unsettled, smaller⟩
      · exact found.le_limit

end Search

/-! ## A stay in min_cost -/

section Edges

variable {w : RoadMap} {inputs : Inputs N} {r : Registers N}

theorem clock_state : (clock w inputs r).state =
    (controller N inputs.reset inputs.start r.state r.counter r.subCounter).1 := rfl

theorem clock_subCounter : (clock w inputs r).subCounter =
    (controller N inputs.reset inputs.start r.state r.counter r.subCounter).2.2 := rfl

theorem scanning_edge (now : r.state = .minCost) (next : (clock w inputs r).state = .minCost) :
    inputs.reset = true ∧ r.subCounter + 1 ≠ N / 4 ∧
      (clock w inputs r).subCounter = r.subCounter + 1 := by
  rw [clock_state, now] at next
  rw [clock_subCounter, now]
  grind [controller]

theorem marking_edge (next : (clock w inputs r).state = .updMinc) :
    inputs.reset = true ∧ r.state = .minCost ∧ r.subCounter + 1 = N / 4 := by
  rw [clock_state] at next
  cases now : r.state <;> rw [now] at next <;> grind [controller]

end Edges

/-- Cycles `t + 1` to `t + n` of a run are one stay in min_cost that ends in
upd_minc. Meanwhile the comparators look at the same arrays. -/
structure MinCostPeriod (w : RoadMap) (inputs : ℕ → Inputs N) (initial : Registers N) (t n : ℕ)
    (distance : Fin N → Distance) (shortest : Fin N → Bool) : Prop where
  before : (run w inputs initial t).state ≠ .minCost
  entered : (run w inputs initial (t + 1)).subCounter = 0
  during : ∀ j < n, (run w inputs initial (t + 1 + j)).state = .minCost ∧
    (run w inputs initial (t + 1 + j)).distance = distance ∧
    (run w inputs initial (t + 1 + j)).shortest = shortest
  after : (run w inputs initial (t + 1 + n)).state = .updMinc

namespace MinCostPeriod

variable {w : RoadMap} {inputs : ℕ → Inputs N} {initial : Registers N} {t n : ℕ}
  {distance : Fin N → Distance} {shortest : Fin N → Bool}

theorem positive (period : MinCostPeriod w inputs initial t n distance shortest) : 0 < n := by
  apply Nat.pos_of_ne_zero
  rintro rfl
  exact period.before (marking_edge period.after).2.1

theorem position (period : MinCostPeriod w inputs initial t n distance shortest) {j : ℕ}
    (inside : j < n) : (run w inputs initial (t + 1 + j)).subCounter = j := by
  induction j with
  | zero => exact period.entered
  | succ j ih =>
    have now := (period.during j (by omega)).1
    have next := (period.during (j + 1) inside).1
    have moved := (scanning_edge now next).2.2
    rw [ih (by omega)] at moved
    exact moved

theorem length_eq (period : MinCostPeriod w inputs initial t n distance shortest) : n = N / 4 := by
  obtain ⟨last, rfl⟩ : ∃ last, n = last + 1 := ⟨n - 1, by have := period.positive; omega⟩
  have left := (marking_edge (r := run w inputs initial (t + 1 + last)) period.after).2.2
  rwa [period.position (Nat.lt_succ_self last)] at left

theorem reset_high (period : MinCostPeriod w inputs initial t n distance shortest) {j : ℕ}
    (inside : j < n) : (inputs (t + 1 + j)).reset = true := by
  rcases Nat.lt_or_eq_of_le (Nat.succ_le_of_lt inside) with more | last
  · exact (scanning_edge (period.during j inside).1 (period.during (j + 1) more).1).1
  · have after := period.after
    rw [← last] at after
    exact (marking_edge after).1

theorem scanned (period : MinCostPeriod w inputs initial t n distance shortest) (small : N ≤ 512)
    {j : ℕ} (le : j ≤ n) :
    ScannedUpTo (tableOf distance shortest) j (run w inputs initial (t + 1 + j)) := by
  induction j with
  | zero => exact scanned_clear _ period.before
  | succ j ih =>
    obtain ⟨state, labels, settled⟩ := period.during j le
    have shows : ShowsLabels (run w inputs initial (t + 1 + j)) (tableOf distance shortest) :=
      ⟨fun i => congrArg BitVec.toNat (congrFun labels i), settled⟩
    exact (ih (by omega)).step small (period.reset_high le) state (period.position le)
      (period.length_eq ▸ le) shows

end MinCostPeriod

/-- In the upd_minc cycle after a stay in min_cost the combinational outputs are the
result of the search in order: the first node of least distance among the
candidates, or 10000 and node 0 when there is none. -/
theorem parallel_search (quarters : 4 ∣ N) (large : 4 ≤ N) (small : N ≤ 512) (w : RoadMap)
    (inputs : ℕ → Inputs N) (initial : Registers N) (t n : ℕ) (distance : Fin N → Distance)
    (shortest : Fin N → Bool) (period : MinCostPeriod w inputs initial t n distance shortest) :
    let wires := (run w inputs initial (t + 1 + n)).wires w (inputs (t + 1 + n)).dontCare
    ((∃ v, Candidate distance shortest v) →
      ∃ best : Fin N, Candidate distance shortest best ∧ wires.minDistance = distance best ∧
        wires.newNode.toNat = best.val ∧
        ∀ v, Candidate distance shortest v → distance best ≤ distance v ∧
          (distance v = distance best → best ≤ v)) ∧
    ((∀ v, ¬ Candidate distance shortest v) → wires.minDistance = noEdge ∧ wires.newNode = 0) ∧
    (wires.minDistance, wires.newNode.toNat) = searchInOrder distance shortest N := by
  intro wires
  obtain rfl : n = N / 4 := period.length_eq
  have found : FirstLeast (scanKey (tableOf distance shortest)) sentinel 0 0 N
      wires.minDistance.toNat wires.newNode.toNat :=
    wires_firstLeast small large _ (period.scanned small le_rfl)
  obtain ⟨same, place⟩ := found.unique (searchInOrder_firstLeast quarters le_rfl)
  have lower (v : Fin N) (candidate : Candidate distance shortest v) :
      wires.minDistance ≤ distance v := by
    rw [BitVec.le_def, ← scanKey_of_candidate quarters candidate]
    exact found.lower v.val (Nat.zero_le _) v.isLt
  refine ⟨fun ⟨v, candidate⟩ => ?_, fun bare => ?_, Prod.ext (BitVec.eq_of_toNat_eq same) place⟩
  · rcases found.outcome with ⟨limited, _⟩ | ⟨below, _, bound, attained, first⟩
    · have limited' : wires.minDistance = noEdge := BitVec.eq_of_toNat_eq limited
      exact absurd candidate.2 (Nat.not_lt.mpr (limited' ▸ lower v candidate))
    · have best : Candidate distance shortest ⟨wires.newNode.toNat, bound⟩ :=
        candidate_of_scanKey quarters (attained.trans_lt below)
      have least : wires.minDistance = distance ⟨wires.newNode.toNat, bound⟩ :=
        BitVec.eq_of_toNat_eq (attained.symm.trans (scanKey_of_candidate quarters best))
      refine ⟨⟨wires.newNode.toNat, bound⟩, best, least, rfl, fun v candidate => ?_⟩
      refine ⟨least ▸ lower v candidate, fun tied => Nat.not_lt.mp fun earlier => ?_⟩
      have larger := first v.val (Nat.zero_le _) earlier
      rw [scanKey_of_candidate quarters candidate, tied, ← least] at larger
      exact lt_irrefl _ larger
  · rcases found.outcome with ⟨limited, missing⟩ | ⟨below, _, bound, attained, _⟩
    · exact ⟨BitVec.eq_of_toNat_eq limited, BitVec.eq_of_toNat_eq missing⟩
    · exact absurd (candidate_of_scanKey quarters (attained.trans_lt below)) (bare ⟨_, bound⟩)

def tiedDistances : Fin 8 → Distance := ![10000, 12000, 16383, 77, 10000, 77, 78, 77]

def tiedRegisters : Registers 8 :=
  { (default : Registers 8) with state := .minCost1, distance := tiedDistances }

theorem tiedRegisters_period : MinCostPeriod mapInitializationVhdl (fun _ => ⟨true, 0, default⟩)
    tiedRegisters 0 2 tiedDistances fun _ => false where
  before := by decide
  entered := rfl
  during := by decide
  after := rfl

theorem parallel_search_tied :
    let wires := (run mapInitializationVhdl (fun _ => ⟨true, 0, default⟩) tiedRegisters
      (0 + 1 + 2)).wires mapInitializationVhdl default
    wires.minDistance = 77 ∧ wires.newNode = 3 := by
  intro wires
  have result : (wires.minDistance, wires.newNode.toNat) = searchInOrder tiedDistances _ 8 :=
    (parallel_search (by decide) (by decide) (by decide) mapInitializationVhdl
      (fun _ => ⟨true, 0, default⟩) tiedRegisters 0 2 _ _ tiedRegisters_period).2.2
  obtain ⟨least, node⟩ := Prod.ext_iff.mp result
  exact ⟨least, BitVec.eq_of_toNat_eq node⟩

/-! ## Periods of a run -/

section Rounds

variable {w : RoadMap} {r : Registers N} {stage : Stage}

theorem Control.arrays_kept (control : Control stage r) (inputs : Inputs N)
    (quiet : stage.landing = .nothing) (state : stage.state ≠ .updMinc) :
    (clock w inputs r).distance = r.distance ∧ (clock w inputs r).shortest = r.shortest := by
  have still : r.stateRegReg ≠ .dsnInit := by simp [control.initial, quiet]
  have idle : r.stateRegReg ≠ .updDist := by simp [control.relaxation, quiet]
  have other : r.state ≠ .updMinc := control.state ▸ state
  constructor
  · funext i
    have kept : relaxNode inputs r i = (r.distance i, r.neighbor i) := by
      simp only [relaxNode, still, idle, if_false]
    exact congrArg Prod.fst kept
  · funext i
    have kept : markNode inputs r (r.wires w inputs.dontCare).newNode i = r.shortest i := by
      simp only [markNode, still, other, false_and, if_false]
    exact kept

/-- Every round of every run after a reset scans in such a period, whatever the
start port carries. -/
theorem run_period (large : 4 ≤ N) {inputs : ℕ → Inputs N} (initial : Registers N) {T k : ℕ}
    (more : k + 1 < N) (released : Released inputs T (Stage.roundStart N k + (2 + N / 4))) :
    MinCostPeriod w inputs initial (T + 1 + (Stage.roundStart N k + 1)) (N / 4)
      (run w inputs initial (T + 1 + (Stage.roundStart N k + 2))).distance
      (run w inputs initial (T + 1 + (Stage.roundStart N k + 2))).shortest := by
  obtain ⟨second, _, marked, _⟩ := Stage.next_round large more
  have control (p : ℕ) (le : p ≤ 2 + N / 4) :
      Control ((Stage.next N)^[p] (.minCost2 k))
        (run w inputs initial (T + 1 + (Stage.roundStart N k + p))) := by
    rw [← Stage.atCycle_inRound large more]
    exact run_control large w initial (released.mono (by omega))
  have scan (j : ℕ) (inside : j < N / 4) :
      Control (.minCost k j) (run w inputs initial (T + 1 + (Stage.roundStart N k + (2 + j)))) :=
    run_scan large w initial released more inside (by omega)
  have place (j : ℕ) : T + 1 + (Stage.roundStart N k + 1) + 1 + j =
      T + 1 + (Stage.roundStart N k + (2 + j)) := by omega
  refine ⟨?_, (scan 0 (by omega)).subCounter, fun j inside => ?_, ?_⟩
  · have opening : Control (.minCost1 k) _ := second ▸ control 1 (by omega)
    rw [opening.state]
    simp [Stage.state]
  · rw [place]
    refine ⟨(scan j inside).state, ?_⟩
    induction j with
    | zero => exact ⟨rfl, rfl⟩
    | succ j ih =>
      obtain ⟨distance, shortest⟩ := ih (by omega)
      obtain ⟨labels, settled⟩ := (scan j (by omega)).arrays_kept (w := w)
        (inputs (T + 1 + (Stage.roundStart N k + (2 + j)))) rfl (by simp [Stage.state])
      exact ⟨labels.trans distance, settled.trans shortest⟩
  · have closing : Control (.updMinc k) _ := marked ▸ control (2 + N / 4) le_rfl
    rw [place, closing.state]
    rfl

end Rounds

end PathAccelerator.Hardware
