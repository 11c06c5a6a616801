import PathAccelerator.Algorithm.Sequential
import PathAccelerator.Hardware.Schedule
import PathAccelerator.Search.FirstLeast

/-! The four comparator windows and the node they single out. -/

set_option autoImplicit false

namespace PathAccelerator.Hardware

open PathAccelerator.Graph Search Algorithm

variable {N : ℕ}

structure Shows (r : Registers N) (T : Table (Fin N) ℕ) : Prop where
  distance : ∀ i, (r.distance i).toNat = T.dist i
  neighbor : ∀ i, (r.neighbor i).toNat = (T.pred i).val
  shortest : r.shortest = T.settled

theorem Shows.unique {r r' : Registers N} {T : Table (Fin N) ℕ} (shows : Shows r T)
    (shows' : Shows r' T) :
    r.distance = r'.distance ∧ r.neighbor = r'.neighbor ∧ r.shortest = r'.shortest := by
  refine ⟨?_, ?_, shows.shortest.trans shows'.shortest.symm⟩
  · funext i
    apply BitVec.eq_of_toNat_eq
    exact (shows.distance i).trans (shows'.distance i).symm
  · funext i
    apply BitVec.eq_of_toNat_eq
    exact (shows.neighbor i).trans (shows'.neighbor i).symm

structure ShowsLabels (r : Registers N) (T : Table (Fin N) ℕ) : Prop where
  distance : ∀ i, (r.distance i).toNat = T.dist i
  shortest : r.shortest = T.settled

theorem Shows.labels {r : Registers N} {T : Table (Fin N) ℕ} (shows : Shows r T) : ShowsLabels r T :=
  ⟨shows.distance, shows.shortest⟩

/-- The four windows start at 0, `NODE_CNT*1/4`, `NODE_CNT*2/4` and `NODE_CNT*3/4`
and are all scanned over the range of sub_counter. -/
def Scanned (N i : ℕ) : Prop :=
  i < N / 4 ∨ (N * 1 / 4 ≤ i ∧ i < N * 1 / 4 + N / 4) ∨
    (N * 2 / 4 ≤ i ∧ i < N * 2 / 4 + N / 4) ∨ (N * 3 / 4 ≤ i ∧ i < N * 3 / 4 + N / 4)

instance (N i : ℕ) : Decidable (Scanned N i) := inferInstanceAs (Decidable (_ ∨ _))

theorem scanned_of_dvd {i : ℕ} (quarters : 4 ∣ N) (bound : i < N) : Scanned N i := by
  unfold Scanned
  omega

theorem scanned_iff_position {i : ℕ} :
    Scanned N i ↔ ∃ j < N / 4, i ∈ [0 + j, N * 1 / 4 + j, N * 2 / 4 + j, N * 3 / 4 + j] := by
  simp only [List.mem_cons, List.not_mem_nil, or_false]
  constructor
  · rintro (first | second | third | fourth)
    · exact ⟨i, first, .inl (by omega)⟩
    · exact ⟨i - N * 1 / 4, by omega, .inr (.inl (by omega))⟩
    · exact ⟨i - N * 2 / 4, by omega, .inr (.inr (.inl (by omega)))⟩
    · exact ⟨i - N * 3 / 4, by omega, .inr (.inr (.inr (by omega)))⟩
  · rintro ⟨j, inside, place⟩
    unfold Scanned
    omega

/-- The nodes whose distance and shortest the four comparators read in a cycle. -/
def Registers.taps (r : Registers N) : List ℕ :=
  [0 + r.subCounter, N * 1 / 4 + r.subCounter, N * 2 / 4 + r.subCounter, N * 3 / 4 + r.subCounter]

def scanKey (T : Table (Fin N) ℕ) (i : ℕ) : ℕ :=
  if h : i < N then
    if Scanned N i ∧ T.settled ⟨i, h⟩ = false then T.dist ⟨i, h⟩ else sentinel
  else sentinel

def sweep [NeZero N] (T : Table (Fin N) ℕ) : Fin N :=
  Fin.ofNat N (scan (scanKey T) sentinel 0 N).2

section Sweep

variable {T : Table (Fin N) ℕ}

theorem scanKey_of_scanned {i : Fin N} (scanned : Scanned N i.val) :
    scanKey T i.val = if T.settled i = false then T.dist i else sentinel := by
  simp [scanKey, scanned]

theorem scanKey_of_not_scanned {i : ℕ} (skipped : ¬ Scanned N i) : scanKey T i = sentinel := by
  unfold scanKey
  split <;> simp [skipped]

theorem sweep_eq [NeZero N] {best position : ℕ}
    (found : FirstLeast (scanKey T) sentinel 0 0 N best position) : position = (sweep T).val := by
  have bound : position < N := found.position_lt (Nat.pos_of_neZero N)
  have same := ((scan_firstLeast (scanKey T) sentinel 0 N).unique found).2
  simp [sweep, same, Nat.mod_eq_of_lt bound]

/-- When the windows tile all nodes the pass finds the node the algorithm selects. -/
theorem sweep_eq_select [NeZero N] (quarters : 4 ∣ N) : sweep (N := N) = select := by
  funext T
  have key (v : Fin N) : scanKey T v.val = if T.settled v = false then T.dist v else sentinel :=
    scanKey_of_scanned (scanned_of_dvd quarters v.isLt)
  have found := scan_firstLeast (scanKey T) sentinel 0 N
  have position := sweep_eq found
  rcases found.outcome with ⟨limited, missing⟩ | ⟨below, _, bound, attained, first⟩
  · have bare (v : Fin N) : ¬ T.Open sentinel v := by
      rintro ⟨unsettled, small⟩
      have := found.lower v.val (Nat.zero_le _) v.isLt
      rw [limited, key, if_pos unsettled] at this
      omega
    rw [select_eq_zero bare]
    exact Fin.ext (position.symm.trans missing)
  · rw [position] at attained first
    rw [key] at attained
    have unsettled : T.settled (sweep T) = false := by
      by_contra settled
      rw [if_neg settled] at attained
      omega
    rw [if_pos unsettled] at attained
    have smallest (v : Fin N) (unsettled : T.settled v = false) :
        T.dist (sweep T) ≤ T.dist v := by
      have := found.lower v.val (Nat.zero_le _) v.isLt
      rw [key, if_pos unsettled] at this
      exact attained ▸ this
    refine (select_eq_of_first ⟨⟨unsettled, attained ▸ below⟩, fun v o => smallest v o.1⟩ ?_).symm
    intro v o le
    by_contra earlier
    have := first v.val (Nat.zero_le _) (by simpa using earlier)
    rw [key, if_pos o.1, ← attained] at this
    omega

end Sweep

/-! ## Comparators -/

def Partial (T : Table (Fin N) ℕ) (offset j : ℕ) (own : ComparatorVhdl) : Prop :=
  FirstLeast (scanKey T) sentinel offset offset (offset + j) own.minDistance.toNat
    (offset + own.newOut.toNat)

structure ScannedUpTo (T : Table (Fin N) ℕ) (j : ℕ) (r : Registers N) : Prop where
  first : Partial T 0 j r.compDist1
  second : Partial T (N * 1 / 4) j r.compDist2
  third : Partial T (N * 2 / 4) j r.compDist3
  fourth : Partial T (N * 3 / 4) j r.compDist4

variable {T : Table (Fin N) ℕ} {r : Registers N} {inputs : Inputs N} {w : RoadMap}

theorem compDist_clear (offset : ℕ) (own : ComparatorVhdl) (idle : r.state ≠ .minCost) :
    Partial T offset 0 (compDist inputs r offset own) := by
  have other : r.state.code ≠ 4 := by
    revert idle
    cases r.state <;> simp [State.code]
  rw [compDist, ComparatorVhdl.clock, if_pos (.inr other)]
  exact .empty

theorem compDist_scan {offset j : ℕ} {own : ComparatorVhdl} (high : inputs.reset = true)
    (state : r.state = .minCost) (position : r.subCounter = j) (shows : ShowsLabels r T)
    (fits : j < 2 ^ 9) (bound : offset + j < N) (scanned : Scanned N (offset + j))
    (found : Partial T offset j own) : Partial T offset (j + 1) (compDist inputs r offset own) := by
  have key := scanKey_of_scanned (T := T) (i := ⟨offset + j, bound⟩) scanned
  have distance := shows.distance ⟨offset + j, bound⟩
  have shortest := congrFun shows.shortest ⟨offset + j, bound⟩
  simp only [compDist, ComparatorVhdl.clock, high, state, position, State.code, readAt_of_lt _ _ bound]
  simp only [Bool.true_eq_false, ne_eq, not_true_eq_false, or_self, if_false, gt_iff_lt,
    BitVec.lt_def, distance, shortest]
  unfold Partial at found ⊢
  split
  · next smaller =>
    have replaced := found.replace (Nat.le_add_right _ _) (by rw [key, if_pos smaller.1]; exact smaller.2)
    rw [key, if_pos smaller.1] at replaced
    simpa only [distance, BitVec.toNat_ofNat, Nat.mod_eq_of_lt fits, Nat.add_assoc] using replaced
  · next larger =>
    apply found.keep
    rw [key]
    split
    · next unsettled => exact Nat.not_lt.mp fun smaller => larger ⟨unsettled, smaller⟩
    · exact found.le_limit

theorem comparator4To1Vhdl_eq (m₁ m₂ m₃ m₄ : Distance) (a₁ a₂ a₃ a₄ : NodeIndex) :
    ((comparator4To1Vhdl m₁ m₂ m₃ m₄ a₁ a₂ a₃ a₄).1.toNat,
      (comparator4To1Vhdl m₁ m₂ m₃ m₄ a₁ a₂ a₃ a₄).2.toNat) =
    bestOfFour m₁.toNat m₂.toNat m₃.toNat m₄.toNat a₁.toNat a₂.toNat a₃.toNat a₄.toNat := by
  simp only [comparator4To1Vhdl, bestOfFour, BitVec.le_def]
  split
  · rfl
  split
  · rfl
  split <;> rfl

theorem offset_toNat_of_lt {offset : ℕ} {own : ComparatorVhdl} (small : N ≤ 512)
    (inside : offset + N / 4 ≤ N) (bound : own.newOut.toNat < N / 4) :
    (own.newOut + BitVec.ofNat 9 offset).toNat = offset + own.newOut.toNat := by
  rw [BitVec.toNat_add, BitVec.toNat_ofNat]
  omega

theorem offset_toNat {offset : ℕ} {own : ComparatorVhdl} (small : N ≤ 512)
    (inside : offset + N / 4 ≤ N) (positive : 0 < N / 4) (found : Partial T offset (N / 4) own) :
    (own.newOut + BitVec.ofNat 9 offset).toNat = offset + own.newOut.toNat := by
  have := found.position_lt (by omega)
  exact offset_toNat_of_lt small inside (by omega)

/-- After the last scan clock the combinational outputs carry what one pass over
the windows finds. -/
theorem wires_firstLeast (small : N ≤ 512) (large : 4 ≤ N) (dontCare : DontCare N)
    (scanned : ScannedUpTo T (N / 4) r) :
    FirstLeast (scanKey T) sentinel 0 0 N (r.wires w dontCare).minDistance.toNat
      (r.wires w dontCare).newNode.toNat := by
  obtain ⟨first, second, third, fourth⟩ := scanned
  have new1 : (r.compDist1.newOut + 0).toNat = 0 + r.compDist1.newOut.toNat := by simp
  have new2 := offset_toNat small (by omega) (by omega) second
  have new3 := offset_toNat small (by omega) (by omega) third
  have new4 := offset_toNat small (by omega) (by omega) fourth
  have gap {i : ℕ} (skipped : ¬ Scanned N i) : sentinel ≤ scanKey T i :=
    le_of_eq (scanKey_of_not_scanned skipped).symm
  unfold Partial at first second third fourth
  have chosen := bestOfFour_firstLeast
    (first.pad (N * 1 / 4) (by omega) fun i _ _ => gap (by unfold Scanned; omega))
    (second.pad (N * 2 / 4) (by omega) fun i _ _ => gap (by unfold Scanned; omega))
    (third.pad (N * 3 / 4) (by omega) fun i _ _ => gap (by unfold Scanned; omega))
    (fourth.pad N (by omega) fun i _ _ => gap (by unfold Scanned; omega))
    (by omega) (by omega) (by omega) (by omega)
  rw [← new1, ← new2, ← new3, ← new4, ← comparator4To1Vhdl_eq] at chosen
  exact chosen

theorem newNode_eq [NeZero N] (small : N ≤ 512) (large : 4 ≤ N) (dontCare : DontCare N)
    (scanned : ScannedUpTo T (N / 4) r) :
    ((r.wires w dontCare).newNode).toNat = (sweep T).val :=
  sweep_eq (wires_firstLeast small large dontCare scanned)

end PathAccelerator.Hardware
