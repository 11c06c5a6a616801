import PathAccelerator.Hardware.Rounds

/-! Indices and counters stay in range.

The invariant says for each stage which registers carry a node index that is still
going to be used. Both kinds of edge keep it, so resets may come in any cycle.
-/

set_option autoImplicit false

namespace PathAccelerator.Hardware

open Semantics

variable {N : ℕ}

namespace Stage

/-- `New_reg` is going to be read by the distance processes. -/
def UsesPicked : Stage → Prop
  | .updDist _ | .minCost2 (_ + 1) | .minCost1 (_ + 1) | .firstDone => True
  | _ => False

/-- The row in `read_address_reg` is going to be consumed by the distance processes. -/
def UsesRow : Stage → Prop
  | .minCost2 _ => True
  | _ => False

theorem usesPicked_next {N : ℕ} (large : 4 ≤ N) {stage : Stage} (uses : (stage.next N).UsesPicked) :
    stage.state = .updMinc ∨ (stage.UsesPicked ∧ stage.state ≠ .updMinc) := by
  cases stage with
  | mapInit row =>
    simp only [Stage.next] at uses
    split at uses <;> exact uses.elim
  | dsnInit => exact uses.elim
  | minCost2 k =>
    cases k with
    | zero =>
      rw [Stage.next_opening large] at uses
      exact uses.elim
    | succ k => exact .inr ⟨trivial, by simp [state]⟩
  | minCost1 k => exact uses.elim
  | minCost k j =>
    simp only [Stage.next] at uses
    split at uses <;> exact uses.elim
  | updMinc k => exact .inl rfl
  | updDist k => exact .inr ⟨trivial, by simp [state]⟩
  | firstDone => exact uses.elim
  | done => exact uses.elim

theorem usesRow_next {N : ℕ} {stage : Stage} (uses : (stage.next N).UsesRow) :
    stage = .dsnInit ∨ ∃ k, stage = .updDist k := by
  cases stage with
  | mapInit row => simp only [Stage.next] at uses; split at uses <;> exact uses.elim
  | dsnInit => exact .inl rfl
  | minCost2 k => simp only [Stage.next] at uses; split at uses <;> exact uses.elim
  | minCost1 k => exact uses.elim
  | minCost k j => simp only [Stage.next] at uses; split at uses <;> exact uses.elim
  | updMinc k => exact uses.elim
  | updDist k => exact .inr ⟨k, rfl⟩
  | firstDone => exact uses.elim
  | done => exact uses.elim

theorem usesPicked_of_landing {stage : Stage} (landing : stage.landing = .relaxation) :
    stage.UsesPicked := by
  cases stage with
  | minCost1 k =>
    cases k with
    | zero => cases landing
    | succ k => trivial
  | firstDone => trivial
  | _ => cases landing

theorem usesRow_of_landing {N : ℕ} {stage : Stage} (landing : (stage.next N).landing ≠ .nothing) :
    stage.UsesRow := by
  cases stage with
  | mapInit row => simp only [Stage.next] at landing; split at landing <;> exact landing rfl
  | minCost2 k => trivial
  | minCost k j => simp only [Stage.next] at landing; split at landing <;> exact landing rfl
  | _ => exact landing rfl

end Stage

structure InBounds (stage : Stage) (r : Registers N) : Prop where
  counter : r.counter < N
  found : ∀ own ∈ [r.compDist1, r.compDist2, r.compDist3, r.compDist4], own.newOut.toNat < N / 4
  picked : stage.UsesPicked → r.newReg.toNat < N
  row : stage.UsesRow → ∀ i, (r.ram i).readAddressReg < N

section Edges

variable {w : RoadMap} {inputs : Inputs N} {r : Registers N} {stage : Stage}

theorem zero_found (large : 4 ≤ N) : (0 : NodeIndex).toNat < N / 4 := by
  simp only [BitVec.ofNat_eq_ofNat, BitVec.toNat_ofNat]
  omega

theorem compDist_found (large : 4 ≤ N) {offset : ℕ} {own : ComparatorVhdl}
    (inside : r.subCounter < N / 4) (found : own.newOut.toNat < N / 4) :
    (compDist inputs r offset own).newOut.toNat < N / 4 := by
  unfold compDist ComparatorVhdl.clock
  split
  · exact zero_found large
  split
  · show (BitVec.ofNat 9 r.subCounter).toNat < N / 4
    rw [BitVec.toNat_ofNat]
    exact Nat.lt_of_le_of_lt (Nat.mod_le _ _) inside
  · exact found

theorem Control.subCounter_lt (large : 4 ≤ N) (control : Control stage r) : r.subCounter < N / 4 := by
  rw [control.subCounter]
  have valid := control.valid
  cases stage with
  | minCost k j => exact valid.2
  | _ => simp only [Stage.subCounter]; omega

theorem Control.counter_lt (large : 4 ≤ N) (control : Control stage r)
    (loaded : stage = .dsnInit → r.counter < N) : r.counter < N := by
  have valid := control.valid
  have counter := control.counter
  cases stage with
  | dsnInit => exact loaded rfl
  | mapInit row => exact (counter row rfl).trans_lt valid
  | minCost2 k => exact (counter k rfl).trans_lt valid
  | minCost1 k => exact (counter k rfl).trans_lt (Nat.lt_of_succ_lt valid)
  | minCost k j => exact (counter k rfl).trans_lt (Nat.lt_of_succ_lt valid.1)
  | updMinc k => exact (counter k rfl).trans_lt (Nat.lt_of_succ_lt valid)
  | updDist k => exact (counter k rfl).trans_lt (Nat.lt_of_succ_lt valid)
  | firstDone => exact (counter (N - 1) rfl).trans_lt (by omega)
  | done => exact (counter (N - 1) rfl).trans_lt (by omega)

theorem counter_start (control : Control stage r) (high : inputs.reset = true)
    (entering : stage.next N = .dsnInit) : (clock w inputs r).counter = inputs.start.toNat := by
  cases stage with
  | mapInit row =>
    have last : r.counter + 1 = N := by
      rw [control.counter row rfl]
      by_contra more
      simp [Stage.next, more] at entering
    simp [clock, Registers.edge, controller, high, control.state, Stage.state, last]
  | minCost2 k => simp only [Stage.next] at entering; split at entering <;> cases entering
  | minCost k j => simp only [Stage.next] at entering; split at entering <;> cases entering
  | _ => cases entering

theorem found_edge (large : 4 ≤ N) (inside : r.subCounter < N / 4)
    (found : ∀ own ∈ [r.compDist1, r.compDist2, r.compDist3, r.compDist4],
      own.newOut.toNat < N / 4) :
    ∀ own ∈ [(clock w inputs r).compDist1, (clock w inputs r).compDist2,
      (clock w inputs r).compDist3, (clock w inputs r).compDist4], own.newOut.toNat < N / 4 := by
  simp only [List.forall_mem_cons] at found ⊢
  obtain ⟨first, second, third, fourth, none⟩ := found
  exact ⟨compDist_found large inside first, compDist_found large inside second,
    compDist_found large inside third, compDist_found large inside fourth, none⟩

theorem found_reset (large : 4 ≤ N) (low : inputs.reset = false) :
    ∀ own ∈ [(clock w inputs r).compDist1, (clock w inputs r).compDist2,
      (clock w inputs r).compDist3, (clock w inputs r).compDist4], own.newOut.toNat < N / 4 := by
  have cleared (offset : ℕ) (own : ComparatorVhdl) :
      (compDist inputs r offset own).newOut.toNat < N / 4 := by
    rw [compDist, ComparatorVhdl.clock, if_pos (.inl low)]
    exact zero_found large
  simp only [List.forall_mem_cons]
  exact ⟨cleared _ _, cleared _ _, cleared _ _, cleared _ _, by simp⟩

theorem wires_news (w : RoadMap) (dontCare : DontCare N) (r : Registers N) :
    (r.wires w dontCare).new1 = r.compDist1.newOut + 0 ∧
    (r.wires w dontCare).new2 = r.compDist2.newOut + BitVec.ofNat 9 (N * 1 / 4) ∧
    (r.wires w dontCare).new3 = r.compDist3.newOut + BitVec.ofNat 9 (N * 2 / 4) ∧
    (r.wires w dontCare).new4 = r.compDist4.newOut + BitVec.ofNat 9 (N * 3 / 4) := by
  simp only [Registers.wires, driveComp4To1]
  cases state : r.state <;> simp only [prefetch, state] <;> exact ⟨rfl, rfl, rfl, rfl⟩

theorem comparator4To1Vhdl_mem (m₁ m₂ m₃ m₄ : Distance) (a₁ a₂ a₃ a₄ : NodeIndex) :
    (comparator4To1Vhdl m₁ m₂ m₃ m₄ a₁ a₂ a₃ a₄).2 ∈ [a₁, a₂, a₃, a₄] := by
  unfold comparator4To1Vhdl
  split
  · simp
  split
  · simp
  split <;> simp

theorem wires_newNode (w : RoadMap) (dontCare : DontCare N) (r : Registers N) :
    let wires := r.wires w dontCare
    wires.newNode ∈ [wires.new1, wires.new2, wires.new3, wires.new4] := by
  obtain ⟨new1, new2, new3, new4⟩ := wires_news w dontCare r
  simp only [new1, new2, new3, new4]
  exact comparator4To1Vhdl_mem _ _ _ _ _ _ _ _

theorem InBounds.news (bounds : InBounds stage r) (small : N ≤ 512) (dontCare : DontCare N) :
    let wires := r.wires w dontCare
    wires.new1.toNat = r.compDist1.newOut.toNat ∧
    wires.new2.toNat = N * 1 / 4 + r.compDist2.newOut.toNat ∧
    wires.new3.toNat = N * 2 / 4 + r.compDist3.newOut.toNat ∧
    wires.new4.toNat = N * 3 / 4 + r.compDist4.newOut.toNat := by
  have found := bounds.found
  simp only [List.forall_mem_cons] at found
  obtain ⟨first, second, third, fourth, _⟩ := found
  obtain ⟨new1, new2, new3, new4⟩ := wires_news w dontCare r
  simp only [new1, new2, new3, new4]
  exact ⟨by simp, offset_toNat_of_lt small (by omega) second,
    offset_toNat_of_lt small (by omega) third, offset_toNat_of_lt small (by omega) fourth⟩

theorem InBounds.new_lt (bounds : InBounds stage r) (small : N ≤ 512) (dontCare : DontCare N) :
    let wires := r.wires w dontCare
    ∀ index ∈ [wires.new1, wires.new2, wires.new3, wires.new4], index.toNat < N := by
  have found := bounds.found
  simp only [List.forall_mem_cons] at found ⊢
  obtain ⟨first, second, third, fourth, _⟩ := found
  obtain ⟨new1, new2, new3, new4⟩ := bounds.news (w := w) small dontCare
  exact ⟨by omega, by omega, by omega, by omega, by simp⟩

theorem InBounds.newNode_lt (bounds : InBounds stage r) (small : N ≤ 512) (dontCare : DontCare N) :
    (r.wires w dontCare).newNode.toNat < N :=
  bounds.new_lt small dontCare _ (wires_newNode w dontCare r)

/-! ## Both kinds of edge -/

theorem inBounds_reset (large : 4 ≤ N) (low : inputs.reset = false) :
    InBounds (.mapInit 0) (clock w inputs r) where
  counter := by
    have control : Control (.mapInit 0) (clock w inputs r) := control_reset large low
    rw [control.counter 0 rfl]
    omega
  found := found_reset large low
  picked uses := uses.elim
  row uses := uses.elim

theorem InBounds.edge (large : 4 ≤ N) (small : N ≤ 512) (control : Control stage r)
    (high : inputs.reset = true) (start : inputs.start.toNat < N) (bounds : InBounds stage r) :
    InBounds (stage.next N) (clock w inputs r) := by
  have next : Control (stage.next N) (clock w inputs r) := control.edge large high
  refine ⟨?_, found_edge large (control.subCounter_lt large) bounds.found, fun uses => ?_,
    fun uses i => ?_⟩
  · exact next.counter_lt large fun entering => (counter_start control high entering).trans_lt start
  · rcases Stage.usesPicked_next large uses with marking | ⟨before, other⟩
    · rw [newReg_mark (control.state.trans marking)]
      exact bounds.newNode_lt small inputs.dontCare
    · rw [newReg_keep (control.state ▸ other)]
      exact bounds.picked before
  · rcases Stage.usesRow_next uses with rfl | ⟨k, rfl⟩
    · have addressed : Addressed ⟨r.counter, bounds.counter⟩ (clock w inputs r) :=
        addressed_start small control.state rfl
      exact (addressed i).trans_lt bounds.counter
    · have picked := bounds.picked trivial
      have addressed : Addressed ⟨r.newReg.toNat, picked⟩ (clock w inputs r) :=
        addressed_picked control.state rfl
      exact (addressed i).trans_lt picked

def Safe (r : Registers N) : Prop := ∃ stage, Control stage r ∧ InBounds stage r

theorem safe_reset (large : 4 ≤ N) (low : inputs.reset = false) : Safe (clock w inputs r) :=
  ⟨_, control_reset large low, inBounds_reset large low⟩

theorem Safe.edge (large : 4 ≤ N) (small : N ≤ 512) (start : inputs.start.toNat < N)
    (safe : Safe r) : Safe (clock w inputs r) := by
  obtain ⟨stage, control, bounds⟩ := safe
  cases reset : inputs.reset with
  | false => exact safe_reset large reset
  | true => exact ⟨_, control.edge large reset, bounds.edge large small control reset start⟩

theorem Safe.row_lt (large : 4 ≤ N) (safe : Safe r) (inputs : Inputs N)
    (consumed : (clock w inputs r).stateRegReg = .dsnInit ∨
      (clock w inputs r).stateRegReg = .updDist) (i : Fin N) : (r.ram i).readAddressReg < N := by
  obtain ⟨stage, control, bounds⟩ := safe
  cases reset : inputs.reset with
  | false => simp [clock, Registers.edge, reset] at consumed
  | true =>
    have next : Control (stage.next N) (clock w inputs r) := control.edge large reset
    have lands : (stage.next N).landing ≠ .nothing := by
      intro idle
      rw [next.initial, next.relaxation, idle] at consumed
      rcases consumed with initial | relaxation
      · cases initial
      · cases relaxation
    exact bounds.row (Stage.usesRow_of_landing lands) i

theorem Safe.write_lt (safe : Safe r) (dontCare : DontCare N) (i : Fin N)
    (enabled : (r.wires w dontCare).wEn i = true) : ((r.wires w dontCare).writeAddress i).toNat < N := by
  obtain ⟨stage, _, bounds⟩ := safe
  by_cases state : r.state = .mapInit
  · rw [(wires_write w dontCare i r state).2.1, BitVec.toNat_ofNat]
    exact (Nat.mod_le _ _).trans_lt bounds.counter
  · rw [wires_quiet w dontCare i r state] at enabled
    cases enabled

theorem run_safe (large : 4 ≤ N) (small : N ≤ 512) (w : RoadMap) {inputs : ℕ → Inputs N}
    (initial : Registers N) {T : ℕ} (low : (inputs T).reset = false)
    (start : ∀ t, T < t → (inputs t).start.toNat < N) {t : ℕ} (later : T < t) :
    Safe (run w inputs initial t) := by
  have first : Safe (run w inputs initial (T + 1)) :=
    safe_reset (r := run w inputs initial T) large low
  exact trajectory_invariant Safe first
    (fun t after _ safe => safe.edge large small (start t after)) later

end Edges

/-- From the first reset edge on, whatever resets follow, no counter leaves its
range and no index in use is out of bounds. -/
theorem run_inBounds (large : 4 ≤ N) (small : N ≤ 512) (w : RoadMap) (inputs : ℕ → Inputs N)
    (initial : Registers N) (T : ℕ) (low : (inputs T).reset = false)
    (start : ∀ t, T < t → (inputs t).start.toNat < N) (t : ℕ) (later : T < t) :
    let r := run w inputs initial t
    let r' := run w inputs initial (t + 1)
    let wires := r.wires w (inputs t).dontCare
    (r.counter < 2 ^ 9 ∧ r.subCounter < 2 ^ 9) ∧
    (∀ tap ∈ r.taps, tap < N) ∧
    (∀ i, wires.wEn i = true → (wires.writeAddress i).toNat < N) ∧
    (r'.stateRegReg = .dsnInit ∨ r'.stateRegReg = .updDist → ∀ i, (r.ram i).readAddressReg < N) ∧
    (r.state = .updMinc →
      (wires.new1.toNat = r.compDist1.newOut.toNat ∧
        wires.new2.toNat = N * 1 / 4 + r.compDist2.newOut.toNat ∧
        wires.new3.toNat = N * 2 / 4 + r.compDist3.newOut.toNat ∧
        wires.new4.toNat = N * 3 / 4 + r.compDist4.newOut.toNat) ∧
      ∀ index ∈ [wires.new1, wires.new2, wires.new3, wires.new4, wires.newNode], index.toNat < N) ∧
    (r.stateRegReg = .updDist → r.newReg.toNat < N) := by
  intro r r' wires
  have safe : Safe r := run_safe large small w initial low start later
  obtain ⟨stage, control, bounds⟩ := id safe
  have position := control.subCounter_lt large
  refine ⟨⟨bounds.counter.trans_le small, by omega⟩, ?_, safe.write_lt _,
    fun consumed => safe.row_lt large (inputs t) consumed, fun _ => ⟨bounds.news small _, ?_⟩,
    fun relaxing => ?_⟩
  · unfold Registers.taps
    simp only [List.forall_mem_cons]
    exact ⟨by omega, by omega, by omega, by omega, by simp⟩
  · have news := bounds.new_lt (w := w) small (inputs t).dontCare
    have node := bounds.newNode_lt (w := w) small (inputs t).dontCare
    simp only [List.forall_mem_cons] at news ⊢
    obtain ⟨first, second, third, fourth, none⟩ := news
    exact ⟨first, second, third, fourth, node, none⟩
  · exact bounds.picked (Stage.usesPicked_of_landing (control.relaxation.mp relaxing))

/-- A second reset in the upd_dist cycle of the first round, on 512 nodes. -/
theorem run_inBounds_full :
    let r := run mapInitializationVhdl
      (fun t => ⟨decide (t ≠ 0 ∧ t ≠ 645), 511, default⟩) (default : Registers 512) 646
    ∀ tap ∈ r.taps, tap < 512 :=
  (run_inBounds (N := 512) (by decide) le_rfl mapInitializationVhdl
    (fun t => ⟨decide (t ≠ 0 ∧ t ≠ 645), 511, default⟩) default 0 rfl
    (fun _ _ => show 511 < 512 by decide) 646 (by decide)).2.1

end PathAccelerator.Hardware
