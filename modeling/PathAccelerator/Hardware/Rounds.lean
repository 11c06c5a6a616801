import PathAccelerator.Hardware.Scan

/-! The data path follows the sequential algorithm round by round.

`Holds` says, for every stage of the timetable, what the registers of the data
path contain: which table they show, and which row of the RAM is on its way. The
relaxation launched by upd_dist crosses the next two states as the values of
`read_address_reg`, `r_data` and `New_reg`.
-/

set_option autoImplicit false

namespace PathAccelerator.Hardware

open PathAccelerator.Graph Algorithm

variable {N : ℕ} {w : RoadMap} {s : Fin N}

def LoadedUpTo (w : RoadMap) (row : ℕ) (r : Registers N) : Prop :=
  ∀ i q : Fin N, q.val < row → (r.ram i).mem q = w q i

def Loaded (w : RoadMap) (r : Registers N) : Prop :=
  ∀ i q : Fin N, (r.ram i).mem q = w q i

def Addressed (u : Fin N) (r : Registers N) : Prop :=
  ∀ i, (r.ram i).readAddressReg = u.val

def Fetched (w : RoadMap) (u : Fin N) (r : Registers N) : Prop :=
  ∀ i, (r.ram i).rData = w u i

section Edges

variable {inputs : Inputs N} {r : Registers N} {T : Table (Fin N) ℕ} {u : Fin N}

/-! ## RAM -/

theorem wires_write (w : RoadMap) (dontCare : DontCare N) (i : Fin N) (r : Registers N)
    (state : r.state = .mapInit) :
    (r.wires w dontCare).wEn i = true ∧
      (r.wires w dontCare).writeAddress i = BitVec.ofNat 9 r.counter ∧
      (r.wires w dontCare).wData i = w r.counter i := by
  simp [Registers.wires, driveComp4To1, prefetch, state]

theorem wires_quiet (w : RoadMap) (dontCare : DontCare N) (i : Fin N) (r : Registers N)
    (state : r.state ≠ .mapInit) : (r.wires w dontCare).wEn i = false := by
  revert state
  cases h : r.state <;> simp [Registers.wires, driveComp4To1, prefetch, h]

theorem load_row (small : N ≤ 512) (state : r.state = .mapInit) (bound : r.counter < N)
    (loaded : LoadedUpTo w r.counter r) : LoadedUpTo w (r.counter + 1) (clock w inputs r) := by
  intro i q below
  obtain ⟨enabled, address, data⟩ := wires_write w inputs.dontCare i r state
  have target : (BitVec.ofNat 9 r.counter).toNat = r.counter := by
    rw [BitVec.toNat_ofNat]
    omega
  simp only [clock, Registers.edge, RamVhdl.clock, enabled, address, data, if_true, target]
  by_cases current : q.val = r.counter
  · rw [writeAt, if_pos current, current]
  · rw [writeAt_of_ne _ _ current]
    exact loaded i q (by omega)

theorem Loaded.keep (loaded : Loaded w r) (state : r.state ≠ .mapInit) :
    Loaded w (clock w inputs r) := by
  intro i q
  simp only [clock, Registers.edge, RamVhdl.clock, wires_quiet w inputs.dontCare i r state,
    Bool.false_eq_true, if_false]
  exact loaded i q

theorem addressed_start (small : N ≤ 512) (state : r.state = .dsnInit) (row : r.counter = u.val) :
    Addressed u (clock w inputs r) := by
  intro i
  have address : (r.wires w inputs.dontCare).readAddress i = BitVec.ofNat 9 r.counter := by
    simp [Registers.wires, driveComp4To1, prefetch, state]
  have bound := u.isLt
  simp only [clock, Registers.edge, RamVhdl.clock, address, row, BitVec.toNat_ofNat]
  omega

theorem addressed_picked (state : r.state = .updDist) (picked : r.newReg.toNat = u.val) :
    Addressed u (clock w inputs r) := by
  intro i
  have address : (r.wires w inputs.dontCare).readAddress i = r.newReg := by
    simp [Registers.wires, driveComp4To1, prefetch, state]
  simp only [clock, Registers.edge, RamVhdl.clock, address, picked]

theorem fetched (loaded : Loaded w r) (addressed : Addressed u r) :
    Fetched w u (clock w inputs r) := by
  intro i
  simp only [clock, Registers.edge, RamVhdl.clock, addressed i, readAt_val]
  exact loaded i u

/-! ## Labels -/

theorem Shows.keep (shows : Shows r T) (still : r.stateRegReg ≠ .dsnInit)
    (idle : r.stateRegReg ≠ .updDist) (state : r.state ≠ .updMinc) :
    Shows (clock w inputs r) T := by
  constructor
  · simpa [clock, Registers.edge, relaxNode, still, idle] using shows.distance
  · simpa [clock, Registers.edge, relaxNode, still, idle] using shows.neighbor
  · simpa [clock, Registers.edge, markNode, still, state] using shows.shortest

theorem Shows.mark (shows : Shows r T) (still : r.stateRegReg ≠ .dsnInit)
    (idle : r.stateRegReg ≠ .updDist) (state : r.state = .updMinc)
    (node : (r.wires w inputs.dontCare).newNode.toNat = u.val) :
    Shows (clock w inputs r) (T.mark u) := by
  constructor
  · simpa [clock, Registers.edge, relaxNode, still, idle] using shows.distance
  · simpa [clock, Registers.edge, relaxNode, still, idle] using shows.neighbor
  · funext i
    have before := congrFun shows.shortest i
    by_cases same : i = u
    · simp [clock, Registers.edge, markNode, still, state, node, Table.mark, same]
    · have apart : ¬ u.val = i.val := fun equal => same (Fin.ext equal.symm)
      simpa [clock, Registers.edge, markNode, still, state, node, Table.mark, same, apart]
        using before

/-- The relaxation that lands: 14-bit sums against the labels of unsettled nodes. -/
theorem Shows.relax (shows : Shows r T) (landing : r.stateRegReg = .updDist)
    (state : r.state ≠ .updMinc) (picked : r.newReg.toNat = u.val) (row : Fetched w u r) :
    Shows (clock w inputs r) (T.relax (wrapped w) u) := by
  have sum (i : Fin N) : (r.distance u + w u i).toNat = wrapped w (T.dist u) u i := by
    rw [BitVec.toNat_add, shows.distance, wrapped, weight]
  have smaller (i : Fin N) : (r.distance u + w u i < r.distance i) ↔
      wrapped w (T.dist u) u i < T.dist i := by
    rw [BitVec.lt_def, sum, shows.distance]
  have relaxed (i : Fin N) : relaxNode inputs r i =
      if T.settled i = false ∧ wrapped w (T.dist u) u i < T.dist i
      then (r.distance u + w u i, r.newReg) else (r.distance i, r.neighbor i) := by
    simp only [relaxNode, landing, picked, readAt_val, row i, shows.shortest, smaller i,
      reduceCtorEq, if_false, if_true]
  constructor
  · intro i
    simp only [clock, Registers.edge, relaxed, Table.relax]
    split
    · exact sum i
    · exact shows.distance i
  · intro i
    simp only [clock, Registers.edge, relaxed, Table.relax]
    split
    · exact picked
    · exact shows.neighbor i
  · simpa [clock, Registers.edge, markNode, landing, state, Table.relax] using shows.shortest

theorem shows_initial (landing : r.stateRegReg = .dsnInit) (held : inputs.start.toNat = s.val)
    (row : Fetched w s r) : Shows (clock w inputs r) (initial w s) := by
  constructor
  · intro i
    simp only [clock, Registers.edge, relaxNode, landing, if_true, row i]
    rfl
  · intro i
    simpa only [clock, Registers.edge, relaxNode, landing, if_true, initial] using held
  · funext i
    by_cases same : i = s
    · simp [clock, Registers.edge, markNode, landing, held, initial, same]
    · have apart : ¬ s.val = i.val := fun equal => same (Fin.ext equal.symm)
      simp [clock, Registers.edge, markNode, landing, held, initial, same, apart]

/-! ## Comparators -/

theorem scanned_clear (T : Table (Fin N) ℕ) (idle : r.state ≠ .minCost) :
    ScannedUpTo T 0 (clock w inputs r) :=
  ⟨compDist_clear _ _ idle, compDist_clear _ _ idle, compDist_clear _ _ idle,
    compDist_clear _ _ idle⟩

theorem ScannedUpTo.step {j : ℕ} (small : N ≤ 512) (high : inputs.reset = true)
    (state : r.state = .minCost) (position : r.subCounter = j) (inside : j < N / 4)
    (shows : ShowsLabels r T) (scanned : ScannedUpTo T j r) :
    ScannedUpTo T (j + 1) (clock w inputs r) := by
  constructor
  · exact compDist_scan high state position shows (by omega) (by omega)
      (by unfold Scanned; omega) scanned.first
  · exact compDist_scan high state position shows (by omega) (by omega)
      (by unfold Scanned; omega) scanned.second
  · exact compDist_scan high state position shows (by omega) (by omega)
      (by unfold Scanned; omega) scanned.third
  · exact compDist_scan high state position shows (by omega) (by omega)
      (by unfold Scanned; omega) scanned.fourth

theorem newReg_mark (state : r.state = .updMinc) :
    (clock w inputs r).newReg = (r.wires w inputs.dontCare).newNode := by
  simp [clock, Registers.edge, state]

theorem newReg_keep (state : r.state ≠ .updMinc) : (clock w inputs r).newReg = r.newReg := by
  simp [clock, Registers.edge, state]

end Edges

/-! ## The simulation relation -/

variable [NeZero N]

/-- The table after `k` rounds over the nodes the comparators scan. -/
def swept (w : RoadMap) (s : Fin N) (k : ℕ) : Table (Fin N) ℕ :=
  rounds (wrapped w) sweep (initial w s) k

def sweptMarked (w : RoadMap) (s : Fin N) (k : ℕ) : Table (Fin N) ℕ :=
  (swept w s k).mark (sweep (swept w s k))

theorem swept_succ (w : RoadMap) (s : Fin N) (k : ℕ) :
    swept w s (k + 1) = (sweptMarked w s k).relax (wrapped w) (sweep (swept w s k)) :=
  rounds_succ k

theorem swept_last (large : 4 ≤ N) (w : RoadMap) (s : Fin N) : swept w s (N - 1) =
    (sweptMarked w s (N - 2)).relax (wrapped w) (sweep (swept w s (N - 2))) := by
  have last : N - 1 = N - 2 + 1 := by omega
  rw [last, swept_succ]

def Holds (w : RoadMap) (s : Fin N) (r : Registers N) : Stage → Prop
  | .mapInit row => LoadedUpTo w row r
  -- counter is about to be driven on the read addresses.
  | .dsnInit => Loaded w r ∧ r.counter = s.val
  | .minCost2 0 => Loaded w r ∧ Addressed s r
  | .minCost1 0 => Loaded w r ∧ Fetched w s r
  -- Nothing is in flight while the comparators scan.
  | .minCost k j => Loaded w r ∧ Shows r (swept w s k) ∧ ScannedUpTo (swept w s k) j r
  | .updMinc k => Loaded w r ∧ Shows r (swept w s k) ∧ ScannedUpTo (swept w s k) (N / 4) r
  -- The relaxation of round k is in flight from upd_dist to the next min_cost1.
  | .updDist k => Loaded w r ∧ Shows r (sweptMarked w s k) ∧
      r.newReg.toNat = (sweep (swept w s k)).val
  | .minCost2 (k + 1) => Loaded w r ∧ Shows r (sweptMarked w s k) ∧
      r.newReg.toNat = (sweep (swept w s k)).val ∧ Addressed (sweep (swept w s k)) r
  | .minCost1 (k + 1) => Loaded w r ∧ Shows r (sweptMarked w s k) ∧
      r.newReg.toNat = (sweep (swept w s k)).val ∧ Fetched w (sweep (swept w s k)) r
  -- The last one lands while done is already shown.
  | .firstDone => Shows r (sweptMarked w s (N - 2)) ∧
      r.newReg.toNat = (sweep (swept w s (N - 2))).val ∧ Fetched w (sweep (swept w s (N - 2))) r
  | .done => Shows r (swept w s (N - 1))

/-- One edge keeps the relation, with one case for every stage. -/
theorem Holds.edge {stage : Stage} {inputs : Inputs N} {r : Registers N} (large : 4 ≤ N)
    (small : N ≤ 512) (control : Control stage r) (high : inputs.reset = true)
    (held : inputs.start.toNat = s.val) (holds : Holds w s r stage) :
    Holds w s (clock w inputs r) (stage.next N) := by
  have state := control.state
  have first := control.initial
  have relaxation := control.relaxation
  have valid := control.valid
  cases stage with
  | mapInit row =>
    have counter := control.counter row rfl
    subst counter
    have loaded : LoadedUpTo w (r.counter + 1) (clock w inputs r) :=
      load_row small state valid holds
    simp only [Stage.next]
    split
    · -- The edge that writes the last row also moves start into counter.
      next last =>
      refine ⟨fun i q => loaded i q (last.symm ▸ q.isLt), ?_⟩
      simpa [clock, Registers.edge, controller, high, state, Stage.state, last] using held
    · exact loaded
  | dsnInit =>
    exact ⟨holds.1.keep (by simp [state, Stage.state]), addressed_start small state holds.2⟩
  | minCost2 k =>
    cases k with
    | zero =>
      rw [Stage.next_opening large]
      exact ⟨holds.1.keep (by simp [state, Stage.state]), fetched holds.1 holds.2⟩
    | succ k =>
      obtain ⟨loaded, shows, picked, addressed⟩ := holds
      have kept : Shows (clock w inputs r) (sweptMarked w s k) :=
        shows.keep (by simp [first, Stage.landing]) (by simp [relaxation, Stage.landing])
          (by simp [state, Stage.state])
      have pointer : (clock w inputs r).newReg.toNat = (sweep (swept w s k)).val :=
        (congrArg BitVec.toNat (newReg_keep (by simp [state, Stage.state]))).trans picked
      simp only [Stage.next]
      split
      · next last =>
        obtain rfl : k = N - 2 := by omega
        exact ⟨kept, pointer, fetched loaded addressed⟩
      · exact ⟨loaded.keep (by simp [state, Stage.state]), kept, pointer, fetched loaded addressed⟩
  | minCost1 k =>
    cases k with
    | zero =>
      exact ⟨holds.1.keep (by simp [state, Stage.state]),
        shows_initial (first.mpr rfl) held holds.2, scanned_clear _ (by simp [state, Stage.state])⟩
    | succ k =>
      obtain ⟨loaded, shows, picked, row⟩ := holds
      refine ⟨loaded.keep (by simp [state, Stage.state]), ?_,
        scanned_clear _ (by simp [state, Stage.state])⟩
      rw [swept_succ]
      exact shows.relax (relaxation.mpr rfl) (by simp [state, Stage.state]) picked row
  | minCost k j =>
    obtain ⟨loaded, shows, scanned⟩ := holds
    have kept : Shows (clock w inputs r) (swept w s k) :=
      shows.keep (by simp [first, Stage.landing]) (by simp [relaxation, Stage.landing])
        (by simp [state, Stage.state])
    have further := scanned.step (w := w) small high state control.subCounter valid.2 shows.labels
    simp only [Stage.next]
    split
    · next last => exact ⟨loaded.keep (by simp [state, Stage.state]), kept, last ▸ further⟩
    · exact ⟨loaded.keep (by simp [state, Stage.state]), kept, further⟩
  | updMinc k =>
    obtain ⟨loaded, shows, scanned⟩ := holds
    have node := newNode_eq (w := w) small large inputs.dontCare scanned
    exact ⟨loaded.keep (by simp [state, Stage.state]),
      shows.mark (by simp [first, Stage.landing]) (by simp [relaxation, Stage.landing]) state node,
      (congrArg BitVec.toNat (newReg_mark state)).trans node⟩
  | updDist k =>
    obtain ⟨loaded, shows, picked⟩ := holds
    exact ⟨loaded.keep (by simp [state, Stage.state]),
      shows.keep (by simp [first, Stage.landing]) (by simp [relaxation, Stage.landing])
        (by simp [state, Stage.state]),
      (congrArg BitVec.toNat (newReg_keep (by simp [state, Stage.state]))).trans picked,
      addressed_picked state picked⟩
  | firstDone =>
    obtain ⟨shows, picked, row⟩ := holds
    rw [Stage.next, Holds, swept_last large]
    exact shows.relax (relaxation.mpr rfl) (by simp [state, Stage.state]) picked row
  | done =>
    exact Shows.keep holds (by simp [first, Stage.landing]) (by simp [relaxation, Stage.landing])
      (by simp [state, Stage.state])

end PathAccelerator.Hardware
