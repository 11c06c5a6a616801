import PathAccelerator.Hardware.Distances

/-! Node counts that are no multiple of four.

The windows start at rounded multiples of a quarter and are a rounded quarter long,
so some nodes lie in none of them. Such a node is relaxed like any other and never
picked.
-/

set_option autoImplicit false

namespace PathAccelerator.Hardware

open PathAccelerator.Graph Search Algorithm

variable {N : ℕ}

theorem not_scanned_iff {i : ℕ} (bound : i < N) :
    ¬ Scanned N i ↔ N % 4 ≠ 0 ∧
      (i + 1 = N ∨ (2 ≤ N % 4 ∧ i = 2 * (N / 4)) ∨ (N % 4 = 3 ∧ i = 3 * (N / 4) + 1)) := by
  unfold Scanned
  -- The rounding of the window starts depends on the remainder.
  have remainder : N % 4 = 0 ∨ N % 4 = 1 ∨ N % 4 = 2 ∨ N % 4 = 3 := by omega
  rcases remainder with zero | one | two | three <;> omega

theorem all_scanned_iff : (∀ i < N, Scanned N i) ↔ 4 ∣ N := by
  constructor
  · intro all
    by_contra ragged
    have last := all (N - 1) (by omega)
    exact (not_scanned_iff (by omega)).mpr ⟨by omega, .inl (by omega)⟩ last
  · exact fun quarters i bound => scanned_of_dvd quarters bound

/-- Every node that can be reached, the start node apart, lies in a window. -/
def Covered (w : RoadMap) (s : Fin N) : Prop :=
  ∀ v, Reachable (roads w) s v → v = s ∨ Scanned N v.val

theorem covered_of_dvd (quarters : 4 ∣ N) (w : RoadMap) (s : Fin N) : Covered w s :=
  fun v _ => .inr (scanned_of_dvd quarters v.isLt)

variable [NeZero N] {w : RoadMap} {s : Fin N} {T : Table (Fin N) ℕ}

theorem sweep_scanned (large : 4 ≤ N) (T : Table (Fin N) ℕ) : Scanned N (sweep T).val := by
  have found := scan_firstLeast (scanKey T) sentinel 0 N
  rw [← sweep_eq found]
  rcases found.outcome with ⟨_, missing⟩ | ⟨below, _, _, attained, _⟩
  · rw [missing]
    exact .inl (by omega)
  · by_contra skipped
    rw [scanKey_of_not_scanned skipped] at attained
    exact absurd attained.symm (ne_of_lt below)

theorem swept_settled (large : 4 ≤ N) {k : ℕ} {v : Fin N}
    (settled : (swept w s k).settled v = true) : v = s ∨ Scanned N v.val := by
  rcases rounds_taken settled with source | ⟨_, _, rfl, _⟩
  · exact .inl (initial_settled.mp source)
  · exact .inr (sweep_scanned large _)

/-- While labels are exact and the reachable nodes covered, the search through the
windows finds a node of least label. -/
theorem sweep_leastOpen (large : 4 ≤ N) (covered : Covered w s) (exact' : Exact (weight w) sentinel s T)
    (some : ∃ v, T.Open sentinel v) : T.LeastOpen sentinel (sweep T) := by
  have key {v : Fin N} (open' : T.Open sentinel v) : scanKey T v.val = T.dist v := by
    rcases covered v (exact'.walk_of_lt open'.2).reachable with rfl | scanned
    · exact absurd (exact'.settled_source.symm.trans open'.1) (by decide)
    · rw [scanKey_of_scanned scanned, if_pos open'.1]
  have found := scan_firstLeast (scanKey T) sentinel 0 N
  have position := sweep_eq found
  rcases found.outcome with ⟨limited, _⟩ | ⟨below, _, _, attained, _⟩
  · obtain ⟨v, open'⟩ := some
    have lower := found.lower v.val (Nat.zero_le _) v.isLt
    rw [limited, key open'] at lower
    exact absurd open'.2 (Nat.not_lt.mpr lower)
  · have scanned : Scanned N (sweep T).val := sweep_scanned large T
    rw [position, scanKey_of_scanned scanned] at attained
    have unsettled : T.settled (sweep T) = false := by
      by_contra settled
      rw [if_neg settled] at attained
      exact absurd attained.symm (ne_of_lt below)
    rw [if_pos unsettled] at attained
    refine ⟨⟨unsettled, attained ▸ below⟩, fun v open' => ?_⟩
    have lower := found.lower v.val (Nat.zero_le _) v.isLt
    rwa [key open', ← attained] at lower

theorem swept_complete (large : 4 ≤ N) (formed : w.WellFormed N) (near : Near w s)
    (covered : Covered w s) {v : Fin N} (reached : Reachable (roads w) s v) :
    (swept w s (N - 1)).settled v = true := by
  obtain ⟨k, exacts, _, settled⟩ := (initial_exact (s := s) formed).completion (wrapped w) sweep
    (near_lt_sentinel near) (fun _ => sweep_leastOpen large covered)
    fun T exact' least i _ => picked_adds formed near exact' least i
  have count := (exacts k le_rfl).2
  rw [initial_settledCount] at count
  have bound := (rounds (wrapped w) sweep (initial w s) k).settledCount_le
  rw [Fintype.card_fin] at bound
  exact rounds_settled_mono (by omega) (settled v reached)

theorem swept_settles_iff (large : 4 ≤ N) (formed : w.WellFormed N) (near : Near w s) :
    (∀ v, Reachable (roads w) s v → (swept w s (N - 1)).settled v = true) ↔ Covered w s :=
  ⟨fun all v reached => swept_settled large (all v reached),
    fun covered _ reached => swept_complete large formed near covered reached⟩

/-! ## Runs -/

def Examines (r : Registers N) (k i : ℕ) : Prop :=
  r.state = .minCost ∧ r.counter = k ∧ i ∈ r.taps

section Runs

variable {inputs : ℕ → Inputs N} {initial : Registers N} {c : ℕ}

omit [NeZero N] in
theorem run_examines_iff (large : 4 ≤ N) {T k i : ℕ} (released : Released inputs T c)
    (finished : Stage.doneCycle N ≤ c) (more : k + 1 < N) :
    (∃ d ≤ c, Examines (run w inputs initial (T + 1 + d)) k i) ↔ Scanned N i := by
  rw [scanned_iff_position]
  constructor
  · rintro ⟨d, le, state, _, read⟩
    have control := run_control large w initial (released.mono le)
    rw [control.state] at state
    rw [Registers.taps, control.subCounter] at read
    have valid := control.valid
    cases stage : (Stage.next N)^[d] (.mapInit 0) with
    | minCost k' j =>
      rw [stage] at read valid
      exact ⟨j, valid.2, read⟩
    | _ => rw [stage] at state; cases state
  · rintro ⟨j, inside, read⟩
    have early : Stage.roundStart N k + (2 + j) ≤ c := by
      have before := Stage.inRound_lt_doneCycle more (p := 2 + j) (by unfold Stage.period; omega)
      omega
    have scan := run_scan large w initial released more inside early
    refine ⟨_, early, scan.state, scan.counter k rfl, ?_⟩
    rw [Registers.taps, scan.subCounter]
    exact read

theorem run_shortest_done (large : 4 ≤ N) (small : N ≤ 512) {T : ℕ} (released : Released inputs T c)
    (held : StartHeld inputs T c s) (finished : Stage.doneCycle N ≤ c) :
    (run w inputs initial (T + 1 + c)).shortest = (swept w s (N - 1)).settled := by
  rcases Nat.eq_or_lt_of_le finished with rfl | later
  · have shows := run_shows large small w initial released held
      (by rw [Stage.atCycle_doneCycle large]; trivial)
    rw [Stage.atCycle_doneCycle large] at shows
    rw [shows.shortest, swept_last large]
    rfl
  · exact (run_shows_final large small released held ((doneBefore_iff large released).mpr later)).shortest

end Runs

/-- When `done` is shown every reachable node has been settled exactly if those
nodes lie in the windows; the windows take in all nodes exactly if their number is
a multiple of four. -/
theorem run_settles_iff (large : 4 ≤ N) (small : N ≤ 512) (w : RoadMap) (formed : w.WellFormed N)
    (s : Fin N) (near : Near w s) (inputs : ℕ → Inputs N) (initial : Registers N) (T c : ℕ)
    (released : Released inputs T c) (held : StartHeld inputs T c s)
    (done : (run w inputs initial (T + 1 + c)).state = .done) :
    ((∀ v, Reachable (roads w) s v → (run w inputs initial (T + 1 + c)).shortest v = true) ↔
      Covered w s) ∧
    ((∀ k, k + 1 < N → ∀ i < N, ∃ d ≤ c, Examines (run w inputs initial (T + 1 + d)) k i) ↔
      4 ∣ N) := by
  have finished : Stage.doneCycle N ≤ c := by
    by_contra running
    rw [run_state large released le_rfl] at done
    exact Stage.atCycle_running large (Nat.not_le.mp running) done
  constructor
  · rw [run_shortest_done large small released held finished]
    exact swept_settles_iff large formed near
  · rw [← all_scanned_iff]
    constructor
    · intro rounds i bound
      exact (run_examines_iff large released finished (by omega)).mp (rounds 0 (by omega) i bound)
    · intro all k more i bound
      exact (run_examines_iff large released finished more).mpr (all i bound)

theorem run_settles_iff_four :
    (run mapInitializationVhdl (resetPulse 1) (default : Registers 4) (0 + 1 + 21)).shortest 3 =
      true :=
  (run_settles_iff (N := 4) le_rfl (by omega) mapInitializationVhdl
    (mapInitializationVhdl_wellFormed 4) 1 mapInitialization_near (resetPulse 1) default 0 21
    (resetPulse_released 1 21) (resetPulse_startHeld rfl 21)
    ((run_state (by decide) (resetPulse_released 1 21) le_rfl).trans
      (Stage.atCycle_finished (by decide) (by decide)))).1.mpr
    (covered_of_dvd (dvd_refl 4) _ _) 3 (mapInitialization_walk 3).reachable

theorem fiveNodes_walk :
    ∀ v : Fin 5, Walk (roads mapInitializationVhdl) 0 v (![0, 247, 258, 390, 516] v)
  | 0 => .nil
  | 1 => .snoc (u := 0) .nil (show _ = some 247 from rfl)
  | 2 => .snoc (u := 0) .nil (show _ = some 258 from rfl)
  | 3 => .snoc (u := 2) (fiveNodes_walk 2) (show _ = some 132 from rfl)
  | 4 => .snoc (u := 2) (fiveNodes_walk 2) (show _ = some 258 from rfl)

theorem fiveNodes_near : Near mapInitializationVhdl (0 : Fin 5) := by
  have lengths : ∀ v : Fin 5, ![0, 247, 258, 390, 516] v ≤ 6383 := by decide
  intro v _
  exact (distance_le (fiveNodes_walk v)).trans (Nat.cast_le.mpr (lengths v))

/-- On five nodes the last one is never picked. -/
theorem run_skips_node :
    mapInitializationVhdl.WellFormed 5 ∧ Near mapInitializationVhdl (0 : Fin 5) ∧
    Reachable (roads mapInitializationVhdl) 0 (4 : Fin 5) ∧
    (run mapInitializationVhdl (resetPulse 0) (default : Registers 5) (0 + 1 + 27)).state = .done ∧
    (run mapInitializationVhdl (resetPulse 0) (default : Registers 5) (0 + 1 + 27)).shortest 4 =
      false := by
  have released := resetPulse_released (N := 5) 0 27
  refine ⟨mapInitializationVhdl_wellFormed 5, fiveNodes_near, (fiveNodes_walk 4).reachable,
    (run_state (by decide) released le_rfl).trans (Stage.atCycle_finished (by decide) (by decide)), ?_⟩
  rw [run_shortest_done (N := 5) (s := 0) (by decide) (by decide) released
    (resetPulse_startHeld rfl 27) (by decide)]
  by_contra settled
  rcases swept_settled (by decide) (Bool.not_eq_false _ ▸ settled) with source | scanned
  · exact absurd source (by decide)
  · exact absurd scanned (by decide)

end PathAccelerator.Hardware
