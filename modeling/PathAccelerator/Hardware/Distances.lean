import PathAccelerator.Algorithm.Correctness
import PathAccelerator.Hardware.Refinement
import Mathlib.Data.Fin.VecNotation

/-! What the accelerator reports as distances. -/

set_option autoImplicit false

namespace PathAccelerator.Hardware

open PathAccelerator.Graph Algorithm

section Runs

variable {N : ℕ} [NeZero N] {w : RoadMap} {s : Fin N} {inputs : ℕ → Inputs N}
  {initial : Registers N} {T c : ℕ}

theorem run_final (quarters : 4 ∣ N) (large : 4 ≤ N) (small : N ≤ 512)
    (released : Released inputs T c) (held : StartHeld inputs T c s)
    (done : DoneBefore w inputs initial T c) :
    Shows (run w inputs initial (T + 1 + c)) (sequential w s (N - 1)) := by
  rw [← swept_eq quarters]
  exact run_shows_final large small released held done

theorem run_labels (quarters : 4 ∣ N) (large : 4 ≤ N) (small : N ≤ 512)
    (released : Released inputs T c) (held : StartHeld inputs T c s)
    (scanning : ∃ d ≤ c, (run w inputs initial (T + 1 + d)).state = .minCost) :
    ∃ k ≤ N - 1, ∀ v, ((run w inputs initial (T + 1 + c)).distance v).toNat =
      (sequential w s k).dist v := by
  have running := running_of_scanning large released scanning
  have shows := run_shows large small w initial released held running
  have valid := (run_control large w initial released).valid
  obtain ⟨k, le, same | same⟩ := Stage.shown_cases large valid running w s
  all_goals
    refine ⟨k, le, fun v => ?_⟩
    rw [← swept_eq quarters, shows.distance v]
    exact congrFun (congrArg Table.dist same) v

end Runs

/-! ## Reachable nodes -/

/-- From one clock after `done` on, every reachable node shows its distance, and
clk_NIOS delivers it. -/
theorem run_distance_eq {N : ℕ} [NeZero N] (quarters : 4 ∣ N) (large : 4 ≤ N) (small : N ≤ 512)
    (w : RoadMap) (formed : w.WellFormed N) (s : Fin N) (near : Near w s) (inputs : ℕ → Inputs N)
    (initial : Registers N) (T c : ℕ) (released : Released inputs T c)
    (held : StartHeld inputs T c s) :
    let r := run w inputs initial (T + 1 + c)
    (Stage.doneCycle N < c → DoneBefore w inputs initial T c) ∧
    (DoneBefore w inputs initial T c → ∀ v, Reachable (roads w) s v →
      ((r.distance v).toNat : ℕ∞) = distance (roads w) s v ∧
      ∀ dontCare transCount, transCount.toNat = v.val →
        (sampleOutputs dontCare transCount r).distanceOut = r.distance v) := by
  intro r
  refine ⟨(doneBefore_iff large released).mpr, fun done v reached => ⟨?_, fun _ _ selected => ?_⟩⟩
  · have shows : Shows r (sequential w s (N - 1)) :=
      run_final quarters large small released held done
    rw [shows.distance v, (sequential_complete formed near).dist v reached]
  · simp only [sampleOutputs, selected, readAt_val]

theorem mapInitialization_walk :
    ∀ v : Fin 4, Walk (roads mapInitializationVhdl) 1 v (![247, 0, 289, 421] v)
  | 0 => .snoc (u := 1) .nil (show _ = some 247 from rfl)
  | 1 => .nil
  | 2 => .snoc (u := 1) .nil (show _ = some 289 from rfl)
  | 3 => .snoc (u := 2) (mapInitialization_walk 2) (show _ = some 132 from rfl)

theorem mapInitialization_distance_le (v : Fin 4) :
    distance (roads mapInitializationVhdl) 1 v ≤ (421 : ℕ) := by
  refine (distance_le (mapInitialization_walk v)).trans (Nat.cast_le.mpr ?_)
  revert v
  decide

theorem mapInitialization_near : Near mapInitializationVhdl (1 : Fin 4) := fun v _ =>
  (mapInitialization_distance_le v).trans (by norm_cast)

theorem run_distance_eq_four :
    (((run mapInitializationVhdl (resetPulse 1) (default : Registers 4) (0 + 1 + 22)).distance 3).toNat
      : ℕ∞) = distance (roads mapInitializationVhdl) 1 (3 : Fin 4) :=
  have result := run_distance_eq (N := 4) (dvd_refl 4) le_rfl (by omega) mapInitializationVhdl
    (mapInitializationVhdl_wellFormed 4) 1 mapInitialization_near (resetPulse 1) default 0 22
    (resetPulse_released 1 22) (resetPulse_startHeld rfl 22)
  (result.2 (result.1 (by decide)) 3 (mapInitialization_walk 3).reachable).1

/-! ## Sums that wrap -/

/-- On a connected graph no label is ever below the distance exactly when no
extension that integer arithmetic would make overflows 14 bits. -/
theorem run_distance_le_iff {N : ℕ} [NeZero N] (quarters : 4 ∣ N) (large : 4 ≤ N) (small : N ≤ 512)
    (w : RoadMap) (formed : w.WellFormed N) (s : Fin N)
    (connected : ∀ v, Reachable (roads w) s v ∧ distance (roads w) s v < (sentinel : ℕ))
    (inputs : ℕ → Inputs N) (initial : Registers N) (T : ℕ) (released : ∀ c, Released inputs T c)
    (held : ∀ c, StartHeld inputs T c s) :
    (∀ c, (∃ d ≤ c, (run w inputs initial (T + 1 + d)).state = .minCost) →
      ∀ v, distance (roads w) s v ≤ ((run w inputs initial (T + 1 + c)).distance v).toNat) ↔
    NoWrap w s := by
  constructor
  · intro above
    -- A label that is too small at any time is still too small at the end.
    have finished : DoneBefore w inputs initial T (Stage.doneCycle N + 1) :=
      (doneBefore_iff large (released _)).mpr (Nat.lt_succ_self _)
    have shows := run_final quarters large small (released _) (held _) finished
    have scanning : (run w inputs initial (T + 1 + (N + 3))).state = .minCost := by
      rw [run_state large (released _) le_rfl, Stage.atCycle_firstScan large]
      rfl
    have early : N + 3 ≤ Stage.doneCycle N + 1 := by
      unfold Stage.doneCycle
      omega
    apply noWrap_of_sequential_le formed connected
    intro v
    rw [← shows.distance v]
    exact above _ ⟨N + 3, early, scanning⟩ v
  · intro noWrap c scanning v
    obtain ⟨k, le, labels⟩ := run_labels quarters large small (released c) (held c) scanning
    rw [labels v]
    exact sequential_le_of_noWrap formed connected noWrap le v

theorem mapInitialization_noWrap : NoWrap mapInitializationVhdl (1 : Fin 4) := by
  intro u i _
  have entry : weight mapInitializationVhdl u i ≤ 10000 :=
    weight_le (mapInitializationVhdl_wellFormed 4) u i
  calc distance (roads mapInitializationVhdl) 1 u + weight mapInitializationVhdl u i
    _ ≤ (421 : ℕ) + (10000 : ℕ) :=
      add_le_add (mapInitialization_distance_le u) (Nat.cast_le.mpr entry)
    _ < (2 ^ 14 : ℕ) := by norm_cast

theorem run_distance_le_iff_four :
    NoWrap mapInitializationVhdl (1 : Fin 4) ∧
    ∀ c, (∃ d ≤ c, (run mapInitializationVhdl (resetPulse 1) (default : Registers 4)
        (0 + 1 + d)).state = .minCost) →
      ∀ v, distance (roads mapInitializationVhdl) 1 v ≤
        ((run mapInitializationVhdl (resetPulse 1) (default : Registers 4)
          (0 + 1 + c)).distance v).toNat := by
  refine ⟨mapInitialization_noWrap, (run_distance_le_iff (N := 4) (dvd_refl 4) le_rfl (by omega)
    mapInitializationVhdl (mapInitializationVhdl_wellFormed 4) 1
    (fun v => ⟨(mapInitialization_walk v).reachable, ?_⟩) (resetPulse 1) default 0
    (fun c => resetPulse_released 1 c) fun c => resetPulse_startHeld rfl c).mpr
      mapInitialization_noWrap⟩
  exact (mapInitialization_distance_le v).trans_lt (by norm_cast)

def longRoads : RoadMap := fun u v =>
  if u = v then 0
  else if u = 0 ∧ v = 1 then 9000
  else if (u = 1 ∧ v = 2) ∨ (u = 2 ∧ v = 3) then 100
  else noEdge

theorem longRoads_wellFormed : longRoads.WellFormed 4 where
  diagonal := by decide
  bounded := by decide

def longLabel : Fin 4 → ℕ := ![0, 9000, 9100, 9200]

theorem longRoads_walk : ∀ v : Fin 4, Walk (roads longRoads) 0 v (longLabel v)
  | 0 => .nil
  | 1 => .snoc (u := 0) .nil (show _ = some 9000 from rfl)
  | 2 => .snoc (u := 1) (longRoads_walk 1) (show _ = some 100 from rfl)
  | 3 => .snoc (u := 2) (longRoads_walk 2) (show _ = some 100 from rfl)

theorem longRoads_distance (v : Fin 4) : distance (roads longRoads) 0 v = longLabel v := by
  apply distance_eq (longRoads_walk v)
  intro _ walk
  refine walk.label_le rfl ?_
  intro u v arc selected
  obtain ⟨_, rfl⟩ := arcsBelow_eq_some.mp selected
  revert u v
  decide

/-- The sum 9000 + 10000 is stored as 2616 and never corrected. -/
theorem run_distance_too_short :
    longRoads.WellFormed 4 ∧
    (∀ v : Fin 4, Reachable (roads longRoads) 0 v ∧
      distance (roads longRoads) 0 v < (sentinel : ℕ)) ∧
    DoneBefore longRoads (resetPulse 0) (default : Registers 4) 0 22 ∧
    (run longRoads (resetPulse 0) (default : Registers 4) (0 + 1 + 22)).distance 3 = 2616 ∧
    distance (roads longRoads) 0 (3 : Fin 4) = (9200 : ℕ) := by
  have released := resetPulse_released (N := 4) 0 22
  have done : DoneBefore longRoads (resetPulse 0) (default : Registers 4) 0 22 :=
    (doneBefore_iff le_rfl released).mpr (by decide)
  have shows := run_final (N := 4) (s := 0) (by decide) (by decide) (by decide) released
    (resetPulse_startHeld rfl 22) done
  refine ⟨longRoads_wellFormed, fun v => ⟨(longRoads_walk v).reachable, ?_⟩, done,
    BitVec.eq_of_toNat_eq ?_, longRoads_distance 3⟩
  · rw [longRoads_distance, Nat.cast_lt]
    revert v
    decide
  · rw [shows.distance]
    decide

/-! ## Unreachable nodes -/

/-- Unreachable nodes are reported as such exactly when the rounds without a
candidate are harmless. -/
theorem run_isolated_iff {N : ℕ} [NeZero N] (quarters : 4 ∣ N) (large : 4 ≤ N) (small : N ≤ 512)
    (w : RoadMap) (formed : w.WellFormed N) (s : Fin N) (near : Near w s) (inputs : ℕ → Inputs N)
    (initial : Registers N) (T c : ℕ) (released : Released inputs T c)
    (held : StartHeld inputs T c s) (done : DoneBefore w inputs initial T c) :
    (∀ v, ¬ Reachable (roads w) s v →
      (run w inputs initial (T + 1 + c)).distance v = noEdge) ↔ Shielded w s := by
  have shows := run_final quarters large small released held done
  have same (v : Fin N) : (run w inputs initial (T + 1 + c)).distance v = noEdge ↔
      (sequential w s (N - 1)).dist v = sentinel := by
    rw [← shows.distance v, BitVec.toNat_eq]
    rfl
  rw [← sequential_isolated_iff formed near]
  exact forall_congr' fun v => imp_congr_right fun _ => same v

def noRoads : RoadMap := fun u v => if u = v then 0 else noEdge

theorem noRoads_wellFormed (N : ℕ) : noRoads.WellFormed N where
  diagonal v _ := if_pos rfl
  bounded u _ v _ := by
    unfold noRoads
    split <;> decide

theorem noRoads_reachable {N : ℕ} {s v : Fin N} :
    Reachable (roads noRoads) s v ↔ v = s := by
  constructor
  · rintro ⟨length, walk⟩
    induction walk with
    | nil => rfl
    | @snoc u v _ _ _ selected ih =>
      obtain ⟨road, _⟩ := arcsBelow_eq_some.mp selected
      by_contra moved
      have apart : u.val ≠ v.val := fun same => moved ((Fin.ext same).symm.trans ih)
      simp [weight, noRoads, apart, noEdge, sentinel] at road
  · rintro rfl
    exact .refl

theorem noRoads_near {N : ℕ} (s : Fin N) : Near noRoads s := by
  intro v reached
  rw [noRoads_reachable.mp reached, distance_source]
  exact zero_le

theorem run_isolated_iff_shielded :
    Shielded noRoads (0 : Fin 4) ∧
    ∀ v : Fin 4, ¬ Reachable (roads noRoads) 0 v →
      (run noRoads (resetPulse 0) (default : Registers 4) (0 + 1 + 22)).distance v = noEdge :=
  have shielded : Shielded noRoads (0 : Fin 4) := .inl .refl
  ⟨shielded, (run_isolated_iff (N := 4) (dvd_refl 4) le_rfl (by omega) noRoads
    (noRoads_wellFormed 4) 0 (noRoads_near 0) (resetPulse 0) default 0 22 (resetPulse_released 0 22)
    (resetPulse_startHeld rfl 22)
    ((doneBefore_iff le_rfl (resetPulse_released 0 22)).mpr (by decide))).mpr shielded⟩

/-- Started elsewhere, 10000 + 10000 is stored as 3616. -/
theorem run_isolated_reported :
    noRoads.WellFormed 4 ∧ Near noRoads (1 : Fin 4) ∧ ¬ Reachable (roads noRoads) 1 (2 : Fin 4) ∧
    DoneBefore noRoads (resetPulse 1) (default : Registers 4) 0 22 ∧
    (run noRoads (resetPulse 1) (default : Registers 4) (0 + 1 + 22)).distance 2 = 3616 := by
  have released := resetPulse_released (N := 4) 1 22
  have done : DoneBefore noRoads (resetPulse 1) (default : Registers 4) 0 22 :=
    (doneBefore_iff le_rfl released).mpr (by decide)
  have shows := run_final (N := 4) (s := 1) (by decide) (by decide) (by decide) released
    (resetPulse_startHeld rfl 22) done
  refine ⟨noRoads_wellFormed 4, noRoads_near 1, ?_, done, BitVec.eq_of_toNat_eq ?_⟩
  · rw [noRoads_reachable]
    decide
  · rw [shows.distance]
    decide

end PathAccelerator.Hardware
