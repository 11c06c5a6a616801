import PathAccelerator.Algorithm.Correctness

/-! The order in which the rounds go through the nodes. -/

set_option autoImplicit false

namespace PathAccelerator.Algorithm

open PathAccelerator.Graph Hardware

variable {N : ℕ} [NeZero N] {w : RoadMap} {s : Fin N}

def visited (w : RoadMap) (s : Fin N) (k : ℕ) : Fin N := select (sequential w s k)

theorem sequential_settled_mono {j k : ℕ} (le : j ≤ k) {v : Fin N}
    (settled : (sequential w s j).settled v = true) : (sequential w s k).settled v = true :=
  rounds_settled_mono le settled

theorem sequential_unsettled {j k : ℕ} (le : j ≤ k) {v : Fin N}
    (unsettled : (sequential w s k).settled v = false) : (sequential w s j).settled v = false := by
  by_contra settled
  rw [Bool.not_eq_false] at settled
  rw [sequential_settled_mono le settled] at unsettled
  cases unsettled

theorem visited_settled {j k : ℕ} (earlier : j < k) :
    (sequential w s k).settled (visited w s j) = true := by
  refine sequential_settled_mono (Nat.succ_le_of_lt earlier) ?_
  rw [sequential, rounds_succ]
  exact Table.round_settled.mpr (.inl rfl)

/-- The first `m` rounds visit the nodes that can be reached, each of them once and the
nearer ones first. -/
structure Visits (w : RoadMap) (s : Fin N) (m : ℕ) : Prop where
  bound : m + 1 ≤ N
  all : ∀ v, (∃ k < m, visited w s k = v) ↔ v ≠ s ∧ Reachable (roads w) s v
  ordered : ∀ j k, j < k → k < m → visited w s j ≠ visited w s k ∧
    distance (roads w) s (visited w s j) ≤ distance (roads w) s (visited w s k)
  label : ∀ k < m, ((sequential w s k).dist (visited w s k) : ℕ∞) =
    distance (roads w) s (visited w s k)

variable (formed : w.WellFormed N) (near : Near w s)

include formed near

/-- From round `m` on no node is left to visit, provided that the rounds through node 0 do
no harm. -/
theorem sequential_visits :
    ∃ m, Visits w s m ∧ (Shielded w s → ∀ k ≥ m, Exhausted w s (sequential w s k)) := by
  obtain ⟨m, exacts, leasts, settled⟩ := sequential_completion formed near
  have count := (exacts m le_rfl).2
  rw [initial_settledCount] at count
  have bound := (sequential w s m).settledCount_le
  rw [Fintype.card_fin] at bound
  have reached {k : ℕ} (inside : k < m) : Reachable (roads w) s (visited w s k) :=
    ((exacts k (by omega)).1.walk_of_lt (leasts k inside).isOpen.2).reachable
  refine ⟨m, ⟨by omega, fun v => ⟨?_, ?_⟩, fun j k earlier inside => ⟨?_, ?_⟩, fun k inside => ?_⟩, ?_⟩
  · rintro ⟨k, inside, rfl⟩
    -- What a round goes through was open; the start node never is.
    refine ⟨fun start => ?_, reached inside⟩
    have open' := (leasts k inside).isOpen.1
    rw [← visited, start, (exacts k (by omega)).1.settled_source] at open'
    cases open'
  · rintro ⟨moved, reachable⟩
    -- A node gets settled by a visit, unless it was from the start.
    rcases rounds_taken (settled v reachable) with source | ⟨k, inside, taken, _⟩
    · exact absurd (initial_settled.mp source) moved
    · exact ⟨k, inside, taken⟩
  · intro same
    have open' := (leasts k inside).isOpen.1
    rw [← visited, ← same, visited_settled earlier] at open'
    cases open'
  -- In round j the node of round k was open as well, and another one was taken.
  · have open' := sequential_unsettled (Nat.le_of_lt earlier) (leasts k inside).isOpen.1
    have picked := (exacts j (by omega)).1
    rw [visited, picked.picked_distance (leasts j (by omega))]
    apply le_distance
    intro length walk
    exact_mod_cast picked.picked (leasts j (by omega)) open' walk
  · exact ((exacts k (by omega)).1.picked_distance (leasts k inside)).symm
  · intro shielded k later
    -- All reachable nodes are settled after m rounds; the others keep the sentinel.
    have exhausted : Exhausted w s (sequential w s m) :=
      ⟨(exacts m le_rfl).1.complete settled, fun v isolated => (exacts m le_rfl).1.unreachable isolated⟩
    rw [sequential_from later]
    exact exhausted.rounds formed near shielded _

theorem sequential_isolated (shielded : Shielded w s) {v : Fin N}
    (isolated : ¬ Reachable (roads w) s v) :
    (sequential w s (N - 1)).dist v = sentinel ∧ (sequential w s (N - 1)).pred v = s := by
  have label := (sequential_isolated_iff formed near).mpr shielded v isolated
  have first : (initial w s).dist v = sentinel := weight_isolated formed .refl isolated
  exact ⟨label, rounds_pred_of_dist (label.trans first.symm)⟩

end PathAccelerator.Algorithm
