import PathAccelerator.Algorithm.Sequential
import Mathlib.Data.ENat.Basic

/-! What N-1 rounds of 14-bit arithmetic compute.

A settled label of at most 6383 leaves room for any entry of the map, so the rounds
that settle reachable nodes add exactly. What remains is to follow the rounds that
come after them, and the sums that do not fit.
-/

set_option autoImplicit false

namespace PathAccelerator.Algorithm

open PathAccelerator.Graph Hardware

variable {N : ℕ} [NeZero N] {w : RoadMap} {s : Fin N}

omit [NeZero N] in
theorem wrapped_of_lt {label : ℕ} {u v : Fin N} (fits : label + weight w u v < 2 ^ 14) :
    wrapped w label u v = label + weight w u v := Nat.mod_eq_of_lt fits

/-! ## Reachable nodes -/

/-- Every node that can be reached is at a distance of at most 6383. -/
def Near (w : RoadMap) (s : Fin N) : Prop :=
  ∀ v, Reachable (roads w) s v → distance (roads w) s v ≤ 6383

omit [NeZero N] in
theorem near_lt_sentinel (near : Near w s) (v : Fin N) (reached : Reachable (roads w) s v) :
    distance (roads w) s v < (sentinel : ℕ) :=
  (near v reached).trans_lt (by norm_cast)

section Near

variable (formed : w.WellFormed N) (near : Near w s)

include formed near

omit [NeZero N] in
theorem picked_adds {T : Table (Fin N) ℕ} {u : Fin N} (exact' : Exact (weight w) sentinel s T)
    (least : T.LeastOpen sentinel u) (i : Fin N) :
    wrapped w (T.dist u) u i = T.dist u + weight w u i := by
  have walk := exact'.walk_of_lt least.isOpen.2
  have small : T.dist u ≤ 6383 := by
    have := near _ walk.reachable
    rw [exact'.picked_distance least] at this
    exact_mod_cast this
  have entry : weight w u i ≤ 10000 := weight_le formed _ _
  -- 6383 + 10000 is the largest value of 14 bits.
  exact wrapped_of_lt (by omega)

theorem sequential_completion :
    ∃ k, (∀ j ≤ k, Exact (weight w) sentinel s (sequential w s j) ∧
        (sequential w s j).settledCount = (initial w s).settledCount + j) ∧
      (∀ j < k, (sequential w s j).LeastOpen sentinel (select (sequential w s j))) ∧
      ∀ v, Reachable (roads w) s v → (sequential w s k).settled v = true := by
  exact (initial_exact formed).completion (wrapped w) select (near_lt_sentinel near)
    (fun _ _ => select_leastOpen)
    fun T exact' least i _ => picked_adds formed near exact' least i

/-- The first rounds settle exactly the reachable nodes, the others find none. -/
theorem sequential_phases :
    ∃ k ≤ N - 1, Exact (weight w) sentinel s (sequential w s k) ∧
      Complete (weight w) sentinel s (sequential w s k) ∧
      (sequential w s k).settledCount = k + 1 := by
  -- Each of the rounds settles one node, and there are N of them with the start node.
  obtain ⟨k, exacts, _, settled⟩ := sequential_completion formed near
  obtain ⟨exact', count⟩ := exacts k le_rfl
  rw [initial_settledCount] at count
  have bound := (sequential w s k).settledCount_le
  rw [Fintype.card_fin] at bound
  exact ⟨k, by omega, exact', exact'.complete settled, by omega⟩

omit formed near in
theorem sequential_from {k m : ℕ} (le : k ≤ m) :
    sequential w s m = rounds (wrapped w) select (sequential w s k) (m - k) := by
  have split : m = k + (m - k) := by omega
  conv_lhs => rw [split]
  exact rounds_add k (m - k)

theorem sequential_complete : Complete (weight w) sentinel s (sequential w s (N - 1)) := by
  obtain ⟨k, le, _, complete, _⟩ := sequential_phases formed near
  rw [sequential_from le]
  exact complete.rounds _

/-! ## Unreachable nodes -/

structure Exhausted (w : RoadMap) (s : Fin N) (T : Table (Fin N) ℕ) : Prop where
  complete : Complete (weight w) sentinel s T
  isolated : ∀ v, ¬ Reachable (roads w) s v → T.dist v = sentinel

/-- The rounds without a candidate go through node 0. They do no harm when it is
settled already, and when its sums with the sentinel stay within 14 bits. -/
def Shielded (w : RoadMap) (s : Fin N) : Prop :=
  Reachable (roads w) s 0 ∨ ∀ v, ¬ Reachable (roads w) s v → weight w 0 v ≤ 6383

omit formed near in
theorem Exhausted.select_eq {T : Table (Fin N) ℕ} (exhausted : Exhausted w s T) : select T = 0 := by
  apply select_eq_zero
  rintro v ⟨unsettled, below⟩
  have isolated : ¬ Reachable (roads w) s v := fun reached => by
    rw [exhausted.complete.settled v reached] at unsettled
    cases unsettled
  rw [exhausted.isolated v isolated] at below
  exact lt_irrefl _ below

omit [NeZero N] near in
theorem weight_isolated {u v : Fin N} (reached : Reachable (roads w) s u)
    (isolated : ¬ Reachable (roads w) s v) : weight w u v = sentinel := by
  refine le_antisymm (weight_le formed u v) (Nat.not_lt.mp fun road => isolated ?_)
  exact reached.step (arcsBelow_of_lt road)

theorem Exhausted.round {T : Table (Fin N) ℕ} (exhausted : Exhausted w s T)
    (shielded : Shielded w s) : Exhausted w s (T.round (wrapped w) select) := by
  refine ⟨exhausted.complete.round, fun v isolated => ?_⟩
  have label := exhausted.isolated v isolated
  -- A sum through node 0 is no smaller than the sentinel.
  have sum : sentinel ≤ wrapped w (T.dist 0) 0 v := by
    rcases shielded with reached | light
    · have small : T.dist 0 ≤ 6383 := by
        have := near 0 reached
        rw [exhausted.complete.dist 0 reached] at this
        exact_mod_cast this
      have entry := weight_isolated formed reached isolated
      unfold sentinel at *
      rw [wrapped_of_lt (by omega)]
      omega
    · have entry := light v isolated
      by_cases reached : Reachable (roads w) s 0
      · have := weight_isolated formed reached isolated
        unfold sentinel at this
        omega
      · have := exhausted.isolated 0 reached
        unfold sentinel at *
        rw [wrapped_of_lt (by omega)]
        omega
  rcases Table.round_cases (wrapped w) select T v with ⟨_, same, _⟩ | ⟨_, smaller, _⟩ | ⟨_, _, same, _⟩
  · exact same.trans label
  · rw [exhausted.select_eq, label] at smaller
    omega
  · exact same.trans label

theorem Exhausted.rounds {T : Table (Fin N) ℕ} (exhausted : Exhausted w s T)
    (shielded : Shielded w s) (k : ℕ) : Exhausted w s (rounds (wrapped w) select T k) := by
  induction k with
  | zero => exact exhausted
  | succ k ih => rw [rounds_succ]; exact ih.round formed near shielded

omit near in
/-- A round through an unreachable node 0 wraps every sum with a large entry. -/
theorem Exhausted.round_wraps {T : Table (Fin N) ℕ} (exhausted : Exhausted w s T)
    (exact' : Exact (weight w) sentinel s T) (outside : ¬ Reachable (roads w) s 0) {v : Fin N}
    (isolated : ¬ Reachable (roads w) s v) (heavy : 6383 < weight w 0 v) :
    (T.round (wrapped w) select).dist v < sentinel := by
  have zero := exhausted.isolated 0 outside
  have label := exhausted.isolated v isolated
  have entry : weight w 0 v ≤ sentinel := weight_le formed 0 v
  have sum : wrapped w (T.dist 0) 0 v < sentinel := by
    unfold wrapped sentinel at *
    omega
  rcases Table.round_cases (wrapped w) select T v with
    ⟨⟨_, settled⟩, _⟩ | ⟨_, _, same, _⟩ | ⟨_, larger, _⟩
  · -- Only node 0 is marked, and it has no entry to itself.
    rw [exhausted.select_eq] at settled
    rcases settled with rfl | settled
    · rw [weight_self formed] at heavy
      omega
    · exact absurd (exact'.walk v settled).reachable isolated
  · rw [same, exhausted.select_eq]
    exact sum
  · rw [exhausted.select_eq, label] at larger
    omega

theorem sequential_isolated_iff :
    (∀ v, ¬ Reachable (roads w) s v → (sequential w s (N - 1)).dist v = sentinel) ↔
      Shielded w s := by
  obtain ⟨k, le, exact', complete, count⟩ := sequential_phases formed near
  have exhausted : Exhausted w s (sequential w s k) :=
    ⟨complete, fun v isolated => exact'.unreachable isolated⟩
  rw [sequential_from le]
  constructor
  · intro kept
    by_contra exposed
    obtain ⟨outside, v, isolated, heavy⟩ :
        ¬ Reachable (roads w) s 0 ∧ ∃ v, ¬ Reachable (roads w) s v ∧ 6383 < weight w 0 v := by
      simpa [Shielded] using exposed
    -- Node 0 is not settled, so at least one more round runs.
    have more : k + 1 < N := by
      by_contra full
      have settled : (sequential w s k).settled 0 = true :=
        Table.all_settled (by rw [Fintype.card_fin]; omega) 0
      exact outside (exact'.walk 0 settled).reachable
    -- The first of these rounds stores a wrapped sum, and labels never grow again.
    have wraps := exhausted.round_wraps formed exact' outside isolated heavy
    have later : (rounds (wrapped w) select (sequential w s k) (N - 1 - k)).dist v ≤
        (rounds (wrapped w) select (sequential w s k) 1).dist v :=
      rounds_dist_le (by omega)
    rw [kept v isolated, rounds_succ, rounds_zero] at later
    omega
  · exact fun shielded => (exhausted.rounds formed near shielded _).isolated

end Near

/-! ## Sums that wrap -/

/-- On unbounded integers, node `u` is taken in a round that leaves `i` open. -/
def TakenBefore (w : RoadMap) (s u i : Fin N) : Prop :=
  ∃ k, k + 1 < N ∧ select (unbounded w s k) = u ∧ (unbounded w s (k + 1)).settled i = false

/-- No distance extended by the entry for a node that is still open then exceeds 14 bits. -/
def NoWrap (w : RoadMap) (s : Fin N) : Prop :=
  ∀ u i, TakenBefore w s u i → distance (roads w) s u + weight w u i < (2 ^ 14 : ℕ)

section Connected

variable (formed : w.WellFormed N)
  (connected : ∀ v, Reachable (roads w) s v ∧ distance (roads w) s v < (sentinel : ℕ))

include formed connected

theorem unbounded_exact :
    (∀ j ≤ N - 1, Exact (weight w) sentinel s (unbounded w s j)) ∧
      (∀ j, j + 1 < N → (unbounded w s j).LeastOpen sentinel (select (unbounded w s j))) ∧
      ∀ v, (unbounded w s (N - 1)).settled v = true := by
  obtain ⟨k, exacts, leasts, settled⟩ := (initial_exact formed).completion (exactly w) select
    (fun v _ => (connected v).2) (fun _ _ => select_leastOpen) fun _ _ _ _ _ => rfl
  have full : (unbounded w s k).settledCount = N := by
    rw [unbounded, Table.settledCount_eq fun v => settled v (connected v).1, Fintype.card_fin]
  have count := (exacts k le_rfl).2
  rw [initial_settledCount] at count
  have rounds : k + 1 = N := by
    rw [← full, Nat.add_comm]
    exact count.symm
  obtain rfl : k = N - 1 := by omega
  exact ⟨fun j le => (exacts j le).1, fun j more => leasts j (by omega),
    fun v => settled v (connected v).1⟩

theorem unbounded_picked {k : ℕ} (more : k + 1 < N) :
    distance (roads w) s (select (unbounded w s k)) =
      (unbounded w s k).dist (select (unbounded w s k)) := by
  obtain ⟨exacts, leasts, _⟩ := unbounded_exact formed connected
  exact (exacts k (by omega)).picked_distance (leasts k more)

omit formed connected in
theorem unbounded_open {j k : ℕ} (le : j ≤ k) {v : Fin N}
    (unsettled : (unbounded w s k).settled v = false) : (unbounded w s j).settled v = false := by
  by_contra settled
  rw [Bool.not_eq_false] at settled
  rw [unbounded, rounds_settled_mono le settled] at unsettled
  cases unsettled

omit formed connected in
theorem unbounded_taken {k : ℕ} {u : Fin N} (moved : u ≠ s)
    (settled : (unbounded w s k).settled u = true) :
    ∃ j < k, select (unbounded w s j) = u ∧ (unbounded w s j).settled u = false := by
  rcases rounds_taken settled with source | taken
  · exact absurd (initial_settled.mp source) moved
  · exact taken

theorem TakenBefore.distance_le {u i : Fin N} (before : TakenBefore w s u i) :
    distance (roads w) s u ≤ distance (roads w) s i := by
  obtain ⟨k, more, rfl, unsettled⟩ := before
  obtain ⟨exacts, leasts, _⟩ := unbounded_exact formed connected
  have open' := unbounded_open k.le_succ unsettled
  rw [unbounded_picked formed connected more]
  apply le_distance
  intro length walk
  exact_mod_cast (exacts k (by omega)).picked (leasts k more) open' walk

theorem takenBefore_of_lt {u i : Fin N} (moved : u ≠ s)
    (nearer : distance (roads w) s u < distance (roads w) s i) : TakenBefore w s u i := by
  obtain ⟨_, _, all⟩ := unbounded_exact formed connected
  obtain ⟨k, below, taken, open'⟩ := unbounded_taken moved (all u)
  refine ⟨k, by omega, taken, ?_⟩
  by_contra settled
  rw [Bool.not_eq_false] at settled
  -- Node i would be the start node, or taken in an earlier round than u.
  by_cases source : i = s
  · rw [source, distance_source] at nearer
    exact absurd nearer not_lt_zero
  · obtain ⟨j, earlier, other, _⟩ := unbounded_taken source settled
    rcases Nat.lt_or_ge j k with before | same
    · have reversed : TakenBefore w s i u :=
        ⟨j, by omega, other, unbounded_open (Nat.succ_le_of_lt before) open'⟩
      exact absurd nearer (not_lt_of_ge (reversed.distance_le formed connected))
    · obtain rfl : j = k := by omega
      obtain rfl : u = i := taken.symm.trans other
      exact lt_irrefl _ nearer

theorem TakenBefore.moved {u i : Fin N} (before : TakenBefore w s u i) : u ≠ s ∧ u ≠ i := by
  obtain ⟨k, more, rfl, unsettled⟩ := before
  obtain ⟨exacts, leasts, _⟩ := unbounded_exact formed connected
  constructor
  · intro same
    have open' := (leasts k more).isOpen.1
    rw [same, (exacts k (by omega)).settled_source] at open'
    cases open'
  · intro same
    have picked : (unbounded w s (k + 1)).settled (select (unbounded w s k)) = true := by
      rw [unbounded, rounds_succ]
      exact Table.round_settled.mpr (.inl rfl)
    rw [same, unsettled] at picked
    cases picked

/-- Without ties the rounds disappear from the condition. -/
theorem noWrap_iff_of_distinct (distinct : Function.Injective (distance (roads w) s)) :
    NoWrap w s ↔ ∀ u i, u ≠ s → distance (roads w) s u < distance (roads w) s i →
      distance (roads w) s u + weight w u i < (2 ^ 14 : ℕ) := by
  constructor
  · intro noWrap u i moved nearer
    exact noWrap u i (takenBefore_of_lt formed connected moved nearer)
  · intro below u i before
    obtain ⟨moved, apart⟩ := before.moved formed connected
    exact below u i moved ((before.distance_le formed connected).lt_of_ne (distinct.ne apart))

omit formed connected in
theorem sequential_eq_unbounded {k : ℕ}
    (fits : ∀ j < k, ∀ i, (unbounded w s (j + 1)).settled i = false →
      (unbounded w s j).dist (select (unbounded w s j)) +
        weight w (select (unbounded w s j)) i < 2 ^ 14) :
    sequential w s k = unbounded w s k := by
  induction k with
  | zero => rfl
  | succ k ih =>
    have same := ih fun j below => fits j (by omega)
    have step : unbounded w s (k + 1) = (unbounded w s k).round (exactly w) select := rounds_succ k
    rw [sequential, rounds_succ, ← sequential, same, step]
    refine (Table.round_congr fun i unsettled => ?_).symm
    exact (wrapped_of_lt (fits k (by omega) i (step ▸ unsettled))).symm

theorem sequential_le_of_noWrap (noWrap : NoWrap w s) {k : ℕ} (le : k ≤ N - 1) (v : Fin N) :
    distance (roads w) s v ≤ (sequential w s k).dist v := by
  have fits (j : ℕ) (below : j < k) (i : Fin N)
      (unsettled : (unbounded w s (j + 1)).settled i = false) :
      (unbounded w s j).dist (select (unbounded w s j)) +
        weight w (select (unbounded w s j)) i < 2 ^ 14 := by
    have := noWrap _ i ⟨j, by omega, rfl, unsettled⟩
    rw [unbounded_picked formed connected (by omega)] at this
    exact_mod_cast this
  rw [sequential_eq_unbounded fits]
  exact ((unbounded_exact formed connected).1 k le).distance_le (connected v).2

/-- The first sum that wraps leaves a label below every distance still open. -/
theorem sequential_wraps {k : ℕ} (more : k + 1 < N)
    (same : sequential w s k = unbounded w s k) {i : Fin N}
    (unsettled : (unbounded w s (k + 1)).settled i = false)
    (overflow : 2 ^ 14 ≤ (unbounded w s k).dist (select (unbounded w s k)) +
      weight w (select (unbounded w s k)) i) :
    (sequential w s (k + 1)).dist i < distance (roads w) s i := by
  obtain ⟨exacts, leasts, _⟩ := unbounded_exact formed connected
  have exact' := exacts k (by omega)
  have least := leasts k more
  have entry : weight w (select (unbounded w s k)) i ≤ sentinel := weight_le formed _ _
  have label := least.isOpen.2
  have open' := unbounded_open k.le_succ unsettled
  obtain ⟨length, walk, attained⟩ := (connected i).1.attained
  have behind := exact'.picked least open' walk
  have above : length ≤ (unbounded w s k).dist i := by
    have := exact'.distance_le (connected i).2
    rw [attained] at this
    exact_mod_cast this
  -- The taken label is above 6383, as no entry exceeds 10000, so the wrapped sum is below it.
  have sum : wrapped w ((unbounded w s k).dist (select (unbounded w s k)))
      (select (unbounded w s k)) i < length := by
    unfold wrapped sentinel at *
    omega
  have still : ((unbounded w s k).round (wrapped w) select).settled i = false := by
    have step : unbounded w s (k + 1) = (unbounded w s k).round (exactly w) select := rounds_succ k
    rw [step] at unsettled
    exact unsettled
  rw [attained, sequential, rounds_succ, ← sequential, same, Nat.cast_lt]
  rcases Table.round_open still with ⟨_, shrunk, _⟩ | ⟨larger, _⟩
  · exact shrunk ▸ sum
  · omega

theorem noWrap_of_sequential_le
    (above : ∀ v, distance (roads w) s v ≤ (sequential w s (N - 1)).dist v) : NoWrap w s := by
  by_contra wraps
  have overflows : ∃ k, k + 1 < N ∧ ∃ i, (unbounded w s (k + 1)).settled i = false ∧
      2 ^ 14 ≤ (unbounded w s k).dist (select (unbounded w s k)) +
        weight w (select (unbounded w s k)) i := by
    simp only [NoWrap, not_forall, not_lt] at wraps
    obtain ⟨u, i, ⟨k, more, rfl, unsettled⟩, overflow⟩ := wraps
    rw [unbounded_picked formed connected more] at overflow
    exact ⟨k, more, i, unsettled, by exact_mod_cast overflow⟩
  -- Up to the first overflow both arithmetics have made the same tables.
  classical
  obtain ⟨more, i, unsettled, overflow⟩ := Nat.find_spec overflows
  have same : sequential w s (Nat.find overflows) = unbounded w s (Nat.find overflows) := by
    apply sequential_eq_unbounded
    intro j below i unsettled
    by_contra large
    exact Nat.find_min overflows below ⟨by omega, i, unsettled, Nat.not_lt.mp large⟩
  have short := sequential_wraps formed connected more same unsettled overflow
  have later : (sequential w s (N - 1)).dist i ≤ (sequential w s (Nat.find overflows + 1)).dist i :=
    rounds_dist_le (by omega)
  exact absurd (above i) (not_le_of_gt (lt_of_le_of_lt (Nat.cast_le.mpr later) short))

end Connected

end PathAccelerator.Algorithm
