import PathAccelerator.Graph.Settling

/-! Correctness of label-setting rounds on a matrix of arc lengths, where entries
from a limit on stand for missing arcs.

Extension of labels need not be addition everywhere: a round is exact as long as
it adds correctly at the nodes it leaves unsettled.
-/

set_option autoImplicit false

namespace PathAccelerator.Graph

variable {V : Type*}

/-- The arcs of a matrix whose entries from `limit` on mean that there is none. -/
def arcsBelow (w : V → V → ℕ) (limit : ℕ) : Network V :=
  fun u v => if w u v < limit then some (w u v) else none

theorem arcsBelow_of_lt {w : V → V → ℕ} {limit : ℕ} {u v : V} (lt : w u v < limit) :
    arcsBelow w limit u v = some (w u v) := if_pos lt

theorem arcsBelow_eq_some {w : V → V → ℕ} {limit : ℕ} {u v : V} {arc : ℕ} :
    arcsBelow w limit u v = some arc ↔ w u v < limit ∧ w u v = arc := by
  unfold arcsBelow
  split <;> simp_all

def Table.Open (T : Table V ℕ) (limit : ℕ) (v : V) : Prop :=
  T.settled v = false ∧ T.dist v < limit

instance (T : Table V ℕ) (limit : ℕ) (v : V) : Decidable (T.Open limit v) :=
  inferInstanceAs (Decidable (_ ∧ _))

structure Table.LeastOpen (T : Table V ℕ) (limit : ℕ) (u : V) : Prop where
  isOpen : T.Open limit u
  least : ∀ v, T.Open limit v → T.dist u ≤ T.dist v

/-- Labels of settled nodes are distances, and no label can be improved by one
arc from a settled node. -/
structure Exact (w : V → V → ℕ) (limit : ℕ) (source : V) (T : Table V ℕ) : Prop where
  settled_source : T.settled source = true
  settled_pred : ∀ v, T.settled (T.pred v) = true
  tight : ∀ v, T.dist v = T.dist (T.pred v) + w (T.pred v) v
  walk : ∀ v, T.settled v = true → Walk (arcsBelow w limit) source v (T.dist v)
  least : ∀ v, T.settled v = true →
    ∀ length, Walk (arcsBelow w limit) source v length → T.dist v ≤ length
  relaxed : ∀ u v, T.settled u = true → T.settled v = false → T.dist v ≤ T.dist u + w u v
  bounded : ∀ v, T.dist v ≤ limit

structure Complete (w : V → V → ℕ) (limit : ℕ) (source : V) (T : Table V ℕ) : Prop where
  settled : ∀ v, Reachable (arcsBelow w limit) source v → T.settled v = true
  dist : ∀ v, Reachable (arcsBelow w limit) source v →
    distance (arcsBelow w limit) source v = T.dist v
  reachable_pred : ∀ v, Reachable (arcsBelow w limit) source v →
    Reachable (arcsBelow w limit) source (T.pred v)
  tight : ∀ v, Reachable (arcsBelow w limit) source v →
    T.dist v = T.dist (T.pred v) + w (T.pred v) v

variable {w : V → V → ℕ} {limit : ℕ} {source : V} {T : Table V ℕ} {u v : V}

namespace Exact

theorem distance_eq (exact' : Exact w limit source T) (settled : T.settled v = true) :
    distance (arcsBelow w limit) source v = T.dist v :=
  Graph.distance_eq (exact'.walk v settled) (exact'.least v settled)

/-- A walk to an unsettled node is no shorter than some unsettled label. -/
theorem frontier (exact' : Exact w limit source T) {length : ℕ}
    (walk : Walk (arcsBelow w limit) source v length) (unsettled : T.settled v = false) :
    ∃ y, T.settled y = false ∧ T.dist y ≤ length := by
  obtain ⟨x, y, before, arc, hx, hy, reach, edge, le⟩ :=
    walk.exit (fun x => T.settled x = true) exact'.settled_source (by simp [unsettled])
  obtain ⟨_, rfl⟩ := arcsBelow_eq_some.mp edge
  have open' : T.settled y = false := by simpa using hy
  refine ⟨y, open', (exact'.relaxed x y hx open').trans ?_⟩
  have := exact'.least x hx before reach
  omega

theorem progress (exact' : Exact w limit source T) {length : ℕ}
    (walk : Walk (arcsBelow w limit) source v length) (unsettled : T.settled v = false)
    (near : length < limit) : ∃ y, T.Open limit y := by
  obtain ⟨y, open', le⟩ := exact'.frontier walk unsettled
  exact ⟨y, open', Nat.lt_of_le_of_lt le near⟩

theorem walk_of_lt (exact' : Exact w limit source T) (below : T.dist v < limit) :
    Walk (arcsBelow w limit) source v (T.dist v) := by
  have tight := exact'.tight v
  have arc : w (T.pred v) v < limit := by omega
  rw [tight]
  exact (exact'.walk _ (exact'.settled_pred v)).snoc (arcsBelow_of_lt arc)

/-- Dijkstra's argument: no walk to an unsettled node is shorter than the least
open label. -/
theorem picked (exact' : Exact w limit source T) (pick : T.LeastOpen limit u)
    (unsettled : T.settled v = false) {length : ℕ}
    (walk : Walk (arcsBelow w limit) source v length) : T.dist u ≤ length := by
  obtain ⟨y, open', le⟩ := exact'.frontier walk unsettled
  by_cases below : T.dist y < limit
  · exact (pick.least y ⟨open', below⟩).trans le
  · have := pick.isOpen.2
    omega

theorem picked_distance (exact' : Exact w limit source T) (pick : T.LeastOpen limit u) :
    distance (arcsBelow w limit) source u = T.dist u :=
  Graph.distance_eq (exact'.walk_of_lt pick.isOpen.2)
    fun _ walk => exact'.picked pick pick.isOpen.1 walk

theorem distance_le (exact' : Exact w limit source T)
    (near : distance (arcsBelow w limit) source v < limit) :
    distance (arcsBelow w limit) source v ≤ T.dist v := by
  by_cases below : T.dist v < limit
  · exact Graph.distance_le (exact'.walk_of_lt below)
  · exact (le_of_lt near).trans (Nat.cast_le.mpr (Nat.not_lt.mp below))

theorem unreachable (exact' : Exact w limit source T)
    (isolated : ¬ Reachable (arcsBelow w limit) source v) : T.dist v = limit := by
  refine le_antisymm (exact'.bounded v) (Nat.not_lt.mp fun below => isolated ?_)
  exact (exact'.walk_of_lt below).reachable

theorem complete (exact' : Exact w limit source T)
    (settled : ∀ v, Reachable (arcsBelow w limit) source v → T.settled v = true) :
    Complete w limit source T where
  settled := settled
  dist v reached := exact'.distance_eq (settled v reached)
  reachable_pred v _ := (exact'.walk _ (exact'.settled_pred v)).reachable
  tight v _ := exact'.tight v

variable [DecidableEq V]

theorem round {extend : ℕ → V → V → ℕ} {pick : Table V ℕ → V} (exact' : Exact w limit source T)
    (picks : T.LeastOpen limit (pick T))
    (adds : ∀ i, (T.round extend pick).settled i = false →
      extend (T.dist (pick T)) (pick T) i = T.dist (pick T) + w (pick T) i) :
    Exact w limit source (T.round extend pick) := by
  have keeps {v : V} (settled : (T.round extend pick).settled v = true) :
      (T.round extend pick).dist v = T.dist v := by
    rcases Table.round_settled.mp settled with rfl | before
    · exact Table.round_picked.1
    · exact (Table.round_frozen before).1
  have grows {v : V} (settled : T.settled v = true) : (T.round extend pick).settled v = true :=
    Table.round_settled.mpr (.inr settled)
  have picked : (T.round extend pick).settled (pick T) = true := Table.round_settled.mpr (.inl rfl)
  refine ⟨grows exact'.settled_source, fun v => ?_, fun v => ?_, fun v settled => ?_,
    fun v settled => ?_, fun u v settled unsettled => ?_,
    fun v => (Table.round_dist_le _ _ _ _).trans (exact'.bounded v)⟩
  · rcases Table.round_cases extend pick T v with ⟨_, _, same⟩ | ⟨_, _, _, same⟩ | ⟨_, _, _, same⟩
    · exact same ▸ grows (exact'.settled_pred v)
    · exact same ▸ picked
    · exact same ▸ grows (exact'.settled_pred v)
  · -- The label of a predecessor does not move: it is settled.
    rcases Table.round_cases extend pick T v with
      ⟨_, label, pointer⟩ | ⟨unsettled, _, label, pointer⟩ | ⟨_, _, label, pointer⟩
    · rw [label, pointer, keeps (grows (exact'.settled_pred v))]
      exact exact'.tight v
    · rw [label, pointer, keeps picked]
      exact adds v unsettled
    · rw [label, pointer, keeps (grows (exact'.settled_pred v))]
      exact exact'.tight v
  · rw [keeps settled]
    rcases Table.round_settled.mp settled with rfl | before
    · exact exact'.walk_of_lt picks.isOpen.2
    · exact exact'.walk v before
  · rw [keeps settled]
    rcases Table.round_settled.mp settled with rfl | before
    · exact fun _ => exact'.picked picks picks.isOpen.1
    · exact exact'.least v before
  · rw [keeps settled]
    rcases Table.round_settled.mp settled with rfl | before
    · rw [← adds v unsettled]
      rcases Table.round_open unsettled with ⟨_, label, _⟩ | ⟨le, label, _⟩
      · exact le_of_eq label
      · exact label ▸ le
    · have open' : T.settled v = false := by
        cases marked : T.settled v with
        | false => rfl
        | true => rw [grows marked] at unsettled; cases unsettled
      exact (Table.round_dist_le _ _ _ _).trans (exact'.relaxed u v before open')

end Exact

variable [DecidableEq V]

theorem Complete.round {extend : ℕ → V → V → ℕ} {pick : Table V ℕ → V}
    (complete : Complete w limit source T) : Complete w limit source (T.round extend pick) := by
  have frozen {v : V} (reached : Reachable (arcsBelow w limit) source v) :
      (T.round extend pick).dist v = T.dist v ∧ (T.round extend pick).pred v = T.pred v :=
    Table.round_frozen (complete.settled v reached)
  refine ⟨fun v reached => Table.round_settled.mpr (.inr (complete.settled v reached)),
    fun v reached => ?_, fun v reached => ?_, fun v reached => ?_⟩
  · rw [(frozen reached).1]
    exact complete.dist v reached
  · rw [(frozen reached).2]
    exact complete.reachable_pred v reached
  · rw [(frozen reached).2, (frozen reached).1, (frozen (complete.reachable_pred v reached)).1]
    exact complete.tight v reached

theorem Complete.rounds {extend : ℕ → V → V → ℕ} {pick : Table V ℕ → V}
    (complete : Complete w limit source T) (k : ℕ) :
    Complete w limit source (Graph.rounds extend pick T k) := by
  induction k with
  | zero => exact complete
  | succ k ih => rw [rounds_succ]; exact ih.round

omit [DecidableEq V] in
theorem Complete.trail (complete : Complete w limit source T)
    (near : ∀ v, Reachable (arcsBelow w limit) source v →
      distance (arcsBelow w limit) source v < limit)
    {hops : ℕ} (reached : Reachable (arcsBelow w limit) source v)
    (height : Height T.pred source v hops) :
    IsRoute (arcsBelow w limit) (trail T.pred hops v) ∧
      routeLength (arcsBelow w limit) (trail T.pred hops v) = T.dist v := by
  induction hops generalizing v with
  | zero =>
    obtain rfl : v = source := height.reaches
    have label := complete.dist v reached
    rw [distance_source] at label
    exact ⟨.singleton _, by exact_mod_cast label⟩
  | succ hops ih =>
    obtain ⟨route, length⟩ := ih (complete.reachable_pred v reached) height.of_succ
    have tight := complete.tight v reached
    have below : T.dist v < limit := by
      have := near v reached
      rw [complete.dist v reached] at this
      exact_mod_cast this
    have arc : arcsBelow w limit (T.pred v) v = some (w (T.pred v) v) := arcsBelow_of_lt (by omega)
    obtain ⟨before, split⟩ := trail_concat T.pred hops (T.pred v)
    rw [Graph.trail, split, List.append_assoc, List.singleton_append]
    rw [split] at route length
    refine ⟨route.concat (by rw [arc]; rfl), ?_⟩
    rw [routeLength_concat, length, arc, Option.getD_some]
    exact tight.symm

/-! ## Counting settled nodes -/

section Counting

variable [Fintype V]

def Table.settledCount {C : Type*} (T : Table V C) : ℕ :=
  (Finset.univ.filter fun v => T.settled v = true).card

theorem Table.settledCount_round {C : Type*} [LinearOrder C] {extend : C → V → V → C}
    {pick : Table V C → V} {T : Table V C} (unsettled : T.settled (pick T) = false) :
    (T.round extend pick).settledCount = T.settledCount + 1 := by
  have grown : (Finset.univ.filter fun v => (T.round extend pick).settled v = true) =
      insert (pick T) (Finset.univ.filter fun v => T.settled v = true) := by
    ext v
    simp [Table.round_settled]
  unfold settledCount
  rw [grown, Finset.card_insert_of_notMem (by simp [unsettled])]

omit [DecidableEq V] in
theorem Table.settledCount_le {C : Type*} (T : Table V C) : T.settledCount ≤ Fintype.card V :=
  Finset.card_le_univ _

omit [DecidableEq V] in
theorem Table.settledCount_eq {C : Type*} {T : Table V C} (all : ∀ v, T.settled v = true) :
    T.settledCount = Fintype.card V := by
  rw [settledCount, Finset.filter_true_of_mem fun v _ => all v, Finset.card_univ]

omit [DecidableEq V] in
theorem Table.all_settled {C : Type*} {T : Table V C} (full : Fintype.card V ≤ T.settledCount)
    (v : V) : T.settled v = true := by
  have all := (Finset.card_eq_iff_eq_univ _).mp (le_antisymm T.settledCount_le full)
  exact (Finset.filter_eq_self.mp all) v (Finset.mem_univ v)

/-- The rounds up to the one that settles the last reachable node are exact, and
each of them settles a node of least label. -/
theorem Exact.completion (extend : ℕ → V → V → ℕ) (pick : Table V ℕ → V)
    (start : Exact w limit source T)
    (near : ∀ v, Reachable (arcsBelow w limit) source v →
      distance (arcsBelow w limit) source v < limit)
    (picks : ∀ T, Exact w limit source T → (∃ v, T.Open limit v) → T.LeastOpen limit (pick T))
    (adds : ∀ T, Exact w limit source T → T.LeastOpen limit (pick T) →
      ∀ i, (T.round extend pick).settled i = false →
        extend (T.dist (pick T)) (pick T) i = T.dist (pick T) + w (pick T) i) :
    ∃ k,
      (∀ j ≤ k, Exact w limit source (Graph.rounds extend pick T j) ∧
        (Graph.rounds extend pick T j).settledCount = T.settledCount + j) ∧
      (∀ j < k, (Graph.rounds extend pick T j).LeastOpen limit
        (pick (Graph.rounds extend pick T j))) ∧
      ∀ v, Reachable (arcsBelow w limit) source v →
        (Graph.rounds extend pick T k).settled v = true := by
  have none {T : Table V ℕ} (start : Exact w limit source T) :
      ∀ j ≤ 0, Exact w limit source (Graph.rounds extend pick T j) ∧
        (Graph.rounds extend pick T j).settledCount = T.settledCount + j := by
    intro j le
    rw [Nat.le_zero.mp le]
    exact ⟨start, rfl⟩
  -- Induction on the number of nodes still unsettled.
  induction missing : Fintype.card V - T.settledCount generalizing T with
  | zero =>
    have all (v : V) (_ : Reachable (arcsBelow w limit) source v) : T.settled v = true :=
      Table.all_settled (by omega) v
    exact ⟨0, none start, fun _ below => absurd below (Nat.not_lt_zero _), all⟩
  | succ missing' ih =>
    by_cases finished : ∀ v, Reachable (arcsBelow w limit) source v → T.settled v = true
    · exact ⟨0, none start, fun _ below => absurd below (Nat.not_lt_zero _), finished⟩
    · simp only [not_forall, Bool.not_eq_true] at finished
      obtain ⟨v, reached, unsettled⟩ := finished
      obtain ⟨length, walk, attained⟩ := reached.attained
      have below : length < limit := by simpa [attained] using near v reached
      have least := picks T start (start.progress walk unsettled below)
      have counted : (T.round extend pick).settledCount = T.settledCount + 1 :=
        T.settledCount_round least.isOpen.1
      obtain ⟨k, exacts, leasts, settled⟩ :=
        ih (start.round least (adds T start least)) (by omega)
      refine ⟨k + 1, fun j le => ?_, fun j below => ?_, settled⟩
      · cases j with
        | zero => exact ⟨start, rfl⟩
        | succ j =>
          obtain ⟨exact', count⟩ := exacts j (by omega)
          exact ⟨exact', count.trans (by omega)⟩
      · cases j with
        | zero => exact least
        | succ j => exact leasts j (by omega)

end Counting

end PathAccelerator.Graph
