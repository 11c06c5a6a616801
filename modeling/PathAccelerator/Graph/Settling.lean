import PathAccelerator.Graph.Walk
import PathAccelerator.Graph.PointerTree
import Mathlib.Data.Fintype.Card
import Mathlib.Tactic.Order

/-! Label-setting rounds: pick a node, mark it settled, relax through it.

How a label is extended along an arc and how a node is picked are parameters, so
the same round covers exact and modular arithmetic and every rule for ties.
-/

set_option autoImplicit false

namespace PathAccelerator.Graph

variable {V C : Type*}

@[ext]
structure Table (V C : Type*) where
  dist : V → C
  pred : V → V
  settled : V → Bool

section Mark

variable [DecidableEq V] {T : Table V C} {u v : V}

def Table.mark (u : V) (T : Table V C) : Table V C :=
  { T with settled := Function.update T.settled u true }

@[simp] theorem Table.mark_dist : (T.mark u).dist = T.dist := rfl

@[simp] theorem Table.mark_pred : (T.mark u).pred = T.pred := rfl

theorem Table.mark_settled : (T.mark u).settled v = true ↔ v = u ∨ T.settled v = true := by
  by_cases same : v = u
  · simp [mark, same]
  · simp [mark, same]

end Mark

/-- Every pointer leads to a settled node, and from settled nodes to the root
through settled nodes only: the order of settling is what excludes cycles. -/
structure Rooted (root : V) (T : Table V C) : Prop where
  settled_root : T.settled root = true
  fixed : T.pred root = root
  settled_pred : ∀ v, T.settled (T.pred v) = true
  climbs : ∀ v, T.settled v = true → ∃ hops, T.pred^[hops] v = root

theorem Rooted.tree {root : V} {T : Table V C} (rooted : Rooted root T) :
    PointerTree T.pred root where
  fixed := rooted.fixed
  climbs v :=
    let ⟨hops, reached⟩ := rooted.climbs _ (rooted.settled_pred v)
    ⟨hops + 1, reached⟩

section Rounds

variable [LinearOrder C]

def Table.relax (extend : C → V → V → C) (u : V) (T : Table V C) : Table V C where
  dist i := if T.settled i = false ∧ extend (T.dist u) u i < T.dist i
    then extend (T.dist u) u i else T.dist i
  pred i := if T.settled i = false ∧ extend (T.dist u) u i < T.dist i then u else T.pred i
  settled := T.settled

variable [DecidableEq V]

def Table.round (extend : C → V → V → C) (pick : Table V C → V) (T : Table V C) : Table V C :=
  (T.mark (pick T)).relax extend (pick T)

def rounds (extend : C → V → V → C) (pick : Table V C → V) (T : Table V C) (k : ℕ) : Table V C :=
  (Table.round extend pick)^[k] T

variable {extend : C → V → V → C} {pick : Table V C → V} {T : Table V C} {u v : V}

@[simp] theorem rounds_zero : rounds extend pick T 0 = T := rfl

theorem rounds_succ (k : ℕ) :
    rounds extend pick T (k + 1) = (rounds extend pick T k).round extend pick :=
  Function.iterate_succ_apply' _ _ _

theorem rounds_add (k m : ℕ) :
    rounds extend pick T (k + m) = rounds extend pick (rounds extend pick T k) m := by
  rw [rounds, Nat.add_comm, Function.iterate_add_apply]
  rfl

theorem Table.round_settled :
    (T.round extend pick).settled v = true ↔ v = pick T ∨ T.settled v = true :=
  mark_settled

theorem Table.round_frozen (settled : T.settled v = true) :
    (T.round extend pick).dist v = T.dist v ∧ (T.round extend pick).pred v = T.pred v := by
  have marked : (T.mark (pick T)).settled v = true := mark_settled.mpr (.inr settled)
  constructor <;> exact if_neg (by simp [marked])

theorem Table.round_picked :
    (T.round extend pick).dist (pick T) = T.dist (pick T) ∧
      (T.round extend pick).pred (pick T) = T.pred (pick T) := by
  have marked : (T.mark (pick T)).settled (pick T) = true := mark_settled.mpr (.inl rfl)
  constructor <;> exact if_neg (by simp [marked])

theorem Table.round_open (opened : (T.round extend pick).settled v = false) :
    (extend (T.dist (pick T)) (pick T) v < T.dist v ∧
      (T.round extend pick).dist v = extend (T.dist (pick T)) (pick T) v ∧
      (T.round extend pick).pred v = pick T) ∨
    (T.dist v ≤ extend (T.dist (pick T)) (pick T) v ∧
      (T.round extend pick).dist v = T.dist v ∧ (T.round extend pick).pred v = T.pred v) := by
  have unmarked : (T.mark (pick T)).settled v = false := opened
  by_cases smaller : extend (T.dist (pick T)) (pick T) v < T.dist v
  · exact .inl ⟨smaller, if_pos ⟨unmarked, smaller⟩, if_pos ⟨unmarked, smaller⟩⟩
  · exact .inr ⟨not_lt.mp smaller, if_neg (fun h => smaller h.2), if_neg (fun h => smaller h.2)⟩

theorem Table.round_cases (extend : C → V → V → C) (pick : Table V C → V) (T : Table V C) (v : V) :
    (((T.round extend pick).settled v = true ∧ (v = pick T ∨ T.settled v = true)) ∧
      (T.round extend pick).dist v = T.dist v ∧ (T.round extend pick).pred v = T.pred v) ∨
    ((T.round extend pick).settled v = false ∧
      extend (T.dist (pick T)) (pick T) v < T.dist v ∧
      (T.round extend pick).dist v = extend (T.dist (pick T)) (pick T) v ∧
      (T.round extend pick).pred v = pick T) ∨
    ((T.round extend pick).settled v = false ∧
      T.dist v ≤ extend (T.dist (pick T)) (pick T) v ∧
      (T.round extend pick).dist v = T.dist v ∧ (T.round extend pick).pred v = T.pred v) := by
  cases marked : (T.round extend pick).settled v with
  | true =>
    refine .inl ⟨⟨rfl, round_settled.mp marked⟩, ?_⟩
    rcases round_settled.mp marked with rfl | settled
    · exact round_picked
    · exact round_frozen settled
  | false =>
    rcases round_open marked with replaced | kept
    · exact .inr (.inl ⟨rfl, replaced⟩)
    · exact .inr (.inr ⟨rfl, kept⟩)

theorem Table.round_congr {extend' : C → V → V → C}
    (agree : ∀ i, (T.round extend pick).settled i = false →
      extend (T.dist (pick T)) (pick T) i = extend' (T.dist (pick T)) (pick T) i) :
    T.round extend pick = T.round extend' pick := by
  have same (i : V) (unmarked : (T.mark (pick T)).settled i = false) :
      extend (T.dist (pick T)) (pick T) i = extend' (T.dist (pick T)) (pick T) i :=
    agree i unmarked
  ext i
  · simp only [round, relax, mark_dist]
    grind
  · simp only [round, relax, mark_dist, mark_pred]
    grind
  · rfl

theorem Table.round_dist_le (extend : C → V → V → C) (pick : Table V C → V) (T : Table V C) (v : V) :
    (T.round extend pick).dist v ≤ T.dist v := by
  rcases round_cases extend pick T v with ⟨_, same, _⟩ | ⟨_, smaller, same, _⟩ | ⟨_, _, same, _⟩
  · exact le_of_eq same
  · exact same ▸ le_of_lt smaller
  · exact le_of_eq same

theorem rounds_dist_le {k m : ℕ} (le : k ≤ m) :
    (rounds extend pick T m).dist v ≤ (rounds extend pick T k).dist v := by
  induction le with
  | refl => exact le_refl _
  | step _ ih =>
    rw [rounds_succ]
    exact (Table.round_dist_le _ _ _ _).trans ih

/-- A label that is the first one still was never improved, so its pointer is the first
one as well. -/
theorem rounds_pred_of_dist {k : ℕ} (same : (rounds extend pick T k).dist v = T.dist v) :
    (rounds extend pick T k).pred v = T.pred v := by
  induction k with
  | zero => rfl
  | succ k ih =>
    have below : (rounds extend pick T k).dist v ≤ T.dist v := rounds_dist_le (Nat.zero_le k)
    rw [rounds_succ] at same ⊢
    rcases Table.round_cases extend pick (rounds extend pick T k) v with
      ⟨_, dist, pred⟩ | ⟨_, smaller, dist, _⟩ | ⟨_, _, dist, pred⟩
    · exact pred.trans (ih (dist.symm.trans same))
    · rw [same] at dist
      exact absurd (dist ▸ smaller) (not_lt_of_ge below)
    · exact pred.trans (ih (dist.symm.trans same))

theorem rounds_settled_mono {j k : ℕ} (le : j ≤ k)
    (settled : (rounds extend pick T j).settled v = true) :
    (rounds extend pick T k).settled v = true := by
  induction k, le using Nat.le_induction with
  | base => exact settled
  | succ k _ ih =>
    rw [rounds_succ]
    exact Table.round_settled.mpr (.inr ih)

theorem rounds_taken {k : ℕ} (settled : (rounds extend pick T k).settled v = true) :
    T.settled v = true ∨
      ∃ j < k, pick (rounds extend pick T j) = v ∧ (rounds extend pick T j).settled v = false := by
  induction k with
  | zero => exact .inl settled
  | succ k ih =>
    cases before : (rounds extend pick T k).settled v with
    | true =>
      rcases ih before with start | ⟨j, earlier, taken⟩
      · exact .inl start
      · exact .inr ⟨j, by omega, taken⟩
    | false =>
      rw [rounds_succ] at settled
      rcases Table.round_settled.mp settled with taken | settled
      · exact .inr ⟨k, k.lt_succ_self, taken.symm, before⟩
      · exact absurd (before.symm.trans settled) Bool.false_ne_true

/-! ## Pointers -/

omit [LinearOrder C] in
theorem Rooted.mark {root : V} (rooted : Rooted root T) (u : V) : Rooted root (T.mark u) where
  settled_root := Table.mark_settled.mpr (.inr rooted.settled_root)
  fixed := rooted.fixed
  settled_pred v := Table.mark_settled.mpr (.inr (rooted.settled_pred v))
  climbs v marked := by
    rcases Table.mark_settled.mp marked with rfl | settled
    · obtain ⟨hops, reached⟩ := rooted.climbs _ (rooted.settled_pred v)
      exact ⟨hops + 1, reached⟩
    · exact rooted.climbs v settled

omit [DecidableEq V] in
theorem Rooted.relax {root : V} (rooted : Rooted root T) (picked : T.settled u = true) :
    Rooted root (T.relax extend u) := by
  have keeps {v : V} (settled : T.settled v = true) : (T.relax extend u).pred v = T.pred v :=
    if_neg (by simp [settled])
  -- From a settled node the new pointers and the old ones lead the same way.
  have follows (hops : ℕ) : ∀ v, T.settled v = true →
      (T.relax extend u).pred^[hops] v = T.pred^[hops] v := by
    induction hops with
    | zero => exact fun _ _ => rfl
    | succ hops ih =>
      intro v settled
      rw [Function.iterate_succ_apply, Function.iterate_succ_apply, keeps settled]
      exact ih _ (rooted.settled_pred v)
  refine ⟨rooted.settled_root, (keeps rooted.settled_root).trans rooted.fixed, fun v => ?_,
    fun v settled => ?_⟩
  · show T.settled ((T.relax extend u).pred v) = true
    simp only [Table.relax]
    split
    · exact picked
    · exact rooted.settled_pred v
  · obtain ⟨hops, reached⟩ := rooted.climbs v settled
    exact ⟨hops, (follows hops v settled).trans reached⟩

theorem Rooted.round {root : V} (rooted : Rooted root T) : Rooted root (T.round extend pick) :=
  (rooted.mark (pick T)).relax (Table.mark_settled.mpr (.inl rfl))

theorem Rooted.rounds {root : V} (rooted : Rooted root T) (k : ℕ) :
    Rooted root (rounds extend pick T k) := by
  induction k with
  | zero => exact rooted
  | succ k ih => rw [rounds_succ]; exact ih.round

end Rounds

end PathAccelerator.Graph
