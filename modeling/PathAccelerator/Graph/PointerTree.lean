import Mathlib.Data.Fintype.Card
import Mathlib.Logic.Function.Iterate

/-! Predecessor pointers that all lead to one root. -/

set_option autoImplicit false

namespace PathAccelerator.Graph

variable {V : Type*}

structure PointerTree (pred : V → V) (root : V) : Prop where
  fixed : pred root = root
  climbs : ∀ v, ∃ hops, pred^[hops] v = root

/-- The first hop at which the root is reached. -/
structure Height (pred : V → V) (root v : V) (hops : ℕ) : Prop where
  reaches : pred^[hops] v = root
  first : ∀ earlier < hops, pred^[earlier] v ≠ root

variable {pred : V → V} {root v : V} {hops : ℕ}

theorem PointerTree.height (tree : PointerTree pred root) (v : V) :
    ∃ hops, Height pred root v hops := by
  classical
  exact ⟨Nat.find (tree.climbs v), Nat.find_spec (tree.climbs v),
    fun _ earlier => Nat.find_min (tree.climbs v) earlier⟩

theorem Height.injective (height : Height pred root v hops) {i j : ℕ} (hi : i ≤ hops)
    (hj : j ≤ hops) (same : pred^[i] v = pred^[j] v) : i = j := by
  by_contra different
  wlog ordered : i < j generalizing i j
  · exact this hj hi same.symm (Ne.symm different) (by omega)
  -- The stretch after the second visit also follows the first one.
  have shortcut : pred^[hops - j + i] v = root := by
    rw [Function.iterate_add_apply, same, ← Function.iterate_add_apply, Nat.sub_add_cancel hj]
    exact height.reaches
  exact height.first _ (by omega) shortcut

theorem Height.lt_card [Fintype V] (height : Height pred root v hops) : hops < Fintype.card V := by
  have distinct : Function.Injective (fun i : Fin (hops + 1) => pred^[i.val] v) :=
    fun i j same => Fin.ext (height.injective (by omega) (by omega) same)
  have := Fintype.card_le_of_injective _ distinct
  rwa [Fintype.card_fin] at this

theorem Height.succ (height : Height pred root (pred v) hops) (inner : v ≠ root) :
    Height pred root v (hops + 1) where
  reaches := height.reaches
  first earlier below := by
    cases earlier with
    | zero => exact inner
    | succ earlier => exact height.first earlier (by omega)

theorem Height.of_succ (height : Height pred root v (hops + 1)) : Height pred root (pred v) hops where
  reaches := height.reaches
  first earlier below := height.first (earlier + 1) (by omega)

/-! ## Trails -/

/-- The nodes met on the way up over so many pointers, written from the top down. -/
def trail (pred : V → V) : ℕ → V → List V
  | 0, v => [v]
  | hops + 1, v => trail pred hops (pred v) ++ [v]

theorem trail_concat (pred : V → V) (hops : ℕ) (v : V) :
    ∃ before, trail pred hops v = before ++ [v] := by
  cases hops with
  | zero => exact ⟨[], rfl⟩
  | succ hops => exact ⟨trail pred hops (pred v), rfl⟩

theorem trail_head? (pred : V → V) (hops : ℕ) (v : V) :
    (trail pred hops v).head? = some (pred^[hops] v) := by
  induction hops generalizing v with
  | zero => rfl
  | succ hops ih =>
    obtain ⟨before, split⟩ := trail_concat pred hops (pred v)
    rw [trail, List.head?_append_of_ne_nil _ (by simp [split]), ih, Function.iterate_succ_apply]

theorem trail_getLast? (pred : V → V) (hops : ℕ) (v : V) :
    (trail pred hops v).getLast? = some v := by
  obtain ⟨before, split⟩ := trail_concat pred hops v
  rw [split, List.getLast?_concat]

theorem mem_trail {u : V} : u ∈ trail pred hops v ↔ ∃ i ≤ hops, pred^[i] v = u := by
  induction hops generalizing v with
  | zero => simp [trail, eq_comm]
  | succ hops ih =>
    rw [trail, List.mem_append, ih, List.mem_singleton]
    constructor
    · rintro (⟨i, le, met⟩ | rfl)
      · exact ⟨i + 1, by omega, met⟩
      · exact ⟨0, by omega, rfl⟩
    · rintro ⟨i, le, met⟩
      cases i with
      | zero => exact .inr met.symm
      | succ i => exact .inl ⟨i, by omega, met⟩

theorem Height.trail_nodup (height : Height pred root v hops) : (trail pred hops v).Nodup := by
  induction hops generalizing v with
  | zero => exact List.nodup_singleton v
  | succ hops ih =>
    refine List.nodup_append.mpr ⟨ih height.of_succ, List.nodup_singleton v, fun u above v' last => ?_⟩
    rw [List.mem_singleton.mp last]
    rintro rfl
    obtain ⟨i, le, met⟩ := mem_trail.mp above
    have := height.injective (i := i + 1) (j := 0) (by omega) (by omega) met
    omega

end PathAccelerator.Graph
