import Mathlib.Data.List.Induction
import Mathlib.Logic.Function.Basic

/-! Cells that hold what was written to them last. -/

set_option autoImplicit false

namespace PathAccelerator.Semantics

variable {A V : Type*}

section Cells

variable [DecidableEq A]

/-- The cells after a list of writes, the earliest first. -/
def store (cells : A → V) (writes : List (A × V)) : A → V :=
  writes.foldl (fun cells write => Function.update cells write.1 write.2) cells

@[simp] theorem store_nil (cells : A → V) : store cells [] = cells := rfl

theorem store_cons (cells : A → V) (write : A × V) (writes : List (A × V)) :
    store cells (write :: writes) = store (Function.update cells write.1 write.2) writes := rfl

@[simp] theorem store_append (cells : A → V) (first last : List (A × V)) :
    store cells (first ++ last) = store (store cells first) last :=
  List.foldl_append

theorem store_of_untouched {cells : A → V} {writes : List (A × V)} {a : A}
    (untouched : ∀ write ∈ writes, write.1 ≠ a) : store cells writes a = cells a := by
  induction writes generalizing cells with
  | nil => rfl
  | cons write writes ih =>
    rw [List.forall_mem_cons] at untouched
    rw [store_cons, ih untouched.2, Function.update_of_ne untouched.1.symm]

theorem store_const (cells : A → V) (places : List A) (v : V) (a : A) :
    store cells (places.map fun place => (place, v)) a = if a ∈ places then v else cells a := by
  induction places using List.reverseRecOn with
  | nil => rfl
  | append_singleton places place ih =>
    rw [List.map_append, store_append, List.map_singleton, store_cons, store_nil]
    by_cases same : a = place
    · simp [same]
    · rw [Function.update_of_ne same, ih]
      simp [same]

theorem store_map {I : Type*} (cells : A → V) (place : I → A) (value : I → V) {writes : List I}
    (apart : ∀ i ∈ writes, ∀ j ∈ writes, place i = place j → i = j) {i : I} (member : i ∈ writes) :
    store cells (writes.map fun i => (place i, value i)) (place i) = value i := by
  induction writes using List.reverseRecOn with
  | nil => cases member
  | append_singleton writes last ih =>
    rw [List.map_append, store_append, List.map_singleton, store_cons, store_nil]
    by_cases same : place i = place last
    · rw [apart i member last (by simp) same, Function.update_self]
    · have earlier : i ∈ writes := by
        rcases List.mem_append.mp member with earlier | here
        · exact earlier
        · exact absurd (congrArg place (List.mem_singleton.mp here)) same
      rw [Function.update_of_ne same]
      refine ih (fun i first j second => ?_) earlier
      exact apart i (List.mem_append_left _ first) j (List.mem_append_left _ second)

end Cells

/-! ## Writes over time -/

section Timeline

def LastWrite (write : ℕ → Option (A × V)) (a : A) (n k : ℕ) (v : V) : Prop :=
  k < n ∧ write k = some (a, v) ∧ ∀ j, k < j → j < n → ∀ u, write j ≠ some (a, u)

def Untouched (write : ℕ → Option (A × V)) (a : A) (n : ℕ) : Prop :=
  ∀ j < n, ∀ u, write j ≠ some (a, u)

variable {write : ℕ → Option (A × V)} {cells : A → V} {a : A} {n : ℕ}

theorem LastWrite.succ {k : ℕ} {v : V} (last : LastWrite write a n k v)
    (other : ∀ u, write n ≠ some (a, u)) : LastWrite write a (n + 1) k v := by
  obtain ⟨before, here, after⟩ := last
  refine ⟨Nat.lt_succ_of_lt before, here, fun j later before => ?_⟩
  rcases Nat.lt_succ_iff_lt_or_eq.mp before with earlier | rfl
  · exact after j later earlier
  · exact other

theorem Untouched.succ (untouched : Untouched write a n) (other : ∀ u, write n ≠ some (a, u)) :
    Untouched write a (n + 1) := by
  intro j before
  rcases Nat.lt_succ_iff_lt_or_eq.mp before with earlier | rfl
  · exact untouched j earlier
  · exact other

theorem LastWrite.unique {k k' : ℕ} {v v' : V} (last : LastWrite write a n k v)
    (last' : LastWrite write a n k' v') : v = v' := by
  obtain ⟨before, here, after⟩ := last
  obtain ⟨before', here', after'⟩ := last'
  rcases Nat.lt_trichotomy k k' with earlier | rfl | later
  · exact absurd here' (after k' earlier before' v')
  · simpa [here] using here'
  · exact absurd here (after' k later before v)

variable [DecidableEq A]

/-- The cells after the given number of steps, each of which makes at most one write. -/
def storeUntil (write : ℕ → Option (A × V)) (cells : A → V) : ℕ → A → V
  | 0 => cells
  | n + 1 => store (storeUntil write cells n) (write n).toList

theorem storeUntil_cases (write : ℕ → Option (A × V)) (cells : A → V) (a : A) (n : ℕ) :
    (∃ k, LastWrite write a n k (storeUntil write cells n a)) ∨
      Untouched write a n ∧ storeUntil write cells n a = cells a := by
  induction n with
  | zero => exact .inr ⟨fun j before => absurd before (Nat.not_lt_zero j), rfl⟩
  | succ n ih =>
    by_cases here : ∃ v, write n = some (a, v)
    · obtain ⟨v, here⟩ := here
      refine .inl ⟨n, Nat.lt_succ_self n, ?_, fun j later before => absurd before (by omega)⟩
      simp [storeUntil, here, store_cons]
    · have other : ∀ u, write n ≠ some (a, u) := fun u same => here ⟨u, same⟩
      have kept : storeUntil write cells (n + 1) a = storeUntil write cells n a := by
        apply store_of_untouched
        rintro ⟨b, u⟩ member rfl
        exact other u (Option.mem_toList.mp member)
      rw [kept]
      rcases ih with ⟨k, last⟩ | ⟨untouched, first⟩
      · exact .inl ⟨k, last.succ other⟩
      · exact .inr ⟨untouched.succ other, first⟩

theorem storeUntil_eq_iff (v : V) : storeUntil write cells n a = v ↔
    (∃ k, LastWrite write a n k v) ∨ Untouched write a n ∧ cells a = v := by
  rcases storeUntil_cases write cells a n with ⟨k, last⟩ | ⟨untouched, first⟩
  · constructor
    · rintro rfl
      exact .inl ⟨k, last⟩
    · rintro (⟨k', last'⟩ | ⟨untouched, -⟩)
      · exact last.unique last'
      · exact absurd last.2.1 (untouched k last.1 _)
  · constructor
    · intro holds
      exact .inr ⟨untouched, first.symm.trans holds⟩
    · rintro (⟨k', last'⟩ | ⟨-, holds⟩)
      · exact absurd last'.2.1 (untouched k' last'.1 v)
      · exact first.trans holds

end Timeline

end PathAccelerator.Semantics
