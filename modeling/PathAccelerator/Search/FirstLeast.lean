import Mathlib.Order.Lattice
import Mathlib.Tactic.Order
import Mathlib.Data.Nat.Notation

/-! Searching a range of positions for the first least key below a limit.

Windows of a range can be searched separately: results for adjacent windows
combine by one comparison that prefers the earlier window on a tie.
-/

set_option autoImplicit false

namespace PathAccelerator.Search

variable {K : Type*} [LinearOrder K]

/-- The outcome of a search over positions `lo .. hi - 1`: the least key below
`limit` with its first position, or `limit` and `fallback` when there is none. -/
structure FirstLeast (key : ℕ → K) (limit : K) (fallback lo hi : ℕ) (best : K) (position : ℕ) :
    Prop where
  lower : ∀ i, lo ≤ i → i < hi → best ≤ key i
  outcome : (best = limit ∧ position = fallback) ∨
    (best < limit ∧ lo ≤ position ∧ position < hi ∧ key position = best ∧
      ∀ i, lo ≤ i → i < position → best < key i)

namespace FirstLeast

variable {key : ℕ → K} {limit : K} {fallback lo mid hi : ℕ} {best other : K} {position place : ℕ}

theorem le_limit (found : FirstLeast key limit fallback lo hi best position) : best ≤ limit := by
  rcases found.outcome with ⟨same, _⟩ | ⟨below, _⟩
  · exact le_of_eq same
  · exact le_of_lt below

theorem position_lt (found : FirstLeast key limit fallback lo hi best position)
    (bound : fallback < hi) : position < hi := by
  rcases found.outcome with ⟨_, rfl⟩ | ⟨_, _, inside, _⟩
  · exact bound
  · exact inside

theorem empty : FirstLeast key limit fallback lo lo limit fallback where
  lower _ above below := absurd below (Nat.not_lt.mpr above)
  outcome := .inl ⟨rfl, rfl⟩

theorem keep (found : FirstLeast key limit fallback lo hi best position) (le : best ≤ key hi) :
    FirstLeast key limit fallback lo (hi + 1) best position where
  lower i above below := by
    rcases Nat.lt_succ_iff_lt_or_eq.mp below with earlier | rfl
    · exact found.lower i above earlier
    · exact le
  outcome := by
    rcases found.outcome with missing | ⟨below, above, bound, attained, first⟩
    · exact .inl missing
    · exact .inr ⟨below, above, Nat.lt_succ_of_lt bound, attained, first⟩

theorem replace (found : FirstLeast key limit fallback lo hi best position) (ordered : lo ≤ hi)
    (lt : key hi < best) : FirstLeast key limit fallback lo (hi + 1) (key hi) hi where
  lower i above below := by
    rcases Nat.lt_succ_iff_lt_or_eq.mp below with earlier | rfl
    · exact le_of_lt (lt_of_lt_of_le lt (found.lower i above earlier))
    · exact le_refl _
  outcome := .inr ⟨lt_of_lt_of_le lt found.le_limit, ordered, Nat.lt_succ_self hi, rfl,
    fun i above below => lt_of_lt_of_le lt (found.lower i above below)⟩

theorem pad (found : FirstLeast key limit fallback lo mid best position) (hi : ℕ)
    (le : mid ≤ hi) (bare : ∀ i, mid ≤ i → i < hi → limit ≤ key i) :
    FirstLeast key limit fallback lo hi best position where
  lower i above below := by
    by_cases earlier : i < mid
    · exact found.lower i above earlier
    · exact found.le_limit.trans (bare i (Nat.not_lt.mp earlier) below)
  outcome := by
    rcases found.outcome with missing | ⟨below, above, bound, attained, first⟩
    · exact .inl missing
    · exact .inr ⟨below, above, Nat.lt_of_lt_of_le bound le, attained, first⟩

variable {spare : ℕ}

/-- The earlier window wins a tie. -/
theorem append_left (first : FirstLeast key limit fallback lo mid best position)
    (second : FirstLeast key limit spare mid hi other place) (ordered : mid ≤ hi)
    (le : best ≤ other) : FirstLeast key limit fallback lo hi best position where
  lower i above below := by
    by_cases earlier : i < mid
    · exact first.lower i above earlier
    · exact le.trans (second.lower i (Nat.not_lt.mp earlier) below)
  outcome := by
    rcases first.outcome with missing | ⟨below, above, bound, attained, leftmost⟩
    · exact .inl missing
    · exact .inr ⟨below, above, Nat.lt_of_lt_of_le bound ordered, attained, leftmost⟩

theorem append_right (first : FirstLeast key limit fallback lo mid best position)
    (second : FirstLeast key limit spare mid hi other place) (ordered : lo ≤ mid)
    (lt : other < best) : FirstLeast key limit fallback lo hi other place where
  lower i above below := by
    by_cases earlier : i < mid
    · exact le_of_lt (lt_of_lt_of_le lt (first.lower i above earlier))
    · exact second.lower i (Nat.not_lt.mp earlier) below
  outcome := by
    rcases second.outcome with ⟨missing, _⟩ | ⟨below, above, bound, attained, leftmost⟩
    · exact absurd first.le_limit (not_le_of_gt (missing ▸ lt))
    · refine .inr ⟨below, ordered.trans above, bound, attained, fun i floor upper => ?_⟩
      by_cases earlier : i < mid
      · exact lt_of_lt_of_le lt (first.lower i floor earlier)
      · exact leftmost i (Nat.not_lt.mp earlier) upper

theorem unique (first : FirstLeast key limit fallback lo hi best position)
    (second : FirstLeast key limit fallback lo hi other place) :
    best = other ∧ position = place := by
  rcases first.outcome with ⟨limited, missing⟩ | ⟨below, above, bound, attained, leftmost⟩ <;>
    rcases second.outcome with ⟨limited', missing'⟩ | ⟨below', above', bound', attained', leftmost'⟩
  · exact ⟨limited.trans limited'.symm, missing.trans missing'.symm⟩
  · have := first.lower place above' bound'
    order
  · have := second.lower position above bound
    order
  · have same : best = other := le_antisymm
      (attained' ▸ first.lower place above' bound') (attained ▸ second.lower position above bound)
    refine ⟨same, ?_⟩
    rcases Nat.lt_trichotomy position place with earlier | equal | later
    · have := leftmost' position above earlier
      order
    · exact equal
    · have := leftmost place above' later
      order

theorem congr {key' : ℕ → K} (found : FirstLeast key limit fallback lo hi best position)
    (same : ∀ i, lo ≤ i → i < hi → key' i = key i) :
    FirstLeast key' limit fallback lo hi best position where
  lower i above below := (same i above below).symm ▸ found.lower i above below
  outcome := by
    rcases found.outcome with missing | ⟨below, above, bound, attained, leftmost⟩
    · exact .inl missing
    · refine .inr ⟨below, above, bound, (same position above bound).trans attained, ?_⟩
      intro i floor upper
      rw [same i floor (Nat.lt_trans upper bound)]
      exact leftmost i floor upper

end FirstLeast

/-! ## Sequential scan -/

/-- Scan of positions `0 .. n - 1` with a strict less-than update. -/
def scan (key : ℕ → K) (limit : K) (fallback : ℕ) : ℕ → K × ℕ
  | 0 => (limit, fallback)
  | n + 1 =>
    let before := scan key limit fallback n
    if key n < before.1 then (key n, n) else before

theorem scan_firstLeast (key : ℕ → K) (limit : K) (fallback n : ℕ) :
    FirstLeast key limit fallback 0 n (scan key limit fallback n).1
      (scan key limit fallback n).2 := by
  induction n with
  | zero => exact .empty
  | succ n ih =>
    by_cases smaller : key n < (scan key limit fallback n).1
    · simp only [scan, if_pos smaller]
      exact ih.replace (Nat.zero_le n) smaller
    · simp only [scan, if_neg smaller]
      exact ih.keep (not_lt.mp smaller)

/-! ## Four windows -/

/-- The choice among the outcomes of four adjacent windows by overlapping
less-or-equal tests, in window order. -/
def bestOfFour {α : Type*} (m₁ m₂ m₃ m₄ : K) (a₁ a₂ a₃ a₄ : α) : K × α :=
  if m₁ ≤ m₂ ∧ m₁ ≤ m₃ ∧ m₁ ≤ m₄ then (m₁, a₁)
  else if m₂ ≤ m₁ ∧ m₂ ≤ m₃ ∧ m₂ ≤ m₄ then (m₂, a₂)
  else if m₃ ≤ m₁ ∧ m₃ ≤ m₂ ∧ m₃ ≤ m₄ then (m₃, a₃)
  else (m₄, a₄)

theorem bestOfFour_eq {α : Type*} (m₁ m₂ m₃ m₄ : K) (a₁ a₂ a₃ a₄ : α) :
    bestOfFour m₁ m₂ m₃ m₄ a₁ a₂ a₃ a₄ =
      let left := if m₁ ≤ m₂ then (m₁, a₁) else (m₂, a₂)
      let right := if left.1 ≤ m₃ then left else (m₃, a₃)
      if right.1 ≤ m₄ then right else (m₄, a₄) := by
  unfold bestOfFour
  grind

theorem FirstLeast.append {key : ℕ → K} {limit : K} {fallback spare lo mid hi : ℕ}
    (left right : K × ℕ) (first : FirstLeast key limit fallback lo mid left.1 left.2)
    (second : FirstLeast key limit spare mid hi right.1 right.2) (low : lo ≤ mid) (high : mid ≤ hi) :
    FirstLeast key limit fallback lo hi (if left.1 ≤ right.1 then left else right).1
      (if left.1 ≤ right.1 then left else right).2 := by
  by_cases le : left.1 ≤ right.1
  · simp only [if_pos le]
    exact first.append_left second high le
  · simp only [if_neg le]
    exact first.append_right second low (not_le.mp le)

theorem bestOfFour_firstLeast {key : ℕ → K} {limit : K} {f₁ f₂ f₃ f₄ e₀ e₁ e₂ e₃ e₄ : ℕ}
    {m₁ m₂ m₃ m₄ : K} {a₁ a₂ a₃ a₄ : ℕ}
    (first : FirstLeast key limit f₁ e₀ e₁ m₁ a₁) (second : FirstLeast key limit f₂ e₁ e₂ m₂ a₂)
    (third : FirstLeast key limit f₃ e₂ e₃ m₃ a₃) (fourth : FirstLeast key limit f₄ e₃ e₄ m₄ a₄)
    (h₁ : e₀ ≤ e₁) (h₂ : e₁ ≤ e₂) (h₃ : e₂ ≤ e₃) (h₄ : e₃ ≤ e₄) :
    FirstLeast key limit f₁ e₀ e₄ (bestOfFour m₁ m₂ m₃ m₄ a₁ a₂ a₃ a₄).1
      (bestOfFour m₁ m₂ m₃ m₄ a₁ a₂ a₃ a₄).2 := by
  rw [bestOfFour_eq]
  have two := FirstLeast.append (m₁, a₁) (m₂, a₂) first second h₁ h₂
  have three := FirstLeast.append _ (m₃, a₃) two third (h₁.trans h₂) h₃
  exact FirstLeast.append _ (m₄, a₄) three fourth (h₁.trans (h₂.trans h₃)) h₄

end PathAccelerator.Search
