import Mathlib.Data.ENat.Lattice
import Mathlib.Data.List.Chain

/-! Walks and distances in a directed network of arcs with natural lengths. -/

set_option autoImplicit false

namespace PathAccelerator.Graph

variable {V : Type*}

/-- The length of the arc between two nodes, or `none` where there is no arc. -/
abbrev Network (V : Type*) := V → V → Option ℕ

inductive Walk (arcs : Network V) (source : V) : V → ℕ → Prop where
  | nil : Walk arcs source source 0
  | snoc {u v : V} {length arc : ℕ} : Walk arcs source u length → arcs u v = some arc →
      Walk arcs source v (length + arc)

def Reachable (arcs : Network V) (source v : V) : Prop := ∃ length, Walk arcs source v length

noncomputable def distance (arcs : Network V) (source v : V) : ℕ∞ :=
  ⨅ (length : ℕ) (_ : Walk arcs source v length), (length : ℕ∞)

variable {arcs : Network V} {source u v : V} {length bound arc : ℕ}

theorem Walk.trans {middle : V} {first second : ℕ} (start : Walk arcs source middle first)
    (rest : Walk arcs middle v second) : Walk arcs source v (first + second) := by
  induction rest with
  | nil => exact start
  | snoc _ selected ih => rw [← Nat.add_assoc]; exact ih.snoc selected

theorem Walk.reachable (walk : Walk arcs source v length) : Reachable arcs source v :=
  ⟨length, walk⟩

theorem Reachable.refl : Reachable arcs source source := ⟨0, .nil⟩

theorem Reachable.step (reached : Reachable arcs source u) (selected : arcs u v = some arc) :
    Reachable arcs source v :=
  let ⟨_, walk⟩ := reached
  (walk.snoc selected).reachable

theorem distance_le (walk : Walk arcs source v length) : distance arcs source v ≤ length :=
  iInf₂_le length walk

theorem le_distance {bound : ℕ∞} (below : ∀ length, Walk arcs source v length → bound ≤ length) :
    bound ≤ distance arcs source v :=
  le_iInf₂ below

theorem distance_eq (walk : Walk arcs source v length)
    (least : ∀ other, Walk arcs source v other → length ≤ other) :
    distance arcs source v = length :=
  le_antisymm (distance_le walk) (le_distance fun other walk => Nat.cast_le.mpr (least other walk))

theorem Reachable.attained (reached : Reachable arcs source v) :
    ∃ length, Walk arcs source v length ∧ distance arcs source v = length := by
  classical
  exact ⟨Nat.find reached, Nat.find_spec reached,
    distance_eq (Nat.find_spec reached) fun _ walk => Nat.find_min' reached walk⟩

theorem distance_source : distance arcs source source = 0 :=
  le_antisymm (distance_le .nil) zero_le

/-- Labels that no arc exceeds are lower bounds. -/
theorem Walk.label_le {label : V → ℕ} (start : label source = 0)
    (feasible : ∀ u v arc, arcs u v = some arc → label v ≤ label u + arc)
    (walk : Walk arcs source v length) : label v ≤ length := by
  induction walk with
  | nil => exact le_of_eq start
  | snoc _ selected ih => exact (feasible _ _ _ selected).trans (Nat.add_le_add_right ih _)

/-- A walk that leaves a set of nodes does so along some arc, not before the
walk to the tail of that arc and not after its own end. -/
theorem Walk.exit (inside : V → Prop) (walk : Walk arcs source v length)
    (start : inside source) (outside : ¬ inside v) :
    ∃ x y before arc, inside x ∧ ¬ inside y ∧ Walk arcs source x before ∧
      arcs x y = some arc ∧ before + arc ≤ length := by
  induction walk with
  | nil => exact absurd start outside
  | @snoc u v length arc walk selected ih =>
    by_cases earlier : inside u
    · exact ⟨u, v, length, arc, earlier, outside, walk, selected, le_refl _⟩
    · obtain ⟨x, y, before, arc', hx, hy, reach, edge, le⟩ := ih earlier
      exact ⟨x, y, before, arc', hx, hy, reach, edge, Nat.le_add_right_of_le le⟩

theorem walk_of_parents {depth : V → ℕ} (parent : V → V) (root : depth source = 0)
    (above : ∀ v, v ≠ source → depth (parent v) < depth v ∧
      arcs (parent v) v = some (depth v - depth (parent v))) (v : V) :
    Walk arcs source v (depth v) := by
  induction size : depth v using Nat.strongRecOn generalizing v with
  | ind size ih =>
    by_cases here : v = source
    · rw [← size, here, root]
      exact .nil
    · obtain ⟨lower, arc⟩ := above v here
      have walk := (ih (depth (parent v)) (by omega) (parent v) rfl).snoc arc
      rwa [Nat.add_sub_cancel' lower.le, size] at walk

/-! ## Undirected networks -/

section Undirected

variable (symmetric : ∀ u v, arcs u v = arcs v u)

include symmetric

theorem Walk.symm (walk : Walk arcs source v length) : Walk arcs v source length := by
  induction walk with
  | nil => exact .nil
  | @snoc u v length arc _ selected ih =>
    rw [symmetric] at selected
    have back : Walk arcs v u (0 + arc) := .snoc .nil selected
    have joined := back.trans ih
    rwa [Nat.zero_add, Nat.add_comm] at joined

theorem distance_symm (u v : V) : distance arcs u v = distance arcs v u :=
  le_antisymm (le_distance fun _ walk => distance_le (walk.symm symmetric))
    (le_distance fun _ walk => distance_le (walk.symm symmetric))

end Undirected

/-! ## Routes -/

def routeLength (arcs : Network V) : List V → ℕ
  | u :: v :: rest => (arcs u v).getD 0 + routeLength arcs (v :: rest)
  | _ => 0

def IsRoute (arcs : Network V) (nodes : List V) : Prop :=
  nodes.IsChain (fun u v => (arcs u v).isSome)

theorem routeLength_concat (nodes : List V) (u v : V) :
    routeLength arcs (nodes ++ [u, v]) = routeLength arcs (nodes ++ [u]) + (arcs u v).getD 0 := by
  induction nodes with
  | nil => simp [routeLength]
  | cons first rest ih =>
    cases rest with
    | nil => simp [routeLength]
    | cons second rest =>
      simp only [List.cons_append, routeLength] at ih ⊢
      rw [ih, Nat.add_assoc]

theorem IsRoute.concat {nodes : List V} {u v : V} (route : IsRoute arcs (nodes ++ [u]))
    (arc : (arcs u v).isSome) : IsRoute arcs (nodes ++ [u, v]) := by
  have joined : IsRoute arcs ((nodes ++ [u]) ++ [v]) := by
    refine List.isChain_append.mpr ⟨route, .singleton _, fun x last y first => ?_⟩
    simp only [List.getLast?_concat, Option.mem_def, Option.some.injEq, List.head?_cons] at last first
    exact last ▸ first ▸ arc
  simpa using joined

def legs : List V → List (V × V)
  | u :: v :: rest => (u, v) :: legs (v :: rest)
  | _ => []

theorem legs_concat (nodes : List V) (u v : V) :
    legs (nodes ++ [u, v]) = legs (nodes ++ [u]) ++ [(u, v)] := by
  induction nodes with
  | nil => rfl
  | cons first rest ih =>
    cases rest with
    | nil => rfl
    | cons second rest =>
      simp only [List.cons_append, legs] at ih ⊢
      rw [ih]

end PathAccelerator.Graph
