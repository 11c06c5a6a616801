import PathAccelerator.Algorithm.Order
import PathAccelerator.Host.Handshake
import PathAccelerator.Host.Prompts
import PathAccelerator.Host.Routes

/-! A whole call of shortestPathFind, from the prompts to the route. -/

set_option autoImplicit false

namespace PathAccelerator.Host

open PathAccelerator.Graph Algorithm Hardware Semantics

variable {N : ℕ}

/-! ## The arrays -/

def Program.globals (p : Program N) (xCoord yCoord : Fin N → BitVec 16) : Globals N where
  neighbor := p.neighbor
  distance := p.distance
  xCoord := xCoord
  yCoord := yCoord

structure Globals.Holds (g : Globals N) (T : Table (Fin N) ℕ) : Prop where
  neighbor : ∀ v, (g.neighbor v).toNat = (T.pred v).val
  distance : ∀ v, (g.distance v).toNat = T.dist v

section Session

variable [NeZero N] {w : RoadMap} {s : Fin N} {ticks : ℕ → Tick N} {initial : System N} {t : ℕ}

theorem session_holds (quarters : 4 ∣ N) (large : 4 ≤ N) (small : N ≤ 512)
    (begins : initial.program.pc = .setStart)
    (finished : (session w s ticks initial t).program.pc = .finished)
    (xCoord yCoord : Fin N → BitVec 16) :
    ((session w s ticks initial t).program.globals xCoord yCoord).Holds (sequential w s (N - 1)) := by
  obtain ⟨T, c, back⟩ := session_readingBack large small begins (t := t) (by rw [finished]; trivial)
  have all := back.collected.all finished
  rw [← swept_eq quarters]
  constructor
  · intro v
    exact back.collected.neighbor v (by unfold Program.neighborCount; split <;> omega)
  · intro v
    exact back.collected.distance v (by omega)

end Session

/-! ## The route -/

section Route

variable {g : Globals N} {T : Table (Fin N) ℕ} {s dest : Fin N}

theorem showPath_of_height (holds : g.Holds T) {hops : ℕ} (height : Height T.pred s dest (hops + 1)) :
    ∃ outputs, showPath g s dest N = some outputs ∧
      printed outputs = (trail T.pred (hops + 1) dest).map Fin.val ∧
      drawn outputs = (legs (trail T.pred (hops + 1) dest)).reverse.map
        fun leg => g.segment leg.2 leg.1 := by
  have bound := height.lt_card
  rw [Fintype.card_fin] at bound
  obtain ⟨path, called, prints, lines⟩ := minPath_eq holds.neighbor height N (by omega)
  refine ⟨.text "Shortest Path is :\n\n" :: (path ++ [.index dest, .text "\n\n"]), ?_, ?_, ?_⟩
  · rw [showPath, called]
    rfl
  · unfold printed at prints ⊢
    simp [prints, trail]
  · unfold drawn at lines ⊢
    simpa using lines

theorem showPath_start (holds : g.Holds T) (fixed : T.pred s = s) :
    ∃ outputs, showPath g s s N = some outputs ∧ printed outputs = [s.val, s.val] ∧
      drawn outputs = [g.segment s s] := by
  have once := minPath_last holds.neighbor (N - 1) fixed
  rw [Nat.sub_add_cancel (Nat.lt_of_le_of_lt (Nat.zero_le _) s.isLt), fixed] at once
  refine ⟨_, by rw [showPath, once]; rfl, rfl, rfl⟩

theorem showPath_direct (holds : g.Holds T) (apart : dest ≠ s) (direct : T.pred dest = s) :
    ∃ outputs, showPath g s dest N = some outputs ∧ printed outputs = [s.val, dest.val] ∧
      drawn outputs = [g.segment dest s] := by
  have height : Height T.pred s dest (0 + 1) := by
    refine ⟨direct, fun earlier below => ?_⟩
    obtain rfl : earlier = 0 := by omega
    exact apart
  obtain ⟨outputs, called, prints, lines⟩ := showPath_of_height holds height
  refine ⟨outputs, called, ?_, ?_⟩
  · rw [prints, trail, trail, direct]
    rfl
  · rw [lines, trail, trail, direct]
    rfl

end Route

/-- What the program shows for a destination: the route is printed and drawn. -/
def ShowsRoute (g : Globals N) (s dest : Fin N) (nodes : List (Fin N)) : Prop :=
  ∃ outputs, showPath g s dest N = some outputs ∧ printed outputs = nodes.map Fin.val ∧
    drawn outputs = (legs nodes).reverse.map fun leg => g.segment leg.2 leg.1

/-- A shortest route without detours. -/
structure Shortest (w : RoadMap) (s dest : Fin N) (nodes : List (Fin N)) : Prop where
  first : nodes.head? = some s
  last : nodes.getLast? = some dest
  nodup : nodes.Nodup
  route : IsRoute (roads w) nodes
  length : (routeLength (roads w) nodes : ℕ∞) = distance (roads w) s dest

section Call

variable [NeZero N] {w : RoadMap} {s dest : Fin N} {g : Globals N}

theorem holds_shortest (formed : w.WellFormed N) (near : Near w s)
    (holds : g.Holds (sequential w s (N - 1))) (apart : dest ≠ s)
    (reached : Reachable (roads w) s dest) :
    ∃ nodes, ShowsRoute g s dest nodes ∧ Shortest w s dest nodes := by
  have complete := sequential_complete formed near
  have tree : PointerTree (sequential w s (N - 1)).pred s := (initial_rooted.rounds (N - 1)).tree
  obtain ⟨hops, height⟩ := tree.height dest
  -- The trail has a leg, as the destination is not the start node.
  obtain ⟨hops, rfl⟩ : ∃ fewer, hops = fewer + 1 := by
    refine Nat.exists_eq_add_one_of_ne_zero fun none => apart ?_
    subst none
    exact height.reaches
  obtain ⟨route, length⟩ := complete.trail (near_lt_sentinel near) reached height
  refine ⟨trail (sequential w s (N - 1)).pred (hops + 1) dest, showPath_of_height holds height, ?_⟩
  refine ⟨?_, trail_getLast? _ _ _, height.trail_nodup, route, ?_⟩
  · rw [trail_head?, height.reaches]
  · rw [length, complete.dist dest reached]

/-- Nothing tells the user that a destination cannot be reached: it is shown as a neighbor
of the start node. -/
theorem holds_isolated (formed : w.WellFormed N) (near : Near w s) (shielded : Shielded w s)
    (holds : g.Holds (sequential w s (N - 1))) (isolated : ¬ Reachable (roads w) s dest) :
    ShowsRoute g s dest [s, dest] ∧ g.distance dest = 10000 := by
  obtain ⟨label, direct⟩ := sequential_isolated formed near shielded isolated
  have apart : dest ≠ s := by
    rintro rfl
    exact isolated .refl
  obtain ⟨outputs, called, prints, lines⟩ := showPath_direct holds apart direct
  refine ⟨⟨outputs, called, prints, lines⟩, ?_⟩
  apply BitVec.eq_of_toNat_eq
  rw [holds.distance, label]
  rfl

end Call

/-- Whatever is typed until both prompts have an index, and however the bus delays the
accesses, the call returns. A destination that can be reached is shown with a shortest route;
one that cannot be is shown as a neighbor of the start node, provided that node 0 can be
reached or its entries for the nodes that cannot be are at most 6383. -/
theorem shortestPathFind_returns [NeZero N] (quarters : 4 ∣ N) (large : 4 ≤ N) (small : N ≤ 512)
    (w : RoadMap) (formed : w.WellFormed N) (store : ℤ → ℤ) (input : List Char)
    (first second : Prompt) (near : ∀ s : Fin N, first.index = s.val → Near w s)
    (asked : PromptEnds store N ⟨-1, input⟩ first)
    (asked' : PromptEnds store N ⟨-1, first.input⟩ second) (ticks : ℕ → Tick N) (initial : System N)
    (begins : initial.program.pc = .setStart) (fair : ∀ t, ∃ t' ≥ t, (ticks t').go = true)
    (xCoord yCoord : Fin N → BitVec 16) :
    ∃ s dest : Fin N, first.index = s.val ∧ second.index = dest.val ∧
      ∃ t, (session w s ticks initial t).program.pc = .finished ∧
        let g := (session w s ticks initial t).program.globals xCoord yCoord
        (dest = s → ∃ outputs, showPath g s dest N = some outputs ∧
          printed outputs = [s.val, s.val] ∧ drawn outputs = [g.segment s s]) ∧
        (dest ≠ s → Reachable (roads w) s dest →
          ∃ nodes, ShowsRoute g s dest nodes ∧ Shortest w s dest nodes) ∧
        (¬ Reachable (roads w) s dest → Shielded w s →
          ShowsRoute g s dest [s, dest] ∧ g.distance dest = 10000) := by
  obtain ⟨s, start⟩ := asked.node
  obtain ⟨dest, stop⟩ := asked'.node
  have finishes : ∃ t, (session w s ticks initial t).program.pc = .finished :=
    session_finishes large small begins fair
  obtain ⟨t, finished⟩ := finishes
  have holds := session_holds quarters large small begins finished xCoord yCoord
  refine ⟨s, dest, start, stop, t, finished, ?_, ?_, ?_⟩
  · rintro rfl
    exact showPath_start holds (initial_rooted.rounds (N - 1)).fixed
  · exact holds_shortest formed (near s start) holds
  · intro isolated shielded
    exact holds_isolated formed (near s start) shielded holds isolated

theorem shortestPathFind_returns_four :
    let initial : System 4 := ⟨default, ⟨0, 0⟩, default, ⟨.setStart, 0, default, default⟩⟩
    ∃ s dest : Fin 4, (1 : ℤ) = s.val ∧ (3 : ℤ) = dest.val ∧ ∃ t,
      (dest ≠ s → Reachable (roads mapInitializationVhdl) s dest → ∃ nodes,
        ShowsRoute ((session mapInitializationVhdl s (fun _ => ⟨true, default⟩) initial t).program.globals
          (fun _ => 0) (fun _ => 0)) s dest nodes ∧ Shortest mapInitializationVhdl s dest nodes) := by
  intro initial
  have first : PromptEnds id 4 ⟨-1, ['1', ' ', '3']⟩ ⟨1, [' ', '3']⟩ :=
    (promptEnds_iff_of_out rfl _).mpr ((promptEnds_iff_of_index rfl _).mpr rfl)
  have second : PromptEnds id 4 ⟨-1, [' ', '3']⟩ ⟨3, []⟩ :=
    (promptEnds_iff_of_out rfl _).mpr ((promptEnds_iff_of_index rfl _).mpr rfl)
  have near (s : Fin 4) (start : (1 : ℤ) = s.val) : Near mapInitializationVhdl s := by
    obtain rfl : s = 1 := Fin.ext (by omega)
    exact mapInitialization_near
  obtain ⟨s, dest, start, stop, t, -, -, shown, -⟩ := shortestPathFind_returns (N := 4) (dvd_refl 4)
    le_rfl (by decide) mapInitializationVhdl (mapInitializationVhdl_wellFormed 4) id _ _ _ near first
    second (fun _ => ⟨true, default⟩) initial rfl (fun t => ⟨t, le_rfl, rfl⟩) (fun _ => 0) (fun _ => 0)
  exact ⟨s, dest, start, stop, t, shown⟩

end PathAccelerator.Host
