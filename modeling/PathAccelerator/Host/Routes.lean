import PathAccelerator.Hardware.Distances
import PathAccelerator.Host.MinPath

/-! The route shown to the user, from the predecessors kept by the accelerator. -/

set_option autoImplicit false

namespace PathAccelerator.Host

open PathAccelerator.Graph Algorithm Hardware

variable {N : ℕ}

def readBack (r : Registers N) (xCoord yCoord : Fin N → BitVec 16) : Globals N where
  neighbor v := (r.neighbor v).setWidth 16
  distance v := (r.distance v).setWidth 16
  xCoord := xCoord
  yCoord := yCoord

section ReadBack

variable {r : Registers N} {T : Table (Fin N) ℕ} (xCoord yCoord : Fin N → BitVec 16)

theorem readBack_neighbor (shows : Shows r T) (v : Fin N) :
    ((readBack r xCoord yCoord).neighbor v).toNat = (T.pred v).val := by
  rw [readBack, BitVec.toNat_setWidth, Nat.mod_eq_of_lt (by omega), shows.neighbor]

theorem readBack_distance (shows : Shows r T) (v : Fin N) :
    ((readBack r xCoord yCoord).distance v).toNat = T.dist v := by
  rw [readBack, BitVec.toNat_setWidth, Nat.mod_eq_of_lt (by omega), shows.distance]

end ReadBack

variable [NeZero N]

theorem swept_rooted (w : RoadMap) (s : Fin N) (k : ℕ) : Rooted s (swept w s k) :=
  initial_rooted.rounds k

/-- Between marking a node and relaxing through it the pointers form a tree as well. -/
theorem shown_rooted (large : 4 ≤ N) {stage : Stage} (valid : stage.Valid N)
    (running : stage.Running) (w : RoadMap) (s : Fin N) : Rooted s (stage.shown w s) := by
  obtain ⟨k, _, same | same⟩ := Stage.shown_cases large valid running w s
  · rw [same]
    exact swept_rooted w s k
  · rw [same]
    exact (swept_rooted w s k).mark _

/-- From the first min_cost cycle on the neighbors form a tree rooted at the start
node, so min_path returns for every destination. -/
theorem run_pointers (large : 4 ≤ N) (small : N ≤ 512) (w : RoadMap) (s : Fin N)
    (inputs : ℕ → Inputs N) (initial : Registers N) (T c : ℕ) (released : Released inputs T c)
    (held : StartHeld inputs T c s) :
    let r := run w inputs initial (T + 1 + c)
    ((∃ d ≤ c, (run w inputs initial (T + 1 + d)).state = .minCost) →
      ∃ pred : Fin N → Fin N, (∀ v, (r.neighbor v).toNat = (pred v).val) ∧ pred s = s ∧
        (∀ v, pred v = s ∨ r.shortest (pred v) = true) ∧
        ∀ v, ∃ hops ≤ N - 1, pred^[hops] v = s) ∧
    (DoneBefore w inputs initial T c → ∀ xCoord yCoord, ∀ dest < N,
      ∃ outputs, minPath (readBack r xCoord yCoord) s N dest = some outputs) := by
  intro r
  refine ⟨fun scanning => ?_, fun done xCoord yCoord dest bound => ?_⟩
  · have running := running_of_scanning large released scanning
    have shows : Shows r ((Stage.atCycle N c).shown w s) :=
      run_shows large small w initial released held running
    have rooted := shown_rooted large (run_control large w initial released).valid running w s
    refine ⟨((Stage.atCycle N c).shown w s).pred, shows.neighbor, rooted.fixed, fun v => .inr ?_,
      fun v => ?_⟩
    · rw [shows.shortest]
      exact rooted.settled_pred v
    · obtain ⟨hops, height⟩ := rooted.tree.height v
      have := height.lt_card
      rw [Fintype.card_fin] at this
      exact ⟨hops, by omega, height.reaches⟩
  · have shows : Shows r (swept w s (N - 1)) := run_shows_final large small released held done
    exact minPath_returns (readBack_neighbor xCoord yCoord shows) (swept_rooted w s (N - 1)).tree
      ⟨dest, bound⟩

theorem run_pointers_four :
    ∃ outputs, minPath (readBack (run mapInitializationVhdl (resetPulse 1) (default : Registers 4)
      (0 + 1 + 22)) (fun _ => 0) (fun _ => 0)) 1 4 3 = some outputs :=
  (run_pointers (N := 4) le_rfl (by omega) mapInitializationVhdl 1 (resetPulse 1) default 0 22
    (resetPulse_released 1 22) (resetPulse_startHeld rfl 22)).2
    ((doneBefore_iff le_rfl (resetPulse_released 1 22)).mpr (by decide)) _ _ 3 (by decide)

/-- The nodes printed are a shortest route, and the lines drawn are its legs. -/
theorem showPath_shortest (quarters : 4 ∣ N) (large : 4 ≤ N) (small : N ≤ 512) (w : RoadMap)
    (formed : w.WellFormed N) (s : Fin N) (near : Near w s) (inputs : ℕ → Inputs N)
    (initial : Registers N) (T c : ℕ) (released : Released inputs T c)
    (held : StartHeld inputs T c s) (done : DoneBefore w inputs initial T c)
    (xCoord yCoord : Fin N → BitVec 16) (dest : Fin N) (apart : dest ≠ s)
    (reached : Reachable (roads w) s dest) :
    let g := readBack (run w inputs initial (T + 1 + c)) xCoord yCoord
    ∃ outputs nodes, showPath g s dest N = some outputs ∧
      printed outputs = nodes.map Fin.val ∧
      nodes.head? = some s ∧ nodes.getLast? = some dest ∧ nodes.Nodup ∧
      IsRoute (roads w) nodes ∧ routeLength (roads w) nodes = (g.distance dest).toNat ∧
      ((g.distance dest).toNat : ℕ∞) = distance (roads w) s dest ∧
      drawn outputs = (legs nodes).reverse.map fun leg => g.segment leg.2 leg.1 := by
  intro g
  have shows := run_final quarters large small released held done
  have complete := sequential_complete formed near
  have label : (g.distance dest).toNat = (sequential w s (N - 1)).dist dest :=
    readBack_distance xCoord yCoord shows dest
  have tree : PointerTree (sequential w s (N - 1)).pred s := (initial_rooted.rounds (N - 1)).tree
  obtain ⟨hops, height⟩ := tree.height dest
  have bound := height.lt_card
  rw [Fintype.card_fin] at bound
  obtain ⟨hops, rfl⟩ : ∃ fewer, hops = fewer + 1 := by
    refine Nat.exists_eq_add_one_of_ne_zero fun none => apart ?_
    subst none
    exact height.reaches
  obtain ⟨path, called, prints, lines⟩ :=
    minPath_eq (readBack_neighbor xCoord yCoord shows) height N (by omega)
  obtain ⟨route, length⟩ := complete.trail (near_lt_sentinel near) reached height
  refine ⟨.text "Shortest Path is :\n\n" :: (path ++ [.index dest, .text "\n\n"]),
    trail (sequential w s (N - 1)).pred (hops + 1) dest, ?_, ?_, ?_, trail_getLast? _ _ _,
    height.trail_nodup, route, length.trans label.symm, ?_, ?_⟩
  · rw [showPath, called]
    rfl
  · unfold printed at prints ⊢
    simp [prints, trail]
  · rw [trail_head?, height.reaches]
  · rw [label, complete.dist dest reached]
  · unfold drawn at lines ⊢
    simpa using lines

theorem showPath_shortest_four :
    ∃ outputs nodes, showPath (readBack (run mapInitializationVhdl (resetPulse 1)
        (default : Registers 4) (0 + 1 + 22)) (fun _ => 0) (fun _ => 0)) (1 : Fin 4) (3 : Fin 4) 4 =
        some outputs ∧ printed outputs = nodes.map (Fin.val : Fin 4 → ℕ) ∧
      IsRoute (roads mapInitializationVhdl) nodes := by
  obtain ⟨outputs, nodes, called, prints, _, _, _, route, _⟩ :=
    showPath_shortest (N := 4) (dvd_refl 4) le_rfl (by omega) mapInitializationVhdl
      (mapInitializationVhdl_wellFormed 4) 1 mapInitialization_near (resetPulse 1) default 0 22
      (resetPulse_released 1 22) (resetPulse_startHeld rfl 22)
      ((doneBefore_iff le_rfl (resetPulse_released 1 22)).mpr (by decide))
      (fun _ => 0) (fun _ => 0) 3 (by decide) (mapInitialization_walk 3).reachable
  exact ⟨outputs, nodes, called, prints, route⟩

end PathAccelerator.Host
