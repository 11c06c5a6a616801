import PathAccelerator.Display.Line
import PathAccelerator.Host.ShortestPathFind

/-! The program as it is built, with sixteen nodes and the map of map_initialization_vhdl. -/

set_option autoImplicit false

namespace PathAccelerator.Host

open PathAccelerator.Graph Algorithm Display Hardware Semantics

/-! ## The nodes -/

/-- x_coord and y_coord. -/
def initXY : Fin 16 → BitVec 16 × BitVec 16 :=
  ![(107, 234), (183, 155), (185, 287), (197, 347), (282, 223), (294, 130), (301, 410), (307, 287),
    (380, 307), (429, 379), (507, 288), (380, 200), (428, 228), (413, 151), (445, 91), (566, 132)]

def xCoord (v : Fin 16) : BitVec 16 := (initXY v).1

def yCoord (v : Fin 16) : BitVec 16 := (initXY v).2

def place (v : Fin 16) : Pixel := ⟨(xCoord v).toNat, (yCoord v).toNat⟩

theorem place_onScreen (v : Fin 16) : (place v).OnScreen := by
  have inside : ∀ v, (xCoord v).toNat < 640 ∧ (yCoord v).toNat < 480 := by decide
  obtain ⟨left, top⟩ := inside v
  constructor <;> dsimp only [place] <;> omega

theorem place_clamp (v : Fin 16) : Pixel.clamp (xCoord v).toNat (yCoord v).toNat = place v := by
  obtain ⟨left, right, top, bottom⟩ := place_onScreen v
  unfold place Pixel.clamp at *
  dsimp only at *
  rw [Pixel.mk.injEq]
  omega

theorem line_ends (u v : Fin 16) :
    let line := Display.vgaLine (xCoord u).toNat (yCoord u).toNat (xCoord v).toNat (yCoord v).toNat
    line.head? = some (place u) ∧ line.getLast? = some (place v) := by
  intro line
  have listed := vgaLine_eq_map (xCoord u).toNat (yCoord u).toNat (xCoord v).toNat (yCoord v).toNat
  rw [place_clamp, place_clamp] at listed
  rw [show line = _ from listed]
  constructor
  · rw [List.range_succ_eq_map, List.map_cons, List.head?_cons, linePixel_first]
  · rw [List.range_succ, List.map_append, List.map_singleton, List.getLast?_concat, linePixel_last]

theorem line_point (v : Fin 16) : Display.vgaLine (xCoord v).toNat (yCoord v).toNat
    (xCoord v).toNat (yCoord v).toNat = [place v] := by
  have listed := vgaLine_eq_map (xCoord v).toNat (yCoord v).toNat (xCoord v).toNat (yCoord v).toNat
  rw [place_clamp] at listed
  simpa [linePixel_first] using listed

/-! ## The map -/

/-- The last node before each one on its way from node 0. -/
def builtInParent : Fin 16 → Fin 16 := ![0, 0, 0, 2, 2, 1, 3, 4, 7, 8, 8, 7, 11, 5, 5, 14]

def builtInDepth : Fin 16 → ℕ :=
  ![0, 247, 258, 390, 516, 492, 607, 610, 729, 894, 1041, 790, 835, 833, 679, 910]

theorem builtIn_walk (v : Fin 16) : Walk (roads mapInitializationVhdl) 0 v (builtInDepth v) := by
  refine walk_of_parents builtInParent rfl ?_ v
  decide

theorem builtIn_symmetric (u v : Fin 16) :
    roads mapInitializationVhdl u v = roads mapInitializationVhdl v u := by
  have same : weight mapInitializationVhdl u v = weight mapInitializationVhdl v u :=
    congrArg BitVec.toNat (mapInitializationVhdl_symmetric u v)
  simp only [roads, arcsBelow, same]

theorem builtIn_joined (s v : Fin 16) :
    Walk (roads mapInitializationVhdl) s v (builtInDepth s + builtInDepth v) :=
  ((builtIn_walk s).symm builtIn_symmetric).trans (builtIn_walk v)

theorem builtIn_distance_le (s v : Fin 16) :
    distance (roads mapInitializationVhdl) s v ≤ (2082 : ℕ) := by
  have deep : ∀ v, builtInDepth v ≤ 1041 := by decide
  have both : builtInDepth s + builtInDepth v ≤ 2082 := Nat.add_le_add (deep s) (deep v)
  exact (distance_le (builtIn_joined s v)).trans (Nat.cast_le.mpr both)

theorem builtIn_near (s : Fin 16) : Near mapInitializationVhdl s := fun v _ =>
  (builtIn_distance_le s v).trans (by norm_cast)

/-! ## Calls -/

theorem builtIn_complete (s : Fin 16) :
    Complete (weight mapInitializationVhdl) sentinel s (sequential mapInitializationVhdl s 15) :=
  sequential_complete (mapInitializationVhdl_wellFormed 16) (builtIn_near s)

section Calls

variable {s : Fin 16} {ticks : ℕ → Tick 16} {initial : System 16} {t : ℕ}

theorem builtIn_holds (begins : initial.program.pc = .setStart)
    (finished : (session mapInitializationVhdl s ticks initial t).program.pc = .finished) :
    ((session mapInitializationVhdl s ticks initial t).program.globals xCoord yCoord).Holds
      (sequential mapInitializationVhdl s 15) :=
  session_holds (by decide) (by decide) (by decide) begins finished xCoord yCoord

theorem builtIn_shows (begins : initial.program.pc = .setStart)
    (finished : (session mapInitializationVhdl s ticks initial t).program.pc = .finished)
    {dest : Fin 16} (apart : dest ≠ s) :
    let g := (session mapInitializationVhdl s ticks initial t).program.globals xCoord yCoord
    ∃ nodes, ShowsRoute g s dest nodes ∧ Shortest mapInitializationVhdl s dest nodes :=
  holds_shortest (mapInitializationVhdl_wellFormed 16) (builtIn_near s)
    (builtIn_holds begins finished) apart (builtIn_joined s dest).reachable

theorem builtIn_distance (begins : initial.program.pc = .setStart)
    (finished : (session mapInitializationVhdl s ticks initial t).program.pc = .finished)
    (dest : Fin 16) :
    distance (roads mapInitializationVhdl) s dest =
      ((session mapInitializationVhdl s ticks initial t).program.distance dest).toNat := by
  rw [(builtIn_complete s).dist dest (builtIn_joined s dest).reachable]
  exact congrArg Nat.cast ((builtIn_holds begins finished).distance dest).symm

end Calls

/-- Whatever is typed until both prompts have an index, and whatever an earlier call left
behind, the program shows a shortest route; its lines join the places of its nodes. -/
theorem builtIn_returns (store : ℤ → ℤ) (input : List Char) (first second : Prompt)
    (asked : PromptEnds store 16 ⟨-1, input⟩ first)
    (asked' : PromptEnds store 16 ⟨-1, first.input⟩ second) (ticks : ℕ → Tick 16)
    (initial : System 16) (begins : initial.program.pc = .setStart)
    (fair : ∀ t, ∃ t' ≥ t, (ticks t').go = true) :
    ∃ s dest : Fin 16, first.index = s.val ∧ second.index = dest.val ∧
      ∃ t, (session mapInitializationVhdl s ticks initial t).program.pc = .finished ∧
        let g := (session mapInitializationVhdl s ticks initial t).program.globals xCoord yCoord
        (dest = s → ∃ outputs, showPath g s dest 16 = some outputs ∧
          printed outputs = [s.val, s.val] ∧ pixels outputs = [place s]) ∧
        (dest ≠ s → ∃ nodes, ShowsRoute g s dest nodes ∧
          Shortest mapInitializationVhdl s dest nodes ∧ ∀ leg ∈ legs nodes,
            let line := Display.vgaLine (xCoord leg.2).toNat (yCoord leg.2).toNat
              (xCoord leg.1).toNat (yCoord leg.1).toNat
            line.head? = some (place leg.2) ∧ line.getLast? = some (place leg.1)) := by
  obtain ⟨s, start⟩ := asked.node
  obtain ⟨dest, stop⟩ := asked'.node
  have finishes : ∃ t, (session mapInitializationVhdl s ticks initial t).program.pc = .finished :=
    session_finishes (by decide) (by decide) begins fair
  obtain ⟨t, finished⟩ := finishes
  refine ⟨s, dest, start, stop, t, finished, ?_, fun apart => ?_⟩
  · rintro rfl
    obtain ⟨outputs, called, prints, lines⟩ := showPath_start (builtIn_holds begins finished)
      (initial_rooted.rounds 15).fixed
    refine ⟨outputs, called, prints, ?_⟩
    rw [pixels, lines, List.flatMap_singleton]
    exact line_point dest
  · obtain ⟨nodes, shown, shortest⟩ := builtIn_shows begins finished apart
    exact ⟨nodes, shown, shortest, fun leg _ => line_ends leg.2 leg.1⟩

theorem builtIn_returns_fifteen :
    let initial : System 16 := ⟨default, ⟨0, 0⟩, default, ⟨.setStart, 0, default, default⟩⟩
    ∃ s dest : Fin 16, (0 : ℤ) = s.val ∧ (15 : ℤ) = dest.val ∧ ∃ t, (dest ≠ s → ∃ nodes,
      ShowsRoute ((session mapInitializationVhdl s (fun _ => ⟨true, default⟩) initial t).program.globals
        xCoord yCoord) s dest nodes ∧ Shortest mapInitializationVhdl s dest nodes) := by
  intro initial
  have first : PromptEnds id 16 ⟨-1, ['0', ' ', '1', '5']⟩ ⟨0, [' ', '1', '5']⟩ :=
    (promptEnds_iff_of_out rfl _).mpr ((promptEnds_iff_of_index rfl _).mpr rfl)
  have second : PromptEnds id 16 ⟨-1, [' ', '1', '5']⟩ ⟨15, []⟩ :=
    (promptEnds_iff_of_out rfl _).mpr ((promptEnds_iff_of_index rfl _).mpr rfl)
  obtain ⟨s, dest, start, stop, t, -, -, shown⟩ := builtIn_returns id _ _ _ first second
    (fun _ => ⟨true, default⟩) initial rfl fun t => ⟨t, le_rfl, rfl⟩
  refine ⟨s, dest, start, stop, t, fun apart => ?_⟩
  obtain ⟨nodes, route, shortest, -⟩ := shown apart
  exact ⟨nodes, route, shortest⟩

/-- Two calls in opposite directions, whatever went on before each of them, read back the
same distance and show routes of this length. -/
theorem builtIn_both_ways (s dest : Fin 16) (apart : dest ≠ s) (ticks ticks' : ℕ → Tick 16)
    (initial initial' : System 16) (begins : initial.program.pc = .setStart)
    (begins' : initial'.program.pc = .setStart) (t t' : ℕ)
    (finished : (session mapInitializationVhdl s ticks initial t).program.pc = .finished)
    (finished' : (session mapInitializationVhdl dest ticks' initial' t').program.pc = .finished) :
    let g := (session mapInitializationVhdl s ticks initial t).program.globals xCoord yCoord
    let g' := (session mapInitializationVhdl dest ticks' initial' t').program.globals xCoord yCoord
    ∃ nodes nodes', ShowsRoute g s dest nodes ∧ ShowsRoute g' dest s nodes' ∧
      routeLength (roads mapInitializationVhdl) nodes = (g.distance dest).toNat ∧
      routeLength (roads mapInitializationVhdl) nodes' = (g.distance dest).toNat ∧
      g.distance dest = g'.distance s ∧ (g.distance dest).toNat ≤ 2082 := by
  intro g g'
  obtain ⟨nodes, shown, shortest⟩ := builtIn_shows begins finished apart
  obtain ⟨nodes', shown', shortest'⟩ := builtIn_shows begins' finished' apart.symm
  -- All roads are as long in both directions, and so are the shortest routes.
  have there : distance (roads mapInitializationVhdl) s dest = (g.distance dest).toNat :=
    builtIn_distance begins finished dest
  have back : distance (roads mapInitializationVhdl) dest s = (g'.distance s).toNat :=
    builtIn_distance begins' finished' s
  have same : (g.distance dest).toNat = (g'.distance s).toNat :=
    Nat.cast_inj.mp ((there.symm.trans (distance_symm builtIn_symmetric s dest)).trans back)
  refine ⟨nodes, nodes', shown, shown', ?_, ?_, BitVec.eq_of_toNat_eq same, ?_⟩
  · exact Nat.cast_inj.mp (shortest.length.trans there)
  · rw [same]
    exact Nat.cast_inj.mp (shortest'.length.trans back)
  · exact Nat.cast_le.mp (there ▸ builtIn_distance_le s dest)

theorem builtIn_both_ways_corners :
    let initial : System 16 := ⟨default, ⟨0, 0⟩, default, ⟨.setStart, 0, default, default⟩⟩
    let call (s : Fin 16) := session mapInitializationVhdl s (fun _ => ⟨true, default⟩) initial
    ∃ t t', ((call 0 t).program.globals xCoord yCoord).distance 15 =
      ((call 15 t').program.globals xCoord yCoord).distance 0 := by
  intro initial call
  have finishes (s : Fin 16) : ∃ t, (call s t).program.pc = .finished :=
    session_finishes (by decide) (by decide) rfl fun t => ⟨t, le_rfl, rfl⟩
  obtain ⟨t, finished⟩ := finishes 0
  obtain ⟨t', finished'⟩ := finishes 15
  obtain ⟨_, _, _, _, _, _, same, _⟩ := builtIn_both_ways 0 15 (by decide) (fun _ => ⟨true, default⟩)
    (fun _ => ⟨true, default⟩) initial initial rfl rfl t t' finished finished'
  exact ⟨t, t', same⟩

end PathAccelerator.Host
