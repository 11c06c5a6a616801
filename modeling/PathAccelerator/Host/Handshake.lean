import PathAccelerator.Host.Routes
import PathAccelerator.Host.Session

/-! The handshake between program and accelerator.

For each point of the program it is known what the slave registers hold, in which
run the accelerator is, and which results have been read back.
-/

set_option autoImplicit false

namespace PathAccelerator.Host

open PathAccelerator.Graph Algorithm Hardware Semantics

variable {N : ℕ}

/-! ## Slave registers -/

namespace Pc

/-- The last value written to reset, once known. -/
def reset : Pc → Option ℕ
  | .checkResetLow | .resetHigh => some 0
  | .checkResetHigh | .poll | .clkHigh | .readNeighbor | .readDistance | .nextTransCount | .clkLow
  | .finished => some 1
  | _ => none

def clkNios : Pc → Option ℕ
  | .setStart | .getStart | .checkStart | .setClkNios => none
  | .readNeighbor | .readDistance | .nextTransCount | .clkLow => some 1
  | _ => some 0

def Launched : Pc → Prop
  | .checkResetHigh | .poll | .clkHigh | .readNeighbor | .readDistance | .nextTransCount | .clkLow
  | .finished => True
  | _ => False

def Reading : Pc → Prop
  | .clkHigh | .readNeighbor | .readDistance | .nextTransCount | .clkLow | .finished => True
  | _ => False

instance (pc : Pc) : Decidable pc.Reading := by
  cases pc <;> unfold Reading <;> infer_instance

theorem Reading.launched {pc : Pc} (reading : pc.Reading) : pc.Launched := by
  cases pc <;> trivial

end Pc

def Program.transCount16 (p : Program N) : Option ℕ :=
  match p.pc with
  | .checkTransCount | .resetLow | .checkResetLow | .resetHigh | .checkResetHigh | .poll => some 0
  | .clkHigh | .readNeighbor | .readDistance | .clkLow | .finished => some p.transCount
  | .nextTransCount => some (p.transCount - 1)
  | _ => none

/-- The registers written by the program hold what it wrote last. -/
structure Programmed (s : ℕ) (p : Program N) (c : VgaNiosCtrl) : Prop where
  start : p.pc ≠ .setStart → c.start16 = BitVec.ofNat 16 s
  reset : ∀ value, p.pc.reset = some value → c.reset16 = BitVec.ofNat 16 value
  clkNios : ∀ value, p.pc.clkNios = some value → c.clkNios16 = BitVec.ofNat 16 value
  transCount : ∀ value, p.transCount16 = some value → c.transCount16 = BitVec.ofNat 16 value

theorem whileTransCount_cases (p : Program N) :
    (p.transCount < N ∧ p.whileTransCount = { p with pc := .clkHigh }) ∨
      (N ≤ p.transCount ∧ p.whileTransCount = { p with pc := .finished }) := by
  unfold Program.whileTransCount
  split
  · next more => exact .inl ⟨more, rfl⟩
  · next done => exact .inr ⟨Nat.not_lt.mp done, rfl⟩

theorem programmed_while {s : ℕ} {p : Program N} {c : VgaNiosCtrl}
    (start : c.start16 = BitVec.ofNat 16 s) (reset : c.reset16 = BitVec.ofNat 16 1)
    (clkNios : c.clkNios16 = BitVec.ofNat 16 0)
    (transCount : c.transCount16 = BitVec.ofNat 16 p.transCount) :
    Programmed s p.whileTransCount c := by
  rcases whileTransCount_cases p with ⟨_, same⟩ | ⟨_, same⟩
  all_goals
    rw [same]
    constructor <;> simp [Pc.reset, Pc.clkNios, Program.transCount16, *]

/-- Every access keeps the correspondence, with one case for each point of the program. -/
theorem Programmed.perform {s : ℕ} {p : Program N} {c c' : VgaNiosCtrl} {state : BitVec 3}
    {outputs : Outputs} {access : Access} (programmed : Programmed s p c)
    (next : p.access s = some access) (done : c' = c.perform state outputs access) :
    Programmed s (p.proceed c'.readdata) c' := by
  obtain ⟨start, reset, clkNios, transCount⟩ := programmed
  obtain ⟨pc, count, neighbor, distance⟩ := p
  cases pc
  case finished => cases next
  all_goals
    simp only [Program.access, Option.some.injEq] at next
    subst next
    simp only [Pc.reset, Pc.clkNios, Program.transCount16, ne_eq, reduceCtorEq, not_true_eq_false,
      not_false_eq_true, false_implies, true_implies, Option.some.injEq, forall_eq',
      implies_true] at start reset clkNios transCount
  case poll =>
    -- Entering the loop needs clk_NIOS low and the index of node 0.
    simp only [perform_state] at done
    simp only [Program.proceed]
    split
    · exact programmed_while (by simp [done, start]) (by simp [done, reset])
        (by simp [done, clkNios]) (by simp [done, transCount])
    · constructor <;> simp [Pc.reset, Pc.clkNios, Program.transCount16, *]
  case clkLow =>
    simp only [perform_setClkNios] at done
    exact programmed_while (by simp [done, start]) (by simp [done, reset]) (by simp [done])
      (by simp [done, transCount])
  all_goals
    simp only [perform_setClkNios, perform_setReset, perform_setStart, perform_setTransCount,
      perform_neighbor, perform_distance, perform_clkNios, perform_reset, perform_start,
      perform_transCount] at done
    subst done
    constructor <;> simp [Program.proceed, Pc.reset, Pc.clkNios, Program.transCount16, *]

section Session

variable {w : RoadMap} {s : ℕ} {ticks : ℕ → Tick N} {initial : System N}

variable (w s ticks) in
theorem session_programmed (begins : initial.program.pc = .setStart) (t : ℕ) :
    Programmed s (session w s ticks initial t).program (session w s ticks initial t).slave := by
  induction t with
  | zero => constructor <;> simp [begins, Pc.reset, Pc.clkNios, Program.transCount16]
  | succ t ih =>
    rw [session, trajectory_succ]
    rcases clock_cases w s (ticks t) (session w s ticks initial t) with
      ⟨_, slave, program⟩ | ⟨access, _, next, slave, program, _⟩
    · rw [slave, program]
      exact ih
    · rw [program]
      exact ih.perform next slave

/-! ## Runs of the accelerator -/

/-- At clock `t` the accelerator is in cycle `c` of the run that this call started
with its reset pulse at clock `T`, from node `s`. -/
structure Launch (w : RoadMap) (s : Fin N) (ticks : ℕ → Tick N) (initial : System N) (t T c : ℕ) :
    Prop where
  now : T + 1 + c = t
  pulse : (session w s ticks initial T).program.pc = .resetHigh
  released : Released (coreStream w s ticks initial) T c
  held : StartHeld (coreStream w s ticks initial) T c s

variable {s : Fin N} {t T c : ℕ}

theorem Launch.extend (launch : Launch w s ticks initial t T c) (small : N ≤ 512)
    (begins : initial.program.pc = .setStart)
    (launched : (session w s ticks initial t).program.pc.Launched) :
    Launch w s ticks initial (t + 1) T (c + 1) := by
  obtain ⟨rfl, pulse, released, held⟩ := launch
  have programmed := session_programmed w s ticks begins (T + 1 + c)
  refine ⟨by omega, pulse, released.extend ?_, held.extend ?_⟩
  · have high : (session w s ticks initial (T + 1 + c)).program.pc.reset = some 1 := by
      revert launched
      cases (session w s ticks initial (T + 1 + c)).program.pc <;> simp [Pc.Launched, Pc.reset]
    show (session w s ticks initial (T + 1 + c)).slave.reset16.getLsbD 0 = true
    rw [programmed.reset 1 high]
    rfl
  · have written : (session w s ticks initial (T + 1 + c)).program.pc ≠ .setStart := fun same => by
      rw [same] at launched
      exact launched
    show ((session w s ticks initial (T + 1 + c)).slave.start16.setWidth 9).toNat = s.val
    rw [programmed.start written, BitVec.toNat_setWidth, BitVec.toNat_ofNat]
    omega

theorem proceed_launched {p : Program N} {data : BitVec 16} (fresh : ¬ p.pc.Launched)
    (launched : (p.proceed data).pc.Launched) : p.pc = .resetHigh := by
  obtain ⟨pc, count, neighbor, distance⟩ := p
  cases pc <;> first | rfl | exact launched.elim | exact absurd trivial fresh

theorem session_launched (small : N ≤ 512) (begins : initial.program.pc = .setStart)
    (launched : (session w s ticks initial t).program.pc.Launched) :
    ∃ T c, Launch w s ticks initial t T c := by
  induction t with
  | zero =>
    rw [session, trajectory_zero, begins] at launched
    exact launched.elim
  | succ t ih =>
    by_cases before : (session w s ticks initial t).program.pc.Launched
    · obtain ⟨T, c, launch⟩ := ih before
      exact ⟨T, c + 1, launch.extend small begins before⟩
    · rw [session, trajectory_succ] at launched
      rcases clock_cases w s (ticks t) (session w s ticks initial t) with
        ⟨_, _, program⟩ | ⟨access, _, _, _, program, _⟩
      · rw [program] at launched
        exact absurd launched before
      · rw [program] at launched
        have pulse := proceed_launched before launched
        have programmed := session_programmed w s ticks begins t
        refine ⟨t, 0, rfl, pulse, ⟨?_, fun t' above below => ?_⟩, fun t' above below => ?_⟩
        · show (session w s ticks initial t).slave.reset16.getLsbD 0 = false
          rw [programmed.reset 0 (by rw [pulse]; rfl)]
          rfl
        · omega
        · omega

theorem proceed_reading {p : Program N} {data : BitVec 16} (fresh : ¬ p.pc.Reading)
    (reading : (p.proceed data).pc.Reading) :
    p.pc = .poll ∧ data = 7 ∧ p.proceed data = { p with transCount := 0 }.whileTransCount := by
  obtain ⟨pc, count, neighbor, distance⟩ := p
  cases pc
  case poll =>
    simp only [Program.proceed] at reading
    split at reading
    · next seven => exact ⟨rfl, seven, if_pos seven⟩
    · exact reading.elim
  all_goals first | exact reading.elim | exact absurd trivial fresh

theorem state_of_readdata {state : State}
    (seven : (BitVec.ofNat 3 state.code).setWidth 16 = (7 : BitVec 16)) : state = .done := by
  revert seven
  cases state <;> decide

/-! ## Read-back -/

def Program.neighborCount (p : Program N) : ℕ :=
  if p.pc = .readDistance then p.transCount + 1 else p.transCount

/-- The results read back so far are those of a table, and so are the outputs that
are about to be read. -/
structure Collected (F : Table (Fin N) ℕ) (p : Program N) (outputs : Outputs) : Prop where
  neighbor : ∀ k : Fin N, k.val < p.neighborCount → (p.neighbor k).toNat = (F.pred k).val
  distance : ∀ k : Fin N, k.val < p.transCount → (p.distance k).toNat = F.dist k
  sampled : p.pc = .readNeighbor ∨ p.pc = .readDistance → ∀ k : Fin N, k.val = p.transCount →
    outputs.neighborOut.toNat = (F.pred k).val ∧ outputs.distanceOut.toNat = F.dist k
  more : p.pc = .clkHigh ∨ p.pc = .readNeighbor ∨ p.pc = .readDistance → p.transCount < N
  all : p.pc = .finished → N ≤ p.transCount

theorem collected_while {F : Table (Fin N) ℕ} {p : Program N} {outputs : Outputs}
    (neighbor : ∀ k : Fin N, k.val < p.transCount → (p.neighbor k).toNat = (F.pred k).val)
    (distance : ∀ k : Fin N, k.val < p.transCount → (p.distance k).toNat = F.dist k) :
    Collected F p.whileTransCount outputs := by
  rcases whileTransCount_cases p with ⟨more, same⟩ | ⟨all, same⟩
  all_goals
    rw [same]
    constructor <;> simp_all [Program.neighborCount]

theorem sampleOutputs_shows {F : Table (Fin N) ℕ} {core : Registers N} (shows : Shows core F)
    (dontCare : DontCare N) {index : NodeIndex} (k : Fin N) (addressed : index.toNat = k.val) :
    (sampleOutputs dontCare index core).neighborOut.toNat = (F.pred k).val ∧
      (sampleOutputs dontCare index core).distanceOut.toNat = F.dist k := by
  simp only [sampleOutputs, addressed, readAt_val]
  exact ⟨shows.neighbor k, shows.distance k⟩

theorem Collected.perform {F : Table (Fin N) ℕ} {p : Program N} {c c' : VgaNiosCtrl}
    {state : BitVec 3} {outputs outputs' : Outputs} {core : Registers N} {dontCare : DontCare N}
    {access : Access} {s : ℕ} (small : N ≤ 512) (collected : Collected F p outputs)
    (reading : p.pc.Reading) (shows : Shows core F) (programmed : Programmed s p c)
    (next : p.access s = some access) (slave : c' = c.perform state outputs access)
    (sample : outputs' = if c.clkNios = false ∧ c'.clkNios = true
      then sampleOutputs dontCare c'.transCount core else outputs) :
    Collected F (p.proceed c'.readdata) outputs' := by
  obtain ⟨neighbor, distance, sampled, more, all⟩ := collected
  obtain ⟨pc, count, neighbors, distances⟩ := p
  -- Only the rising edge at the head of the loop moves the outputs.
  have kept (high : pc.clkNios = some 1) : outputs' = outputs := by
    rw [sample, if_neg]
    simp [VgaNiosCtrl.clkNios, programmed.clkNios 1 high]
  cases pc
  case clkHigh =>
    obtain rfl : access = dijstraSetClkNios 1 := (Option.some.inj next).symm
    have bound : count < N := more (.inl rfl)
    have index : c'.transCount.toNat = count := by
      rw [slave, perform_setClkNios, VgaNiosCtrl.transCount, programmed.transCount count rfl,
        BitVec.toNat_setWidth, BitVec.toNat_ofNat]
      omega
    have rising : outputs' = sampleOutputs dontCare c'.transCount core := by
      rw [sample, if_pos]
      rw [slave, perform_setClkNios]
      simp [VgaNiosCtrl.clkNios, programmed.clkNios 0 rfl]
    refine ⟨neighbor, distance, fun _ k same => ?_, fun _ => bound, fun done => by cases done⟩
    rw [rising]
    exact sampleOutputs_shows shows dontCare k (index.trans same.symm)
  case readNeighbor =>
    obtain rfl : access = dijstraNeighbor := (Option.some.inj next).symm
    have same := kept rfl
    rw [perform_neighbor] at slave
    refine ⟨fun k below => ?_, distance, fun _ k addressed => same ▸ sampled (.inl rfl) k addressed,
      fun _ => more (.inr (.inl rfl)), fun done => by cases done⟩
    simp only [Program.proceed, slave, writeAt]
    split
    · next current =>
      rw [BitVec.toNat_setWidth_of_le (by decide)]
      exact (sampled (.inl rfl) k current).1
    · next old =>
      apply neighbor k
      simp only [Program.proceed, Program.neighborCount, if_true, reduceCtorEq, if_false] at below ⊢
      omega
  case readDistance =>
    obtain rfl : access = dijstraDistance := (Option.some.inj next).symm
    rw [perform_distance] at slave
    refine ⟨fun k below => neighbor k ?_, fun k below => ?_, fun at' => ?_, fun at' => ?_,
      fun done => by cases done⟩
    · simpa [Program.proceed, Program.neighborCount] using below
    · simp only [Program.proceed, slave, writeAt]
      split
      · next current =>
        rw [BitVec.toNat_setWidth_of_le (by decide)]
        exact (sampled (.inr rfl) k current).2
      · next old =>
        apply distance k
        simp only [Program.proceed] at below ⊢
        omega
    · rcases at' with same | same <;> cases same
    · rcases at' with same | same | same <;> cases same
  case nextTransCount =>
    refine ⟨neighbor, distance, fun at' => ?_, fun at' => ?_, fun done => by cases done⟩
    · rcases at' with same | same <;> cases same
    · rcases at' with same | same | same <;> cases same
  case clkLow => exact collected_while neighbor distance
  case finished => cases next
  all_goals exact reading.elim

/-- Once 7 has been read the run is done, and what has been read back is final. -/
structure ReadingBack [NeZero N] (w : RoadMap) (s : Fin N) (ticks : ℕ → Tick N)
    (initial : System N) (t T c : ℕ) : Prop where
  launch : Launch w s ticks initial t T c
  done : ∃ d ≤ c, (run w (coreStream w s ticks initial) initial.core (T + 1 + d)).state = .done
  later : (session w s ticks initial t).program.pc ≠ .clkHigh →
    DoneBefore w (coreStream w s ticks initial) initial.core T c
  collected : Collected (swept w s (N - 1)) (session w s ticks initial t).program
    (session w s ticks initial t).outputs

variable [NeZero N]

theorem Launch.shows (launch : Launch w s ticks initial t T c) (large : 4 ≤ N) (small : N ≤ 512)
    (done : DoneBefore w (coreStream w s ticks initial) initial.core T c) :
    Shows (session w s ticks initial t).core (swept w s (N - 1)) := by
  rw [session_core, ← launch.now]
  exact run_shows_final large small launch.released launch.held done

theorem ReadingBack.step (back : ReadingBack w s ticks initial t T c) (large : 4 ≤ N)
    (small : N ≤ 512) (begins : initial.program.pc = .setStart)
    (reading : (session w s ticks initial t).program.pc.Reading) :
    ReadingBack w s ticks initial (t + 1) T (c + 1) := by
  obtain ⟨launch, ⟨d, le, done⟩, _, collected⟩ := back
  have launch' := launch.extend small begins reading.launched
  have finished : DoneBefore w (coreStream w s ticks initial) initial.core T (c + 1) :=
    ⟨d, by omega, done⟩
  have shows := launch'.shows large small finished
  have programmed := session_programmed w s ticks begins t
  refine ⟨launch', ⟨d, by omega, done⟩, fun _ => finished, ?_⟩
  rw [session, trajectory_succ] at shows ⊢
  -- The access is made one rising edge after 7 was read, or later: the last relaxation has landed.
  rcases clock_cases w s (ticks t) (session w s ticks initial t) with
    ⟨outputs, _, program⟩ | ⟨access, _, next, slave, program, outputs⟩
  · rw [outputs, program]
    exact collected
  · rw [program]
    exact collected.perform small reading shows programmed next slave outputs

omit [NeZero N] in
theorem poll_done (small : N ≤ 512) (begins : initial.program.pc = .setStart)
    (polls : (session w s ticks initial t).program.pc = .poll) (go : (ticks t).go = true)
    (seven : (session w s ticks initial (t + 1)).slave.readdata = 7) :
    ∃ T c, Launch w s ticks initial (t + 1) T c ∧
      (run w (coreStream w s ticks initial) initial.core (T + 1 + c)).state = .done := by
  have launched : (session w s ticks initial t).program.pc.Launched := by
    rw [polls]
    trivial
  obtain ⟨T, c, launch⟩ := session_launched small begins launched
  have launch' := launch.extend small begins launched
  have next : (session w s ticks initial t).program.access s = some dijstraState := by
    rw [Program.access, polls]
  refine ⟨T, c + 1, launch', ?_⟩
  rw [launch'.now, ← session_core]
  rw [session, trajectory_succ] at seven ⊢
  simp only [System.clock, go, if_true, next, perform_state] at seven ⊢
  exact state_of_readdata seven

theorem session_readingBack (large : 4 ≤ N) (small : N ≤ 512)
    (begins : initial.program.pc = .setStart)
    (reading : (session w s ticks initial t).program.pc.Reading) :
    ∃ T c, ReadingBack w s ticks initial t T c := by
  induction t with
  | zero =>
    rw [session, trajectory_zero, begins] at reading
    exact reading.elim
  | succ t ih =>
    by_cases before : (session w s ticks initial t).program.pc.Reading
    · obtain ⟨T, c, back⟩ := ih before
      exact ⟨T, c + 1, back.step large small begins before⟩
    · have entered := reading
      rw [session, trajectory_succ] at entered
      rcases clock_cases w s (ticks t) (session w s ticks initial t) with
        ⟨_, _, program⟩ | ⟨access, go, _, _, program, _⟩
      · rw [program] at entered
        exact absurd entered before
      · rw [program] at entered
        obtain ⟨polls, seven, loop⟩ := proceed_reading before entered
        obtain ⟨T, c, launch, done⟩ := poll_done small begins polls go seven
        have first : (session w s ticks initial (t + 1)).program =
            { (session w s ticks initial t).program with transCount := 0 }.whileTransCount :=
          program.trans loop
        refine ⟨T, c, launch, ⟨c, le_rfl, done⟩, fun other => absurd ?_ other, ?_⟩
        · rw [first, Program.whileTransCount, if_pos (show 0 < N by omega)]
        · rw [first]
          exact collected_while (fun _ below => absurd below (Nat.not_lt_zero _))
            fun _ below => absurd below (Nat.not_lt_zero _)

/-! ## Termination -/

/-- Accesses still to be made, one for the whole polling loop. -/
def Program.rank (p : Program N) : ℕ :=
  match p.pc with
  | .setStart => 5 * N + 15
  | .getStart => 5 * N + 14
  | .checkStart => 5 * N + 13
  | .setClkNios => 5 * N + 12
  | .checkClkNios => 5 * N + 11
  | .setTransCount => 5 * N + 10
  | .checkTransCount => 5 * N + 9
  | .resetLow => 5 * N + 8
  | .checkResetLow => 5 * N + 7
  | .resetHigh => 5 * N + 6
  | .checkResetHigh => 5 * N + 5
  | .poll => 5 * N + 4
  | .clkHigh => 5 * (N - p.transCount) + 3
  | .readNeighbor => 5 * (N - p.transCount) + 2
  | .readDistance => 5 * (N - p.transCount) + 1
  | .nextTransCount => 5 * (N - p.transCount) + 5
  | .clkLow => 5 * (N - p.transCount) + 4
  | .finished => 0

omit [NeZero N] in
theorem proceed_rank {p : Program N} (data : BitVec 16) (more : p.pc ≠ .finished)
    (polling : p.pc = .poll → data = 7) (bound : p.pc = .readDistance → p.transCount < N) :
    (p.proceed data).rank < p.rank := by
  obtain ⟨pc, count, neighbor, distance⟩ := p
  cases pc
  case finished => exact absurd rfl more
  case readDistance =>
    have below : count < N := bound rfl
    simp only [Program.proceed, Program.rank]
    omega
  case poll =>
    simp only [Program.proceed, polling rfl, if_true, Program.whileTransCount]
    split <;> simp only [Program.rank] <;> omega
  case clkLow =>
    simp only [Program.proceed, Program.whileTransCount]
    split <;> simp only [Program.rank] <;> omega
  all_goals
    simp only [Program.proceed, Program.rank]
    omega

omit [NeZero N] in
theorem poll_reads_seven (large : 4 ≤ N) (small : N ≤ 512) (begins : initial.program.pc = .setStart)
    (polls : (session w s ticks initial t).program.pc = .poll) (go : (ticks t).go = true)
    (launch : Launch w s ticks initial t T c) (late : Stage.doneCycle N ≤ c + 1) :
    (session w s ticks initial (t + 1)).slave.readdata = 7 := by
  have launch' := launch.extend small begins (by rw [polls]; trivial)
  have state : (session w s ticks initial (t + 1)).core.state = .done := by
    rw [session_core, ← launch'.now, run_state large launch'.released le_rfl]
    exact Stage.atCycle_finished large late
  have next : (session w s ticks initial t).program.access s = some dijstraState := by
    rw [Program.access, polls]
  rw [session, trajectory_succ] at state ⊢
  rw [clock_core] at state
  simp only [System.clock, go, if_true, next, perform_state, Registers.stateOut, state]
  rfl

theorem session_progress (large : 4 ≤ N) (small : N ≤ 512)
    (begins : initial.program.pc = .setStart) (fair : ∀ t, ∃ t' ≥ t, (ticks t').go = true) (t : ℕ)
    (more : (session w s ticks initial t).program.pc ≠ .finished) :
    ∃ t' > t, (session w s ticks initial t').program.rank <
      (session w s ticks initial t).program.rank := by
  by_contra stuck
  simp only [not_exists, not_and, not_lt] at stuck
  have bound (u : ℕ) (reads : (session w s ticks initial u).program.pc = .readDistance) :
      (session w s ticks initial u).program.transCount < N := by
    obtain ⟨T, c, back⟩ := session_readingBack large small begins (t := u) (by rw [reads]; trivial)
    exact back.collected.more (.inr (.inr reads))
  -- A program that makes no progress does not move at all.
  have still (u : ℕ) (later : t ≤ u) :
      (session w s ticks initial u).program = (session w s ticks initial t).program := by
    induction u, later using Nat.le_induction with
    | base => rfl
    | succ u later ih =>
      rcases clock_cases w s (ticks u) (session w s ticks initial u) with
        ⟨_, _, program⟩ | ⟨access, go, _, _, program, _⟩
      · exact program.trans ih
      · by_cases waits : (session w s ticks initial u).program.pc = .poll ∧
            (session w s ticks initial (u + 1)).slave.readdata ≠ 7
        · refine (program.trans ?_).trans ih
          simp only [Program.proceed, waits.1]
          exact if_neg waits.2
        · have lower := proceed_rank (p := (session w s ticks initial u).program)
            (session w s ticks initial (u + 1)).slave.readdata (by rw [ih]; exact more)
            (fun polls => not_not.mp fun other => waits ⟨polls, other⟩) (bound u)
          rw [ih] at lower program
          exact absurd (program ▸ lower) (not_lt_of_ge (stuck (u + 1) (by omega)))
  obtain ⟨u, later, go⟩ := fair (t + Stage.doneCycle N)
  have same := still u (by omega)
  obtain ⟨access, next⟩ := Program.access_of_running s.val (same ▸ more)
  have seven (polls : (session w s ticks initial u).program.pc = .poll) :
      (session w s ticks initial (u + 1)).slave.readdata = 7 := by
    obtain ⟨T, c, launch⟩ := session_launched small begins (t := u) (by rw [polls]; trivial)
    -- The pulse lies before the stretch in which the program does not move.
    have earlier : T < t := by
      by_contra after
      have pulse := launch.pulse
      rw [still T (by omega), ← same, polls] at pulse
      cases pulse
    have now := launch.now
    exact poll_reads_seven large small begins polls go launch (by omega)
  have lower := proceed_rank _ (same ▸ more) seven (bound u)
  have moved : (session w s ticks initial (u + 1)).program =
      (session w s ticks initial u).program.proceed
        (session w s ticks initial (u + 1)).slave.readdata := clock_go go next
  rw [← moved, same] at lower
  exact absurd lower (not_lt_of_ge (stuck (u + 1) (by omega)))

theorem session_finishes (large : 4 ≤ N) (small : N ≤ 512) (begins : initial.program.pc = .setStart)
    (fair : ∀ t, ∃ t' ≥ t, (ticks t').go = true) :
    ∃ t, (session w s ticks initial t).program.pc = .finished := by
  obtain ⟨t, _, finished⟩ := eventually_of_rank
    (fun t => (session w s ticks initial t).program.pc = .finished)
    (fun t => (session w s ticks initial t).program.rank)
    (session_progress large small begins fair) 0
  exact ⟨t, finished⟩

omit [NeZero N] in
theorem finished_stays {t' : ℕ} (finished : (session w s ticks initial t).program.pc = .finished)
    (later : t ≤ t') : (session w s ticks initial t').program.pc = .finished := by
  induction t', later using Nat.le_induction with
  | base => exact finished
  | succ t' _ ih =>
    rw [session, trajectory_succ]
    rcases clock_cases w s (ticks t') (session w s ticks initial t') with
      ⟨_, _, program⟩ | ⟨access, _, next, _⟩
    · rw [program]
      exact ih
    · rw [Program.access, ih] at next
      cases next

end Session

/-- The program reads 7 from the run of this call only, and what it has read back
when the loop ends are the final results of that run. -/
theorem shortestPathFind_handshake [NeZero N] (large : 4 ≤ N) (small : N ≤ 512) (w : RoadMap)
    (s : Fin N) (ticks : ℕ → Tick N) (initial : System N)
    (begins : initial.program.pc = .setStart) :
    (∀ t, (session w s ticks initial t).program.pc = .poll → (ticks t).go = true →
      (session w s ticks initial (t + 1)).slave.readdata = 7 →
      ∃ T c, Launch w s ticks initial (t + 1) T c ∧
        (session w s ticks initial (t + 1)).core.state = .done) ∧
    (∀ t, (session w s ticks initial t).program.pc = .finished →
      ∃ T c, Launch w s ticks initial t T c ∧
        DoneBefore w (coreStream w s ticks initial) initial.core T c ∧
        (∀ k,
          (session w s ticks initial t).program.neighbor k =
            ((session w s ticks initial t).core.neighbor k).setWidth 16 ∧
          (session w s ticks initial t).program.distance k =
            ((session w s ticks initial t).core.distance k).setWidth 16) ∧
        ∀ t' ≥ t,
          (session w s ticks initial t').core.neighbor = (session w s ticks initial t).core.neighbor ∧
          (session w s ticks initial t').core.distance = (session w s ticks initial t).core.distance) ∧
    ((∀ t, ∃ t' ≥ t, (ticks t').go = true) →
      ∃ t, (session w s ticks initial t).program.pc = .finished) := by
  have final {t : ℕ} (finished : (session w s ticks initial t).program.pc = .finished) :
      ∃ T c, ReadingBack w s ticks initial t T c ∧
        DoneBefore w (coreStream w s ticks initial) initial.core T c ∧
        Shows (session w s ticks initial t).core (swept w s (N - 1)) := by
    obtain ⟨T, c, back⟩ := session_readingBack large small begins (t := t)
      (by rw [finished]; trivial)
    have done := back.later (by rw [finished]; decide)
    exact ⟨T, c, back, done, back.launch.shows large small done⟩
  refine ⟨fun t polls go seven => ?_, fun t finished => ?_, session_finishes large small begins⟩
  · obtain ⟨T, c, launch, done⟩ := poll_done small begins polls go seven
    refine ⟨T, c, launch, ?_⟩
    rw [session_core, ← launch.now]
    exact done
  · obtain ⟨T, c, back, done, shows⟩ := final finished
    have all := back.collected.all finished
    refine ⟨T, c, back.launch, done, fun k => ⟨?_, ?_⟩, fun t' later => ?_⟩
    · apply BitVec.eq_of_toNat_eq
      rw [BitVec.toNat_setWidth_of_le (by decide), shows.neighbor]
      exact back.collected.neighbor k (by unfold Program.neighborCount; split <;> omega)
    · apply BitVec.eq_of_toNat_eq
      rw [BitVec.toNat_setWidth_of_le (by decide), shows.distance]
      exact back.collected.distance k (by omega)
    · obtain ⟨_, _, _, _, shows'⟩ := final (finished_stays finished later)
      obtain ⟨distance, neighbor, _⟩ := shows'.unique shows
      exact ⟨neighbor, distance⟩

/-- The accelerator left in mid-run by an earlier call, and accesses on every clock. -/
theorem shortestPathFind_handshake_four :
    ∃ t, (session mapInitializationVhdl 1 (fun _ => ⟨true, default⟩)
      (⟨run mapInitializationVhdl (resetPulse 2) (default : Registers 4) 9, ⟨0, 0⟩, default,
        ⟨.setStart, 0, default, default⟩⟩ : System 4) t).program.pc = .finished :=
  (shortestPathFind_handshake (N := 4) le_rfl (by omega) mapInitializationVhdl 1
    (fun _ => ⟨true, default⟩) _ rfl).2.2 fun t => ⟨t, le_rfl, rfl⟩

end PathAccelerator.Host
