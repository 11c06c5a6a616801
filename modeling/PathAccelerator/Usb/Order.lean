import PathAccelerator.Semantics.Clocked
import PathAccelerator.Semantics.Levels
import PathAccelerator.Usb.Enumeration

/-! The order of the enumeration.

A level counts what main has got done since USB_HOT_PLUG. Whatever the controller answers,
a read raises it by at most one, and does so only with the answer that main waits for.
-/

set_option autoImplicit false

namespace PathAccelerator.Usb

open Semantics

/-! ## Levels -/

def Request.index : Request → ℕ
  | .setAddress => 0
  | .deviceDescriptor1 => 1
  | .deviceDescriptor2 => 2
  | .configurationDescriptor1 => 3
  | .configurationDescriptor2 => 4
  | .setConfiguration => 5
  | .classRequestOut => 6
  | .classDescriptor21 => 7
  | .classDescriptor22 => 8

/-- A request takes three levels, and the size of a report one between the first five
requests and the others. -/
def Request.level (r : Request) : ℕ := 1 + 3 * r.index + if 5 ≤ r.index then 1 else 0

def Transfer.level : Transfer → ℕ
  | .request r => r.level
  | .report => 29

def Point.level : Point → ℕ
  | .await x => x.level
  | .message x => x.level + 1
  | .control x => x.level + 2
  | .tdStatus r | .retryStatus r | .retryMessage r | .retryAwait r | .retryControl r => r.level + 2
  | .interface | .packetSize => 16
  | .firstWord | .secondWord | .port _ | .removed _ => 31
  | .clearMailbox | .clearStatus | .clearMessage1 | .clearMessage2 | .initStatus | .initAck
  | .initFault | .resetAck | .resetFault | .device | .insertion => 0

def Milestone (v : BitVec 16) : Point → Prop
  | .device => Present v
  | .await _ => Flagged v
  | .message _ => v = 0x1000
  | .control _ | .retryControl _ => v = 0x03
  | .packetSize => True
  | _ => False

theorem after_level (r : Request) : r.after.level = r.level + 3 := by
  cases r <;> rfl

theorem next_level (v : BitVec 16) (p : Point) :
    (p.next v).level ≤ p.level ∨ (p.next v).level = p.level + 1 ∧ Milestone v p := by
  cases p with
  | device =>
    by_cases present : Present v
    · exact .inr ⟨by rw [Point.next, if_pos present]; rfl, present⟩
    · exact .inl (by rw [Point.next, if_neg present]; rfl)
  | await x =>
    by_cases flagged : Flagged v
    · exact .inr ⟨by rw [Point.next, if_pos flagged]; rfl, flagged⟩
    · exact .inl (by rw [Point.next, if_neg flagged])
  | message x =>
    by_cases done : v = 0x1000
    · refine .inr ⟨?_, done⟩
      rw [Point.next, if_pos done]
      cases x <;> rfl
    · exact .inl (by rw [Point.next, if_neg done])
  | control x =>
    cases x with
    | request r =>
      by_cases done : v = 0x03
      · exact .inr ⟨by rw [Point.next, if_pos done, after_level]; rfl, done⟩
      · exact .inl (by rw [Point.next, if_neg done]; rfl)
    | report =>
      left
      rw [Point.next]
      split_ifs <;> rfl
  | retryControl r =>
    rw [Point.next]
    split_ifs with first done
    · exact .inl (Nat.zero_le _)
    · exact .inr ⟨after_level r, done⟩
    · exact .inl le_rfl
  | packetSize => exact .inr ⟨rfl, trivial⟩
  -- Waiting and retrying stay on their level, and going back falls to level 0.
  | initStatus | initAck | resetAck | insertion | retryMessage | retryAwait =>
    left
    rw [Point.next]
    split_ifs <;> exact le_rfl
  | port left =>
    cases left with
    | zero =>
      left
      rw [Point.next]
      split_ifs <;> decide
    | succ left => exact .inl le_rfl
  | removed left =>
    cases left with
    | zero =>
      left
      rw [Point.next]
      split_ifs <;> decide
    | succ left => exact .inl le_rfl
  | clearMailbox | clearStatus | clearMessage1 | clearMessage2 | initFault | resetFault | tdStatus
  | retryStatus | interface | firstWord | secondWord => exact .inl le_rfl

theorem Request.index_inj {r r' : Request} (same : r.index = r'.index) : r = r' := by
  cases r <;> cases r' <;> first | rfl | cases same

theorem Request.level_inj {r r' : Request} {i j : ℕ} (small : i < 3) (small' : j < 3)
    (same : r.level + i = r'.level + j) : r = r' ∧ i = j := by
  unfold level at same
  have index : r.index = r'.index ∧ i = j := by
    split_ifs at same <;> omega
  exact ⟨index_inj index.1, index.2⟩

theorem Request.level_bounds (r : Request) : 0 < r.level ∧ r.level + 2 < 29 ∧
    ∀ i < 3, r.level + i ≠ 16 := by
  cases r <;> decide

/-- The point of a milestone is known from its level. -/
inductive Reached (v : BitVec 16) : Point → ℕ → Prop where
  | present : Present v → Reached v .device 0
  | flagged (r : Request) : Flagged v → Reached v (.await (.request r)) r.level
  | finished (r : Request) : v = 0x1000 → Reached v (.message (.request r)) (r.level + 1)
  | passed (r : Request) {p : Point} : p = .control (.request r) ∨ p = .retryControl r →
      v = 0x03 → Reached v p (r.level + 2)
  | packetSize : Reached v .packetSize 16

theorem Milestone.reached {v : BitVec 16} {p : Point} (milestone : Milestone v p)
    (below : p.level < 29) : Reached v p p.level := by
  cases p with
  | device => exact .present milestone
  | await x =>
    cases x with
    | request r => exact .flagged r milestone
    | report => exact absurd below (by decide)
  | message x =>
    cases x with
    | request r => exact .finished r milestone
    | report => exact absurd below (by decide)
  | control x =>
    cases x with
    | request r => exact .passed r (.inl rfl) milestone
    | report => exact absurd below (by decide)
  | retryControl r => exact .passed r (.inr rfl) milestone
  | packetSize => exact .packetSize
  | _ => exact milestone.elim

section Reached

variable {v : BitVec 16} {p : Point} {k : ℕ}

theorem Reached.of_zero (reached : Reached v p 0) : p = .device ∧ Present v := by
  generalize zero : 0 = k at reached
  cases reached with
  | present present => exact ⟨rfl, present⟩
  | flagged r | finished r | passed r => have := r.level_bounds; omega
  | packetSize => cases zero

theorem Reached.of_packetSize (reached : Reached v p 16) : p = .packetSize := by
  generalize at_level : 16 = k at reached
  cases reached with
  | present | packetSize => first | rfl | cases at_level
  | flagged r => exact absurd at_level.symm (r.level_bounds.2.2 0 (by decide))
  | finished r => exact absurd at_level.symm (r.level_bounds.2.2 1 (by decide))
  | passed r => exact absurd at_level.symm (r.level_bounds.2.2 2 (by decide))

theorem Reached.of_request {r : Request} {i : ℕ} (small : i < 3) (reached : Reached v p (r.level + i)) :
    i = 0 ∧ p = .await (.request r) ∧ Flagged v ∨ i = 1 ∧ p = .message (.request r) ∧ v = 0x1000 ∨
      i = 2 ∧ (p = .control (.request r) ∨ p = .retryControl r) ∧ v = 0x03 := by
  generalize at_level : r.level + i = k at reached
  cases reached with
  | present => have := r.level_bounds; omega
  | flagged r' flagged =>
    obtain ⟨rfl, rfl⟩ := Request.level_inj (j := 0) small (by decide) at_level
    exact .inl ⟨rfl, rfl, flagged⟩
  | finished r' done =>
    obtain ⟨rfl, rfl⟩ := Request.level_inj small (by decide) at_level
    exact .inr (.inl ⟨rfl, rfl, done⟩)
  | passed r' at_control done =>
    obtain ⟨rfl, rfl⟩ := Request.level_inj small (by decide) at_level
    exact .inr (.inr ⟨rfl, at_control, done⟩)
  | packetSize => exact absurd at_level (r.level_bounds.2.2 i small)

end Reached

/-! ## Runs -/

section Run

variable (values : ℕ → BitVec 16) (σ₀ : Main)

def run (t : ℕ) : Main := trajectory Main.next values σ₀ t

theorem run_succ (t : ℕ) : run values σ₀ (t + 1) = (run values σ₀ t).next (values t) := rfl

theorem run_point_succ (t : ℕ) :
    (run values σ₀ (t + 1)).point = (run values σ₀ t).point.next (values t) :=
  next_point _ _

def levelAt (t : ℕ) : ℕ := (run values σ₀ t).point.level

theorem levelAt_rises (u : ℕ) : levelAt values σ₀ (u + 1) ≤ levelAt values σ₀ u + 1 := by
  unfold levelAt
  rw [run_point_succ]
  rcases next_level (values u) (run values σ₀ u).point with kept | ⟨risen, -⟩ <;> omega

theorem reached_of_rise {u k : ℕ} (here : levelAt values σ₀ u = k)
    (next : levelAt values σ₀ (u + 1) = k + 1) (below : k < 29) :
    Reached (values u) (run values σ₀ u).point k := by
  unfold levelAt at here next
  rw [run_point_succ] at next
  rcases next_level (values u) (run values σ₀ u).point with kept | ⟨-, milestone⟩
  · omega
  · subst here
    exact milestone.reached below

theorem next_dataSize (v : BitVec 16) (σ : Main) : (σ.next v).dataSize =
    if σ.point = .packetSize then (v >>> 8).setWidth 8 else σ.dataSize := by
  have pass (r : Request) : (σ.pass r).2.dataSize = σ.dataSize := by cases r <;> rfl
  unfold Main.next Main.step
  split <;> rename_i at_point
  all_goals try split_ifs
  all_goals simp_all [Main.hotPlug, Main.request, Main.poll, Main.turned]

/-- What a run has been through when it is at `t`: the reads that let main go on, from the
device that was found to the last request. -/
structure Enumeration (t : ℕ) where
  present : ℕ
  flagged : Request → ℕ
  finished : Request → ℕ
  passed : Request → ℕ
  packetSize : ℕ
  at_present : (run values σ₀ present).point = .device ∧ Present (values present)
  at_flagged : ∀ r, (run values σ₀ (flagged r)).point = .await (.request r) ∧
    Flagged (values (flagged r))
  at_finished : ∀ r, (run values σ₀ (finished r)).point = .message (.request r) ∧
    values (finished r) = 0x1000
  at_passed : ∀ r, ((run values σ₀ (passed r)).point = .control (.request r) ∨
    (run values σ₀ (passed r)).point = .retryControl r) ∧ values (passed r) = 0x03
  at_packetSize : (run values σ₀ packetSize).point = .packetSize
  first : present < flagged .setAddress
  steps : ∀ r, flagged r < finished r ∧ finished r < passed r
  ordered : ∀ r r' : Request, r.index < r'.index → passed r < flagged r'
  between : passed .configurationDescriptor2 < packetSize ∧ packetSize < flagged .setConfiguration
  last : ∀ r, passed r < t
  /-- main has not been back at USB_HOT_PLUG since. -/
  uninterrupted : ∀ u, present < u → u ≤ t → 0 < levelAt values σ₀ u
  dataSize : (run values σ₀ t).dataSize = (values packetSize >>> 8).setWidth 8

/-- main reads the mouse only after all nine requests have been carried out, in their order
and without a restart in between, and with the size that was read among them. -/
theorem mouse_enumerated (start : σ₀.point = .clearMailbox) (t : ℕ)
    (reading : 29 ≤ levelAt values σ₀ t) : Nonempty (Enumeration values σ₀ t) := by
  have zero : levelAt values σ₀ 0 = 0 := congrArg Point.level start
  have rises := levelAt_rises values σ₀
  -- The last read at each level, with what it has brought.
  let time (k : ℕ) : ℕ := lastWithin (levelAt values σ₀) k t
  have reached (k : ℕ) (below : k < 29) : Reached (values (time k)) (run values σ₀ (time k)).point k := by
    obtain ⟨here, next⟩ := level_lastWithin zero rises (below.trans_le reading)
    exact reached_of_rise values σ₀ here next below
  have before {j k : ℕ} (lower : j < k) (below : k < 29) : time j < time k :=
    lastWithin_strictMono zero rises lower (below.trans_le reading)
  have high (r : Request) {i : ℕ} (small : i < 3) : r.level + i < 29 := by
    have := r.level_bounds
    omega
  have size := (reached 16 (by decide)).of_packetSize
  -- From there on the level is above that of the packet size, which is not read again.
  have kept (u : ℕ) (later : time 16 < u) (upto : u ≤ t) :
      (run values σ₀ u).dataSize = (values (time 16) >>> 8).setWidth 8 := by
    induction u, later using Nat.le_induction with
    | base => rw [run_succ, next_dataSize, if_pos size]
    | succ u later ih =>
      have above : 16 < levelAt values σ₀ u := lt_level later (by omega)
      have elsewhere : (run values σ₀ u).point ≠ .packetSize := fun at_size =>
        absurd (congrArg Point.level at_size) above.ne'
      rw [run_succ, next_dataSize, if_neg elsewhere, ih (by omega)]
  exact ⟨{
    present := time 0
    flagged := fun r => time (r.level + 0)
    finished := fun r => time (r.level + 1)
    passed := fun r => time (r.level + 2)
    packetSize := time 16
    at_present := (reached 0 (by decide)).of_zero
    at_flagged := fun r => by
      simpa using (reached (r.level + 0) (high r (by decide))).of_request (by decide)
    at_finished := fun r => by
      simpa using (reached (r.level + 1) (high r (by decide))).of_request (by decide)
    at_passed := fun r => by
      simpa using (reached (r.level + 2) (high r (by decide))).of_request (by decide)
    at_packetSize := size
    first := before (by decide) (by decide)
    steps := fun r =>
      ⟨before (by omega) (high r (by decide)), before (by omega) (high r (by decide))⟩
    ordered := fun r r' lower => before (by unfold Request.level; split_ifs <;> omega) (high r' (by decide))
    between := ⟨before (by decide) (by decide), before (by decide) (by decide)⟩
    last := fun r => lastWithin_lt zero ((high r (by decide)).trans_le reading)
    uninterrupted := fun u later upto => lt_level later upto
    dataSize := kept t (lastWithin_lt zero (by omega)) le_rfl }⟩

end Run

/-! ## A run without mishaps -/

/-- What a controller answers that has a mouse and always succeeds. -/
def reply : Point → BitVec 16
  | .initStatus => 1
  | .initAck | .resetAck => commAck
  | .device | .insertion | .port _ | .removed _ | .message _ => 0x1000
  | .await _ | .retryAwait _ => 0x0010
  | .control _ | .retryControl _ => 0x03
  | .packetSize => 0x0400
  | _ => 0

def pointAt : ℕ → Point
  | 0 => .clearMailbox
  | t + 1 => (pointAt t).next (reply (pointAt t))

theorem run_reply (dataSize : BitVec 8) (buttonValue : BitVec 32) (t : ℕ) :
    (run (fun t => reply (pointAt t)) (.initial dataSize buttonValue) t).point = pointAt t := by
  induction t with
  | zero => rfl
  | succ t ih => rw [run_point_succ, ih, pointAt]

theorem mouse_enumerated_reply :
    Nonempty (Enumeration (fun t => reply (pointAt t)) (.initial 0 0) 46) := by
  refine mouse_enumerated _ _ rfl 46 ?_
  rw [levelAt, run_reply]
  decide

end PathAccelerator.Usb
