import PathAccelerator.Usb.Reports

/-! What main needs to go on.

main waits without limit for some answers. Once each of them comes in the end, commands are
acknowledged, the mouse stays plugged in and its requests succeed, main reads one report
after the other, from whatever point it has come to.
-/

set_option autoImplicit false

namespace PathAccelerator.Usb

open Semantics

/-! ## Answers -/

/-- The answer that ends a wait; main goes on from other points with any value. -/
def Answer (v : BitVec 16) : Point → Prop
  | .initStatus => v ≠ 0
  | .await _ | .retryAwait _ => Flagged v
  | .message _ => v = 0x1000
  | _ => True

def Good (v : BitVec 16) : Point → Prop
  | .initAck | .resetAck => v = commAck
  | .device | .insertion | .port 0 | .removed 0 => Present v
  | .control (.request _) | .retryControl _ => v = 0x03
  | _ => True

theorem next_of_waiting {v : BitVec 16} {p : Point} (waiting : ¬ Answer v p) : p.next v = p := by
  cases p
  case initStatus => exact if_neg waiting
  case await x => exact if_neg waiting
  case message x => exact if_neg waiting
  case retryAwait r => exact if_neg waiting
  all_goals exact absurd trivial waiting

theorem reply_answer (p : Point) : Answer (reply p) p := by
  have flagged : Flagged 0x0010 := by decide
  have raised : (1 : BitVec 16) ≠ 0 := by decide
  cases p
  case initStatus => exact raised
  case await | retryAwait => exact flagged
  case message => rfl
  all_goals trivial

theorem reply_good (p : Point) : Good (reply p) p := by
  have present : Present 0x1000 := by decide
  cases p
  case initAck | resetAck | retryControl => rfl
  case device | insertion => exact present
  case port left => cases left <;> first | exact present | trivial
  case removed left => cases left <;> first | exact present | trivial
  case control x => cases x <;> first | rfl | trivial
  all_goals trivial

/-! ## Rank -/

/-- The reads to go at most until a report is complete, waits apart. -/
def Point.rank : Point → ℕ
  | .secondWord => 0
  | .firstWord => 1
  | .control .report => 2
  | .message .report => 3
  | .await .report => 4
  | .port left => 5 + left
  | .retryControl r => if r = .setAddress then 106 else 10 * (9 - r.index) + 1
  | .control (.request r) => 10 * (9 - r.index) + 1
  | .retryAwait r => if r = .setAddress then 107 else 10 * (9 - r.index) + 2
  | .retryMessage r => if r = .setAddress then 108 else 10 * (9 - r.index) + 3
  | .retryStatus r => if r = .setAddress then 109 else 10 * (9 - r.index) + 4
  | .tdStatus r => 10 * (9 - r.index) + 5
  | .message (.request r) => 10 * (9 - r.index) + 6
  | .await (.request r) => 10 * (9 - r.index) + 7
  | .packetSize => 48
  | .interface => 49
  | .device => 98
  | .resetAck => 99
  | .initAck => 100
  | .initStatus => 101
  | .clearMessage2 => 102
  | .clearMessage1 => 103
  | .clearStatus => 104
  | .clearMailbox => 105
  | .initFault | .resetFault | .insertion => 106
  | .removed left => 106 + left

theorem after_rank (r : Request) : r.after.rank < 10 * (9 - r.index) + 1 := by
  cases r <;> decide

def Completes (v : BitVec 16) (p : Point) : Prop := p = .secondWord ∨ p = .control .report ∧ v ≠ 0x03

theorem next_rank {v : BitVec 16} {p : Point} (answer : Answer v p) (good : Good v p)
    (turning : ¬ Completes v p) : (p.next v).rank < p.rank := by
  unfold Completes at turning
  cases p with
  | message x => cases x <;> simp_all [Answer, Point.next, Point.rank, Transfer.finished]
  | control x =>
    cases x with
    | request r =>
      have done : v = 0x03 := good
      rw [Point.next, if_pos done]
      exact after_rank r
    | report => simp_all [Point.next, Point.rank]
  | retryControl r =>
    by_cases first : r = .setAddress
    · simp [Point.next, Point.rank, first]
    · have done : v = 0x03 := good
      rw [Point.next, if_neg first, if_pos done, Point.rank, if_neg first]
      exact after_rank r
  | await x => cases x <;> simp_all [Answer, Point.next, Point.rank]
  | port left => cases left <;> simp_all [Good, Point.next, Point.rank]
  | removed left => cases left <;> simp_all [Good, Point.next, Point.rank]
  | tdStatus r =>
    simp only [Point.next, Point.rank]
    omega
  | retryStatus r =>
    simp only [Point.next, Point.rank]
    split_ifs <;> omega
  | retryMessage r =>
    simp only [Point.next]
    split_ifs <;> simp only [Point.rank] <;> split_ifs <;> omega
  | retryAwait r =>
    have flagged : Flagged v := answer
    simp only [Point.next, flagged, if_true, Point.rank]
    split_ifs <;> omega
  | _ => simp_all [Answer, Good, Point.next, Point.rank, Request.index]

/-! ## Runs -/

section Run

variable (values : ℕ → BitVec 16) (σ₀ : Main)

/-- From a read on, everything answers well, and every wait has its answer in the end. -/
structure Responds (T : ℕ) : Prop where
  good : ∀ t ≥ T, Good (values t) (run values σ₀ t).point
  answered : ∀ t ≥ T, ∃ u ≥ t, (run values σ₀ u).point = (run values σ₀ t).point →
    Answer (values u) (run values σ₀ t).point

variable {values σ₀} {T : ℕ}

theorem Responds.waits (responds : Responds values σ₀ T) {t : ℕ} (later : t ≥ T) :
    ∃ u ≥ t, (run values σ₀ u).point = (run values σ₀ t).point ∧
      Answer (values u) (run values σ₀ u).point := by
  by_contra never
  push Not at never
  -- Without an answer main would never leave its point, and then the answer must come.
  have stays (k : ℕ) : (run values σ₀ (t + k)).point = (run values σ₀ t).point := by
    induction k with
    | zero => rfl
    | succ k ih =>
      have waiting := never (t + k) (Nat.le_add_right t k) ih
      rw [← Nat.add_assoc, run_point_succ, next_of_waiting waiting, ih]
  obtain ⟨u, after, answer⟩ := responds.answered t later
  obtain ⟨k, rfl⟩ := Nat.exists_eq_add_of_le after
  exact never (t + k) after (stays k) (stays k ▸ answer (stays k))

theorem report_isSome_iff (v : BitVec 16) (σ : Main) : (σ.report v).isSome ↔ Completes v σ.point := by
  unfold Main.report Completes
  split <;> rename_i at_point
  · by_cases done : v = 0x03 <;> simp [at_point, done]
  · simp [at_point]
  · simp_all

theorem Completes.answer {v : BitVec 16} {p : Point} (completes : Completes v p) (v' : BitVec 16) :
    Answer v' p := by
  rcases completes with rfl | ⟨rfl, -⟩ <;> trivial

theorem Responds.progress (responds : Responds values σ₀ T) {t : ℕ} (later : t ≥ T)
    (turning : ¬ Completes (values t) (run values σ₀ t).point) :
    ∃ u > t, (run values σ₀ u).point.rank < (run values σ₀ t).point.rank := by
  obtain ⟨u, after, same, answer⟩ := responds.waits later
  -- A wait has to be over before the rank sinks.
  by_cases at_once : Answer (values t) (run values σ₀ t).point
  · refine ⟨t + 1, Nat.lt_succ_self t, ?_⟩
    rw [run_point_succ]
    exact next_rank at_once (responds.good t later) turning
  · have waiting : ¬ Completes (values u) (run values σ₀ u).point := fun completes =>
      at_once (same ▸ completes.answer (values t))
    refine ⟨u + 1, by omega, ?_⟩
    rw [run_point_succ, ← same]
    exact next_rank answer (responds.good u (by omega)) waiting

/-- However long each answer takes, one report after the other is complete. -/
theorem turns_forever (values : ℕ → BitVec 16) (σ₀ : Main) (T : ℕ) (responds : Responds values σ₀ T)
    (n : ℕ) : ∃ t, n ≤ (reports values σ₀ t).length := by
  have completes (t : ℕ) : ∃ u ≥ t, Completes (values (T + u)) (run values σ₀ (T + u)).point := by
    -- The rank cannot sink forever, so at some point a report is complete.
    refine eventually_of_rank _ (fun u => (run values σ₀ (T + u)).point.rank) (fun u turning => ?_) t
    obtain ⟨w, after, lower⟩ := responds.progress (Nat.le_add_right T u) turning
    obtain ⟨k, rfl⟩ := Nat.exists_eq_add_of_lt after
    exact ⟨u + k + 1, by omega, by simpa only [Nat.add_assoc] using lower⟩
  induction n with
  | zero => exact ⟨0, Nat.zero_le _⟩
  | succ n ih =>
    obtain ⟨t, enough⟩ := ih
    obtain ⟨u, later, complete⟩ := completes t
    have report := (report_isSome_iff (values (T + u)) (run values σ₀ (T + u))).mpr complete
    have kept := (reports_grow values σ₀ (show t ≤ T + u by omega)).length_le
    refine ⟨T + u + 1, ?_⟩
    obtain ⟨p, last⟩ := Option.isSome_iff_exists.mp report
    rw [reports_succ, last, List.length_append, Option.toList_some, List.length_singleton]
    omega

theorem turns_forever_reply :
    ∃ t, 1000 ≤ (reports (fun t => reply (pointAt t)) (.initial 0 0) t).length := by
  refine turns_forever _ _ 0 ⟨fun t _ => ?_, fun t _ => ⟨t, le_rfl, fun _ => ?_⟩⟩ 1000
  · rw [run_reply]
    exact reply_good (pointAt t)
  · rw [run_reply]
    exact reply_answer (pointAt t)

end Run

end PathAccelerator.Usb
