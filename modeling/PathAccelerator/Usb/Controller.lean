import Mathlib.Data.Nat.Count
import PathAccelerator.Usb.Reports

/-! main and the memory of the controller.

Before each read of main the controller may change its memory in any way; what main writes
between two reads is written at once. The address register is changed by main alone.
-/

set_option autoImplicit false

namespace PathAccelerator.Usb

open Semantics

/-! ## The system -/

structure System where
  main : Main
  chip : Chip

/-- What the controller does before a read: it changes its memory, and puts up a mailbox
message and a status. -/
structure Activity where
  change : (BitVec 16 → BitVec 16) → BitVec 16 → BitVec 16
  mailbox : BitVec 16
  status : BitVec 16

def System.value (i : Activity) (s : System) : BitVec 16 :=
  match s.main.point.reads with
  | .data => i.change s.chip.memory s.chip.address
  | .mailbox => i.mailbox
  | .status | .addr => i.status

def System.after (i : Activity) (s : System) : Chip where
  address := if s.main.point.reads = .data then s.chip.address + 2 else s.chip.address
  memory := i.change s.chip.memory

def System.step (i : Activity) (s : System) : System where
  main := s.main.next (s.value i)
  chip := (s.after i).run (s.main.step (s.value i)).1

/-! ## Addresses -/

def Point.address : Point → BitVec 16
  | .clearMessage2 => hpiSie2MsgAdr
  | .device | .insertion | .port _ | .removed _ => usb1CtlReg
  | .tdStatus _ => 0x0506
  | .control _ | .retryControl _ => 0x0508
  | .interface => 0x056c
  | .packetSize => 0x057a
  | .firstWord => 0x051c
  | .secondWord => 0x051e
  | _ => hpiSie1MsgAdr

section Actions

variable (c : Chip)

@[simp] theorem Chip.run_nil : c.run [] = c := rfl

@[simp] theorem Chip.run_usbRead (address : BitVec 16) :
    c.run (usbRead address) = { c with address } := rfl

@[simp] theorem Chip.run_usbWrite (address data : BitVec 16) : c.run (usbWrite address data) =
    ⟨address + 2, Function.update c.memory address data⟩ := rfl

@[simp] theorem Chip.run_usleep (microseconds : ℕ) (actions : List Action) :
    c.run (.usleep microseconds :: actions) = c.run actions := rfl

theorem pass_address (σ : Main) (r : Request) (data : (σ.pass r).2.point.reads = .data) :
    (c.run (σ.pass r).1).address = (σ.pass r).2.point.address := by
  cases r
  case configurationDescriptor2 => rfl
  all_goals cases data

/-- main sets the address before it reads a word, but for the second word of a report. -/
theorem step_address (v : BitVec 16) (σ : Main) (second : σ.point = .firstWord → c.address = 0x051e)
    (data : (σ.next v).point.reads = .data) :
    (c.run (σ.step v).1).address = (σ.next v).point.address := by
  unfold Main.next Main.step at *
  split at data <;> rename_i at_point
  all_goals try split_ifs at data ⊢
  all_goals simp_all [Main.hotPlug, Main.request, Main.poll, Main.turned, Point.reads,
    Point.address, pass_address]
  -- What is left is the first word after a message.
  rename_i x _
  cases x <;> rfl

end Actions

/-! ## The list that is handed over -/

def Main.tds (σ : Main) : Transfer → List Td
  | .request r => r.transfer.tds
  | .report => [reportTd σ.dataSize σ.toggle]

def Main.buffers (σ : Main) : Transfer → List (BitVec 16 × BitVec 16)
  | .request r => r.transfer.buffers
  | .report => [((reportTd σ.dataSize σ.toggle).base, (reportTd σ.dataSize σ.toggle).length)]

theorem buffers_apart (σ : Main) (x : Transfer) :
    Ascending (0x0500 + 2 * (σ.words x).length) (σ.buffers x) := by
  cases x with
  | request r => exact r.buffers_apart.1
  | report => exact ⟨by simp [Main.words, Td.words, reportTd], trivial⟩

theorem request_handed (c : Chip) (r : Request) :
    Handed (c.run (submit r.transfer.words)) r.transfer.tds :=
  (r.transfer.handed (by cases r <;> rfl) (by cases r <;> decide) c).1

theorem submit_handed (c : Chip) (σ : Main) (x : Transfer) :
    Handed (c.run (submit (σ.words x))) (σ.tds x) := by
  cases x with
  | request r => exact request_handed c r
  | report => exact reportTd_handed σ.dataSize σ.toggle c

theorem Handed.first {c : Chip} {td : Td} {rest : List Td} (handed : Handed c (td :: rest)) :
    Td.fetch c.memory 0x0500 = td := by
  obtain ⟨-, chain⟩ := handed
  generalize list : td :: rest = tds at chain
  cases chain with
  | link _ further => exact (List.cons.inj list).1.symm

theorem Handed.toggle {c : Chip} {td : Td} {rest : List Td} (handed : Handed c (td :: rest)) :
    c.memory 0x0506 = td.toggle :=
  congrArg Td.toggle handed.first

theorem Handed.control {c : Chip} {σ : Main} {x : Transfer} (handed : Handed c (σ.tds x)) :
    c.memory 0x0508 = 0x0013 := by
  cases x with
  | request r => exact congrArg Td.control (Handed.first handed)
  | report => exact congrArg Td.control (Handed.first handed)

theorem request_run (c : Chip) (σ : Main) (r : Request) :
    c.run (σ.request r).1 = c.run (submit r.transfer.words) := by
  rw [Main.request, Chip.run_append]
  split_ifs <;> simp

theorem pass_cases (σ : Main) (r : Request) :
    (∃ r', σ.pass r = σ.request r') ∨ σ.pass r = (usbRead 0x056c, σ.goto .interface) ∨
      σ.pass r = (.usleep 10000 :: σ.poll.1, σ.poll.2) := by
  cases r
  case configurationDescriptor2 => exact .inr (.inl rfl)
  case classDescriptor22 => exact .inr (.inr rfl)
  all_goals exact .inl ⟨_, rfl⟩

/-- Where main comes to wait for a transfer, it has written its list and done nothing else to
the controller. -/
def Submits (c : Chip) (s : List Action × Main) : Prop :=
  ∀ x, s.2.point = .await x → c.run s.1 = c.run (submit (s.2.words x))

theorem submits_of_elsewhere {c : Chip} {s : List Action × Main} (elsewhere : ∀ x, s.2.point ≠ .await x) :
    Submits c s :=
  fun x waiting => absurd waiting (elsewhere x)

theorem request_submits (c : Chip) (σ : Main) (r : Request) : Submits c (σ.request r) := by
  rintro _ ⟨⟩
  exact request_run c σ r

theorem poll_submits (c : Chip) (σ : Main) : Submits c σ.poll := by
  rintro _ ⟨⟩
  simp [Main.poll]

theorem pass_submits (c : Chip) (σ : Main) (r : Request) : Submits c (σ.pass r) := by
  rcases pass_cases σ r with ⟨r', same⟩ | same | same <;> rw [same]
  · exact request_submits c σ r'
  · exact submits_of_elsewhere (by simp)
  · intro x waiting
    rw [Chip.run_usleep]
    exact poll_submits c σ x waiting

theorem resend_submits (c : Chip) {σ : Main} {x : Transfer} (waits : σ.point = .await x) :
    Submits c (submit (σ.words x) ++ [.usleep 10000], σ) := by
  intro y waiting
  obtain rfl : x = y := Point.await.inj (waits.symm.trans waiting)
  simp

theorem finished_ne_await (x y : Transfer) : x.finished.2 ≠ .await y := by
  cases x <;> simp [Transfer.finished]

theorem step_submits (c : Chip) (v : BitVec 16) (σ : Main) : Submits c (σ.step v) := by
  unfold Main.step
  split <;> rename_i at_point
  all_goals try split_ifs
  all_goals first
    | exact request_submits c _ _
    | exact poll_submits c σ
    | exact pass_submits c σ _
    | exact resend_submits c at_point
    | apply submits_of_elsewhere
  -- Everywhere else main goes on to another point.
  all_goals simp [at_point, Main.hotPlug, Main.turned, finished_ne_await]

/-! ## The control word -/

def Point.pending : Point → Bool
  | .message _ | .tdStatus _ | .control _ | .retryStatus _ | .retryMessage _ | .retryAwait _
  | .retryControl _ => true
  | .clearMailbox | .clearStatus | .clearMessage1 | .clearMessage2 | .initStatus | .initAck
  | .initFault | .resetAck | .resetFault | .device | .insertion | .await _ | .interface | .packetSize
  | .firstWord | .secondWord | .port _ | .removed _ => false

theorem after_pending (r : Request) : r.after.pending = false := by
  cases r <;> rfl

theorem step_control (c : Chip) (v : BitVec 16) (σ : Main) (pending : (σ.next v).point.pending = true) :
    ((∃ x, σ.point = .await x) ∨ σ.point.pending = true) ∧
      (c.run (σ.step v).1).memory 0x0508 = c.memory 0x0508 := by
  have apart : (0x0508 : BitVec 16) ≠ hpiSie1MsgAdr := by decide
  have other (r : Request) : (σ.pass r).2.point.pending = false := by rw [pass_point, after_pending]
  unfold Main.next Main.step at *
  split at pending <;> rename_i at_point
  all_goals try split_ifs at pending ⊢
  all_goals simp_all [Main.hotPlug, Main.request, Main.poll, Main.turned, Point.pending]

/-! ## Runs -/

section Run

variable (activity : ℕ → Activity) (s₀ : System)

def system (t : ℕ) : System := trajectory System.step activity s₀ t

def valueAt (t : ℕ) : BitVec 16 := (system activity s₀ t).value (activity t)

theorem system_succ (t : ℕ) :
    system activity s₀ (t + 1) = (system activity s₀ t).step (activity t) := rfl

theorem system_main (t : ℕ) :
    (system activity s₀ t).main = run (valueAt activity s₀) s₀.main t := by
  induction t with
  | zero => rfl
  | succ t ih =>
    rw [run_succ, ← ih]
    rfl

variable {activity s₀}

theorem system_address (start : s₀.main.point = .clearMailbox) (t : ℕ)
    (data : (system activity s₀ t).main.point.reads = .data) :
    (system activity s₀ t).chip.address = (system activity s₀ t).main.point.address := by
  induction t with
  | zero =>
    have point : (system activity s₀ 0).main.point = .clearMailbox := start
    rw [point] at data
    cases data
  | succ t ih =>
    -- The second word of a report follows the first one, as the port counts on.
    have second (at_first : (system activity s₀ t).main.point = .firstWord) :
        ((system activity s₀ t).after (activity t)).address = 0x051e := by
      have word : (system activity s₀ t).main.point.reads = .data := by rw [at_first]; rfl
      rw [System.after, if_pos word, ih word, at_first]
      rfl
    exact step_address _ _ _ second data

/-- A controller that gives the answers of `reply`, where they are read. -/
def answers (t : ℕ) : Activity where
  change memory := Function.update memory (pointAt t).address (reply (pointAt t))
  mailbox := reply (pointAt t)
  status := reply (pointAt t)

theorem system_answers (s₀ : System) (start : s₀.main.point = .clearMailbox) (t : ℕ) :
    (system answers s₀ t).main.point = pointAt t ∧ valueAt answers s₀ t = reply (pointAt t) := by
  have value {t : ℕ} (here : (system answers s₀ t).main.point = pointAt t) :
      valueAt answers s₀ t = reply (pointAt t) := by
    unfold valueAt System.value
    split
    next data =>
      rw [system_address start t data, here]
      simp [answers]
    next => rfl
    all_goals rfl
  induction t with
  | zero => exact ⟨start, value start⟩
  | succ t ih =>
    have next : (system answers s₀ (t + 1)).main.point = pointAt (t + 1) := by
      refine (next_point (valueAt answers s₀ t) (system answers s₀ t).main).trans ?_
      rw [ih.1, ih.2, pointAt]
    exact ⟨next, value next⟩

theorem system_submits {t : ℕ} {x : Transfer}
    (waiting : (system activity s₀ (t + 1)).main.point = .await x) :
    (system activity s₀ (t + 1)).chip = ((system activity s₀ t).after (activity t)).run
      (submit ((system activity s₀ (t + 1)).main.words x)) :=
  step_submits _ (valueAt activity s₀ t) (system activity s₀ t).main x waiting

def Altered (activity : ℕ → Activity) (s₀ : System) (t : ℕ) : Prop :=
  (activity t).change (system activity s₀ t).chip.memory 0x0508 ≠
    (system activity s₀ t).chip.memory 0x0508

def AlteredSince (activity : ℕ → Activity) (s₀ : System) (t : ℕ) : Prop :=
  ∃ u < t, Altered activity s₀ u ∧
    ∀ u', u < u' → u' ≤ t → ∀ x, (system activity s₀ u').main.point ≠ .await x

theorem control_or_altered (start : s₀.main.point = .clearMailbox) (t : ℕ)
    (waiting : (∃ x, (system activity s₀ t).main.point = .await x) ∨
      (system activity s₀ t).main.point.pending = true) :
    (system activity s₀ t).chip.memory 0x0508 = 0x0013 ∨ AlteredSince activity s₀ t := by
  induction t with
  | zero =>
    have point : (system activity s₀ 0).main.point = .clearMailbox := start
    rw [point] at waiting
    rcases waiting with ⟨x, at_x⟩ | pending
    · cases at_x
    · cases pending
  | succ t ih =>
    rcases waiting with ⟨x, at_x⟩ | pending
    · left
      rw [system_submits at_x]
      exact (submit_handed _ _ x).control
    · obtain ⟨before, kept⟩ := step_control ((system activity s₀ t).after (activity t))
        (valueAt activity s₀ t) (system activity s₀ t).main pending
      have here (x : Transfer) : (system activity s₀ (t + 1)).main.point ≠ .await x := by
        intro at_x
        rw [at_x] at pending
        cases pending
      -- The word may have been changed before this read, or before an earlier one.
      by_cases altered : Altered activity s₀ t
      · refine .inr ⟨t, Nat.lt_succ_self t, altered, fun u' later upto => ?_⟩
        obtain rfl : u' = t + 1 := by omega
        exact here
      · rcases ih before with written | ⟨u, earlier, altered, after⟩
        · left
          rw [system_succ, System.step]
          exact kept.trans ((not_not.mp altered).trans written)
        · refine .inr ⟨u, by omega, altered, fun u' later upto => ?_⟩
          rcases Nat.lt_succ_iff_lt_or_eq.mp (Nat.lt_succ_of_le upto) with below | rfl
          · exact after u' later (Nat.le_of_lt_succ below)
          · exact here

/-- main takes a transfer to be done only when the controller has changed the control word
since the list was written: a word left from before, or by main itself, does not do. -/
theorem never_stale (activity : ℕ → Activity) (s₀ : System) (start : s₀.main.point = .clearMailbox)
    (t : ℕ) (x : Transfer)
    (reading : (system activity s₀ t).main.point = .control x ∨
      ∃ r, x = .request r ∧ (system activity s₀ t).main.point = .retryControl r)
    (done : valueAt activity s₀ t = 0x03) :
    ∃ u ≤ t, Altered activity s₀ u ∧
      ∀ u', u < u' → u' ≤ t → ∀ x, (system activity s₀ u').main.point ≠ .await x := by
  have word : (system activity s₀ t).main.point.reads = .data ∧
      (system activity s₀ t).main.point.address = 0x0508 ∧
      (system activity s₀ t).main.point.pending = true := by
    rcases reading with at_control | ⟨r, -, at_control⟩ <;> rw [at_control] <;> exact ⟨rfl, rfl, rfl⟩
  obtain ⟨data, address, pending⟩ := word
  have read : valueAt activity s₀ t =
      (activity t).change (system activity s₀ t).chip.memory 0x0508 := by
    rw [valueAt, System.value, data, system_address start t data, address]
  by_cases altered : Altered activity s₀ t
  · exact ⟨t, le_rfl, altered, fun u' later upto => absurd later (Nat.not_lt_of_le upto)⟩
  -- Without a change the word would still be the one that main wrote.
  · rcases control_or_altered start t (.inr pending) with written | ⟨u, earlier, since⟩
    · rw [read, not_not.mp altered, written] at done
      cases done
    · exact ⟨u, earlier.le, since⟩

theorem never_stale_answers :
    let s₀ : System := ⟨.initial 0 0, ⟨0, fun _ => 0⟩⟩
    ∃ u ≤ 11, Altered answers s₀ u ∧
      ∀ u', u < u' → u' ≤ 11 → ∀ x, (system answers s₀ u').main.point ≠ .await x := by
  intro s₀
  obtain ⟨point, value⟩ := system_answers s₀ rfl 11
  exact never_stale answers s₀ rfl 11 (.request .setAddress) (.inl (point.trans (by decide)))
    (value.trans (by decide))

/-- Whenever main waits for a transfer, the controller has been handed the descriptors of this
transfer, and no buffer lies over another one or over what main has written; a request stands
where its first descriptor says. -/
theorem transfers_handed (activity : ℕ → Activity) (s₀ : System) (t : ℕ) (x : Transfer)
    (waiting : (system activity s₀ (t + 1)).main.point = .await x) :
    let s := system activity s₀ (t + 1)
    Handed s.chip (s.main.tds x) ∧
      Ascending (0x0500 + 2 * (s.main.words x).length) (s.main.buffers x) ∧
      ∀ r, x = .request r → Holds s.chip.memory (setupTd r.transfer.device).base r.transfer.request := by
  intro s
  have chip : s.chip = _ := system_submits waiting
  rw [chip]
  refine ⟨submit_handed _ _ x, buffers_apart s.main x, ?_⟩
  rintro r rfl
  have four : r.transfer.request.length = 4 := by cases r <;> rfl
  have few : r.transfer.buffers.length < 64 := by cases r <;> decide
  exact (r.transfer.handed four few _).2

theorem transfers_handed_answers :
    let s := system answers ⟨.initial 0 0, ⟨0, fun _ => 0⟩⟩
    Holds (s (7 + 1)).chip.memory 0x050C [0x0500, 0x0002, 0x0000, 0x0000] ∧
      Handed (s (45 + 1)).chip [reportTd (s (45 + 1)).main.dataSize (s (45 + 1)).main.toggle] := by
  intro s
  have point (t : ℕ) : (s t).main.point = pointAt t :=
    (system_answers ⟨.initial 0 0, ⟨0, fun _ => 0⟩⟩ rfl t).1
  obtain ⟨-, -, request⟩ :=
    transfers_handed answers _ 7 (.request .setAddress) ((point (7 + 1)).trans (by decide))
  obtain ⟨report, -⟩ := transfers_handed answers _ 45 .report ((point (45 + 1)).trans (by decide))
  exact ⟨request .setAddress rfl, report⟩

/-- The toggles of the reports alternate through the whole run, also when a mouse is plugged
in again. -/
theorem toggles_alternate (activity : ℕ → Activity) (s₀ : System) (dataSize : BitVec 8)
    (buttonValue : BitVec 32) (start : s₀.main = Main.initial dataSize buttonValue) (t : ℕ)
    (waiting : (system activity s₀ (t + 1)).main.point = .await .report) :
    (system activity s₀ (t + 1)).chip.memory 0x0506 =
      if (reports (valueAt activity s₀) s₀.main (t + 1)).length % 2 = 0 then 0x0001 else 0x0041 := by
  have counted := run_asked (valueAt activity s₀) s₀.main (t + 1)
  have asking : (Point.await .report).asking = true := rfl
  have none : s₀.main.asked = 0 := by rw [start]; rfl
  rw [← system_main, Main.asked, waiting, if_pos asking, none] at counted
  have toggle : (system activity s₀ (t + 1)).main.toggle =
      BitVec.ofNat 8 (reports (valueAt activity s₀) s₀.main (t + 1)).length + 1 := by
    rw [← counted.trans (BitVec.zero_add _), BitVec.sub_add_cancel]
  -- The toggle has eight bits and wraps around at an even number, so its parity is right.
  have odd : (system activity s₀ (t + 1)).main.toggle % 2 ≠ 0 ↔
      (reports (valueAt activity s₀) s₀.main (t + 1)).length % 2 = 0 := by
    rw [toggle, ne_eq, ← BitVec.toNat_inj, BitVec.toNat_umod, BitVec.toNat_add, BitVec.toNat_ofNat]
    simp
    omega
  have handed := submit_handed ((system activity s₀ t).after (activity t))
    (system activity s₀ (t + 1)).main .report
  rw [system_submits waiting]
  exact (Handed.toggle handed).trans (if_congr odd rfl rfl)

theorem length_reports_answers (s₀ : System) (start : s₀.main.point = .clearMailbox) (t : ℕ) :
    (reports (valueAt answers s₀) s₀.main t).length = Nat.count (pointAt · = .secondWord) t := by
  induction t with
  | zero => rfl
  | succ t ih =>
    obtain ⟨point, value⟩ := system_answers s₀ start t
    have here : (run (valueAt answers s₀) s₀.main t).point = pointAt t := by
      rw [← system_main, point]
    rw [reports_succ, List.length_append, ih, Nat.count_succ, Main.report, here, value]
    congr 1
    -- The control word of a report is 0x03, so that both words are read.
    cases pointAt t with
    | control x => cases x <;> rfl
    | _ => rfl

theorem toggles_alternate_answers :
    let s₀ : System := ⟨.initial 0 0, ⟨0, fun _ => 0⟩⟩
    (system answers s₀ (45 + 1)).chip.memory 0x0506 = 0x0001 ∧
      (system answers s₀ (57 + 1)).chip.memory 0x0506 = 0x0041 := by
  intro s₀
  have point (t : ℕ) := (system_answers s₀ rfl t).1
  have first := toggles_alternate answers s₀ 0 0 rfl 45 ((point (45 + 1)).trans (by decide))
  have second := toggles_alternate answers s₀ 0 0 rfl 57 ((point (57 + 1)).trans (by decide))
  rw [length_reports_answers s₀ rfl] at first second
  exact ⟨first.trans (if_pos (by decide)), second.trans (if_neg (by decide))⟩

end Run

end PathAccelerator.Usb
