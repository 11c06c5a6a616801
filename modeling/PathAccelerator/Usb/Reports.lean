import PathAccelerator.Usb.Order

/-! The reports of the mouse in a run of main.

A turn of the mouse loop ends in one read. The locals that the turns change are left alone
everywhere else, so a mouse that is plugged in again goes on where the last one stopped.
-/

set_option autoImplicit false

namespace PathAccelerator.Usb

open Display Semantics

/-! ## Turns -/

def Main.report (v : BitVec 16) (σ : Main) : Option Poll :=
  match σ.point with
  | .control .report => if v ≠ 0x03 then some ⟨v, σ.dataSize, 0, 0⟩ else none
  | .secondWord => some ⟨0x03, σ.dataSize, σ.buttonValue, v.setWidth 32⟩
  | _ => none

/-- Whether main is between asking for a report and the end of the turn. -/
def Point.asking : Point → Bool
  | .await x | .message x | .control x => x = .report
  | .firstWord | .secondWord => true
  | .clearMailbox | .clearStatus | .clearMessage1 | .clearMessage2 | .initStatus | .initAck
  | .initFault | .resetAck | .resetFault | .device | .insertion | .tdStatus _ | .retryStatus _
  | .retryMessage _ | .retryAwait _ | .retryControl _ | .interface | .packetSize | .port _
  | .removed _ => false

section Step

variable (v : BitVec 16) (σ : Main)

theorem pass_mouse (r : Request) : (σ.pass r).2.mouse = σ.mouse := by
  cases r <;> rfl

theorem next_mouse : (σ.next v).mouse =
    match σ.report v with
    | some p => turn p σ.mouse
    | none => σ.mouse := by
  unfold Main.next Main.step Main.report
  split <;> rename_i at_point
  all_goals try split_ifs
  all_goals simp_all [Main.hotPlug, Main.request, Main.poll, Main.turned, pass_mouse]

def Main.asked (σ : Main) : BitVec 8 := if σ.point.asking then σ.toggle - 1 else σ.toggle

theorem pass_asked (r : Request) : (σ.pass r).2.asked = σ.toggle := by
  cases r
  case classDescriptor22 => exact BitVec.add_sub_cancel σ.toggle 1
  all_goals rfl

/-- The toggle counts the reports. -/
theorem next_asked : (σ.next v).asked = σ.asked + if (σ.report v).isSome then 1 else 0 := by
  unfold Main.next Main.step Main.report
  split <;> rename_i at_point
  all_goals try split_ifs
  all_goals simp_all [Main.asked, Main.hotPlug, Main.request, Main.poll, Main.turned, Point.asking]
  all_goals first
    | exact pass_asked σ _
    | exact (BitVec.sub_add_cancel σ.toggle 1).symm
    | exact BitVec.add_sub_cancel σ.toggle 1
    | (rename_i x _; cases x <;> rfl)

end Step

/-! ## Runs -/

section Run

variable (values : ℕ → BitVec 16) (σ₀ : Main)

def reports (t : ℕ) : List Poll := (List.range t).filterMap fun u => (run values σ₀ u).report (values u)

theorem reports_succ (t : ℕ) : reports values σ₀ (t + 1) =
    reports values σ₀ t ++ ((run values σ₀ t).report (values t)).toList := by
  rw [reports, List.range_succ, List.filterMap_append, List.filterMap_cons]
  cases (run values σ₀ t).report (values t) <;> rfl

theorem reports_grow {t u : ℕ} (later : t ≤ u) : reports values σ₀ t <+: reports values σ₀ u := by
  induction u, later using Nat.le_induction with
  | base => exact List.prefix_rfl
  | succ u _ ih => exact ih.trans (reports_succ values σ₀ u ▸ List.prefix_append _ _)

theorem exists_polls : ∃ polls : ℕ → Poll, ∀ t n, n < (reports values σ₀ t).length →
    (reports values σ₀ t)[n]? = some (polls n) := by
  have each (n : ℕ) : ∃ p : Poll, ∀ t, n < (reports values σ₀ t).length →
      (reports values σ₀ t)[n]? = some p := by
    by_cases arrives : ∃ t, n < (reports values σ₀ t).length
    -- A report that arrives has the same place ever after.
    · obtain ⟨t, below⟩ := arrives
      refine ⟨(reports values σ₀ t)[n], fun u below' => ?_⟩
      rw [List.getElem?_eq_getElem below']
      rcases Nat.le_total t u with later | earlier
      · exact congrArg some ((List.IsPrefix.getElem (reports_grow values σ₀ later) below).symm)
      · exact congrArg some (List.IsPrefix.getElem (reports_grow values σ₀ earlier) below')
    · exact ⟨⟨0, 0, 0, 0⟩, fun t below => absurd ⟨t, below⟩ arrives⟩
  choose polls at_place using each
  exact ⟨polls, fun t n => at_place n t⟩

theorem run_asked (t : ℕ) :
    (run values σ₀ t).asked = σ₀.asked + BitVec.ofNat 8 (reports values σ₀ t).length := by
  induction t with
  | zero => simp [reports, run]
  | succ t ih =>
    rw [run_succ, next_asked, reports_succ, List.length_append, ih]
    cases (run values σ₀ t).report (values t) with
    | none => simp
    | some p => simp [BitVec.ofNat_add, BitVec.add_assoc]

end Run

end PathAccelerator.Usb
