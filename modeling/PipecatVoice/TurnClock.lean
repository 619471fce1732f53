import PipecatVoice.Lib.Ticks
import PipecatVoice.SessionSteps

/-!
# The turn clock

`turn_deadline_` is pushed forward from four places: a wake word and user speech
in the capture task, Completed and a loud inbound packet in the main loop. The
capture task ends the turn when the tick of a frame is beyond the deadline, by a
plain comparison of two wrapping counters.

* `DeadlineStore` — what the deadline was last computed from;
* `endsOnTime_iff` — the turn ends when its window is over in exactly the runs
  where no test compares across a wrap.
-/

namespace PipecatVoice

open Runs

/-- What a store to `turn_deadline_` is computed from. -/
structure DeadlineStore where
  /-- the tick it counts from -/
  tick : UInt32
  /-- the window, in milliseconds -/
  windowMs : ℕ

/-- The deadline that is stored. -/
def DeadlineStore.deadline (cfg : Config) (d : DeadlineStore) : UInt32 :=
  d.tick + cfg.msToTicks d.windowMs

/-- The main loop's stores to `turn_deadline_`. -/
def MainTask.deadlineStore (m : MainTask) : Option DeadlineStore :=
  match m.pc with
  | .cbDeadline => some ⟨m.stamp, awaitResponseMs⟩
  | .rxDeadline => some ⟨m.stamp, postResponseSilenceMs⟩
  | _ => none

/-- The capture task's stores to `turn_deadline_`. -/
def CaptureTask.deadlineStore (c : CaptureTask) : Option DeadlineStore :=
  match c.pc with
  | .extend | .arm => some ⟨c.now, awaitResponseMs⟩
  | _ => none

/-- The latest store to `turn_deadline_`. -/
def recordDeadline (last : DeadlineStore) (s : State) : Action → DeadlineStore
  | .main _ => s.main.deadlineStore.getD last
  | .capture _ => s.cap.deadlineStore.getD last
  | _ => last

/-- The test of the deadline in this step ends the turn if and only if the
signed difference of the frame's tick and the deadline of the latest store is
positive; and not as long as the store's window lasts. -/
def endsOnTime (cfg : Config) (x : State × DeadlineStore) : Action → Bool
  | .capture mic =>
    let ends := decide ((step cfg x.1 (.capture mic)).cap.pc = .endTurn)
    x.1.cap.pc ≠ .testDeadline ||
      (ends == Ticks.isAfter x.1.cap.now (x.2.deadline cfg) &&
        !(ends && decide (x.1.cap.now - x.2.tick ≤ cfg.msToTicks x.2.windowMs)))
  | _ => true

/-- The test of the deadline in this step compares two values less than half a
turn of the counter apart. -/
def sameTurn (s : State) : Action → Bool
  | .capture _ =>
    s.cap.pc ≠ .testDeadline ||
      (decide (s.cap.now.toNat < s.sh.turnDeadline.toNat + 2 ^ 31) &&
        decide (s.sh.turnDeadline.toNat ≤ s.cap.now.toNat + 2 ^ 31))
  | _ => true

theorem mainStep_turnDeadline (cfg : Config) (us : ℕ) (net : Net) (sh : Shared) (m : MainTask) :
    (mainStep cfg us net sh m).1.turnDeadline =
      m.deadlineStore.elim sh.turnDeadline (DeadlineStore.deadline cfg) := by
  obtain ⟨pc, _⟩ := m
  cases pc <;> first | rfl | skip
  all_goals
    simp only [mainStep, MainTask.deadlineStore]
    (repeat' split) <;> rfl

theorem captureStep_turnDeadline (cfg : Config) (us : ℕ) (mic : Mic) (sh : Shared)
    (c : CaptureTask) :
    (captureStep cfg us mic sh c).1.turnDeadline =
      c.deadlineStore.elim sh.turnDeadline (DeadlineStore.deadline cfg) := by
  obtain ⟨pc, _⟩ := c
  cases pc <;> simp only [captureStep, CaptureTask.deadlineStore]
  all_goals
    (repeat' split) <;> rfl

theorem captureStep_testDeadline (cfg : Config) (us : ℕ) (mic : Mic) (sh : Shared)
    {c : CaptureTask} (h : c.pc = .testDeadline) :
    (captureStep cfg us mic sh c).2.pc = .endTurn ↔ sh.turnDeadline < c.now := by
  simp [captureStep, h]

theorem windowMs_of_main {m : MainTask} {d : DeadlineStore} (h : m.deadlineStore = some d) :
    d.windowMs ≤ awaitResponseMs := by
  obtain ⟨pc, _⟩ := m
  cases pc <;> cases h
  · exact Nat.le_refl _
  · exact (by decide : postResponseSilenceMs ≤ awaitResponseMs)

theorem windowMs_of_capture {c : CaptureTask} {d : DeadlineStore}
    (h : c.deadlineStore = some d) : d.windowMs ≤ awaitResponseMs := by
  obtain ⟨pc, _⟩ := c
  cases pc <;> cases h <;> exact Nat.le_refl _

/-- A window is less than half a turn of the counter. -/
theorem Config.msToTicks_le (cfg : Config) {ms : ℕ} (h : ms ≤ awaitResponseMs) :
    (cfg.msToTicks ms).toNat ≤ 2 ^ 31 := by
  have hmul : ms * cfg.tickHz ≤ awaitResponseMs * 1000 := Nat.mul_le_mul h cfg.tickHz_le
  have hticks : ms * cfg.tickHz / 1000 ≤ 20000 := by
    rw [Nat.div_le_iff_le_mul_add_pred (by decide)]
    exact Nat.le_trans hmul (by decide)
  calc (cfg.msToTicks ms).toNat
      = ms * cfg.tickHz / 1000 % 2 ^ 32 := UInt32.toNat_ofNat'
    _ ≤ ms * cfg.tickHz / 1000 := Nat.mod_le _ _
    _ ≤ 20000 := hticks
    _ ≤ 2 ^ 31 := by decide

/-- The deadline is the one of the latest store. -/
structure ClockInv (cfg : Config) (x : State × DeadlineStore) : Prop where
  /-- the deadline as it was computed -/
  deadline : x.1.sh.turnDeadline = x.2.deadline cfg
  /-- no window is longer than the first -/
  window : x.2.windowMs ≤ awaitResponseMs

section

variable {cfg : Config} {x : State × DeadlineStore}

/-- A step keeps the deadline, or stores one that it is recorded to. -/
theorem ClockInv.of_store (h : ClockInv cfg x) {s' : State} {store : Option DeadlineStore}
    (hnew : s'.sh.turnDeadline = store.elim x.1.sh.turnDeadline (DeadlineStore.deadline cfg))
    (hwindow : ∀ d, store = some d → d.windowMs ≤ awaitResponseMs) :
    ClockInv cfg (s', store.getD x.2) := by
  cases store with
  | none => exact ⟨hnew.trans h.deadline, h.window⟩
  | some d => exact ⟨hnew, hwindow d rfl⟩

theorem ClockInv.step (h : ClockInv cfg x) (a : Action) :
    ClockInv cfg (observe (step cfg) recordDeadline x a) := by
  cases a with
  | main net => exact h.of_store (mainStep_turnDeadline _ _ _ _ _) fun _ => windowMs_of_main
  | capture mic =>
    exact h.of_store (captureStep_turnDeadline _ _ _ _ _) fun _ => windowMs_of_capture
  | elapse us => exact ⟨h.deadline, h.window⟩
  | playback muted => exact ⟨h.deadline, h.window⟩
  | web cmd => exact ⟨h.deadline, h.window⟩

/-- A test is right exactly if it does not compare across a wrap. -/
theorem ClockInv.endsOnTime_eq (h : ClockInv cfg x) (a : Action) :
    endsOnTime cfg x a = sameTurn x.1 a := by
  cases a with
  | capture mic =>
    by_cases hpc : x.1.cap.pc = .testDeadline
    · have hends : (PipecatVoice.step cfg x.1 (.capture mic)).cap.pc = .endTurn ↔
          x.2.deadline cfg < x.1.cap.now := by
        rw [← h.deadline]
        exact captureStep_testDeadline cfg x.1.us mic x.1.sh hpc
      have hplain := Ticks.lt_eq_isAfter_iff x.1.cap.now (x.2.deadline cfg)
      have hwithin : x.1.cap.now - x.2.tick ≤ cfg.msToTicks x.2.windowMs →
          Ticks.isAfter x.1.cap.now (x.2.deadline cfg) = false :=
        Ticks.not_isAfter_add (cfg.msToTicks_le h.window)
      rw [Bool.eq_iff_iff]
      simp only [endsOnTime, sameTurn, hpc, ne_eq, not_true, decide_false, Bool.false_or, hends,
        h.deadline, Bool.and_eq_true, beq_iff_eq, decide_eq_true_iff, ← hplain]
      refine ⟨And.left, fun hright => ⟨hright, ?_⟩⟩
      rw [hright, Bool.not_eq_true', Bool.and_eq_false_iff, decide_eq_false_iff_not]
      exact or_not_of_imp fun hafter => by simpa [hafter] using mt hwithin
    · simp [endsOnTime, sameTurn, hpc]
  | _ => rfl

end

theorem clockInv_start (cfg : Config) (us : ℕ) : ClockInv cfg (start us, ⟨0, 0⟩) := by
  refine ⟨?_, Nat.zero_le _⟩
  simp [start, DeadlineStore.deadline, Config.msToTicks]

/-- **The turn ends when its window is over**, and not before, in exactly the runs
where every test of the deadline compares two values less than half a turn of
the counter apart. -/
theorem endsOnTime_iff (cfg : Config) (us : ℕ) (as : List Action) :
    Meets (observe (step cfg) recordDeadline) (endsOnTime cfg) (start us, ⟨0, 0⟩) as ↔
      Meets (step cfg) sameTurn (start us) as := by
  have hguard : ∀ x a, ClockInv cfg x → endsOnTime cfg x a = sameTurn x.1 a :=
    fun _ a h => h.endsOnTime_eq a
  rw [meets_congr (fun _ a h => ClockInv.step h a) hguard as (clockInv_start cfg us),
    meets_observe]

/-- One tick before the counter wraps, a turn that was just armed is ended in the
same frame. -/
theorem endsOnTime_wraps :
    ¬ Meets (observe (step device) recordDeadline) (endsOnTime device)
      (start ((2 ^ 32 - 1) * 10000), ⟨0, 0⟩)
      (List.replicate 3 (.capture {}) ++ .capture { fired := true } ::
        List.replicate 6 (.capture {})) := by
  decide +kernel

end PipecatVoice
