import PipecatVoice.Lib.Ticks
import PipecatVoice.SessionSteps

/-!
# The echo guard

While the bot speaks, the capture task encodes silence and does not count the
mic as user speech. It learns that the bot speaks from `last_rx_frame_tick_`:
the tick the main loop read for the last loud inbound frame, zero for none. The
capture task has read its own tick by then, and subtracts without a sign.

* `EchoHistory` — what a run has done, on a clock that does not wrap;
* `echoGuard_iff` — the guard holds in exactly the runs where no frame comes to harm
  whose two ticks were out of order, too far apart, or on the sentinel at the load.
-/

namespace PipecatVoice

open Runs

/-- A loud inbound frame. -/
structure LoudFrame where
  /-- the tick read for it -/
  tick : ℕ
  /-- when that tick was stored, in microseconds -/
  storedUs : ℕ

/-- What a run has done. -/
structure EchoHistory where
  /-- the tick the main loop read last -/
  stamp : ℕ
  /-- the tick of the capture task's frame -/
  now : ℕ
  /-- the last loud frame of the current connection -/
  loud : Option LoudFrame
  /-- the guard is due for the capture task's frame -/
  due : Bool
  /-- the load of that frame found the ticks out of order -/
  deaf : Bool
  /-- the wake word has fired in that frame -/
  woken : Bool

/-- The frame was stored less than `kEchoGuardMs` ago. -/
def LoudFrame.recent (l : LoudFrame) (us : ℕ) : Bool := us < l.storedUs + echoGuardMs * 1000

/-- The main loop reads the tick counter on the way to a store. -/
def MainPc.stamps : MainPc → Bool
  | .cbPktNow | .cbNow | .rxPktNow | .rxNow => true
  | _ => false

/-- A connection ends with its peer, and begins with Completed. -/
def MainPc.forgets (pc : MainPc) : Bool := pc.resets || pc = .cbRxFrame

/-- A loud frame has another tick than the sentinel, and fewer than `kEchoGuardMs`
of ticks lie between it and the tick of the capture task's frame, as the counter
counts. -/
def LoudFrame.inOrder (cfg : Config) (l : LoudFrame) (now : ℕ) : Bool :=
  l.tick % 2 ^ 32 ≠ 0 && ((now : ℤ) - l.tick) % 2 ^ 32 < (cfg.msToTicks echoGuardMs).toNat

/-- The history, one step on. -/
def recordEcho (cfg : Config) (h : EchoHistory) (s : State) : Action → EchoHistory
  | .main _ =>
    { h with
      stamp := if s.main.pc.stamps then cfg.ticks s.us else h.stamp
      loud :=
        if s.main.pc = .rxFrame then some ⟨h.stamp, s.us⟩
        else if s.main.pc.forgets then none else h.loud }
  | .capture mic =>
    { h with
      now := if s.cap.pc = .readNow then cfg.ticks s.us else h.now
      due :=
        if s.cap.pc = .read then false
        else if s.cap.pc = .loadRx then h.loud.any fun l => l.recent s.us else h.due
      deaf := if s.cap.pc = .loadRx then h.loud.any fun l => !l.inOrder cfg h.now else h.deaf
      woken := if s.cap.pc = .read then false else h.woken || (s.cap.pc = .wake && mic.fired) }
  | _ => h

/-- In this step, a frame the guard is due for is not encoded from the mic, and
stores neither to `last_mic_active_tick_` nor to `turn_deadline_`. -/
def echoGuarded (x : State × EchoHistory) : Action → Bool
  | .capture mic =>
    !x.2.due ||
      match x.1.cap.pc with
      | .encode => uplinkSource x.1.cap mic.muted = zeroPcm
      | .storeMic | .extend | .arm => false
      | _ => true
  | _ => true

/-- In this step, a frame the guard is due for does not come to harm: if its load
found the ticks out of order, it is muted or silent when it is encoded and does
not count as user speech; and it arms no turn for a wake word. -/
def echoOrdered (x : State × EchoHistory) : Action → Bool
  | .capture mic =>
    !x.2.due ||
      match x.1.cap.pc with
      | .encode => !x.2.deaf || mic.muted || x.1.cap.frame.uplink.toList = zeroPcm
      | .storeMic | .extend => !x.2.deaf
      | .arm => !x.2.woken
      | _ => true
  | _ => true

namespace CapturePc

/-- The capture task counts the mic as user speech. -/
def speech : CapturePc → Bool
  | .storeMic | .testActive | .testReplied | .extend => true
  | _ => false

/-- The capture task arms a turn, or extends one, for a wake word. -/
def arms : CapturePc → Bool
  | .ackLed | .resetEnc | .resetReplied | .arm => true
  | _ => false

end CapturePc

section Steps

variable (cfg : Config) (us : ℕ) (sh : Shared)

theorem mainStep_lastRxFrameTick (net : Net) (m : MainTask) :
    (mainStep cfg us net sh m).1.lastRxFrameTick =
      if m.pc = .rxFrame then m.stamp else if m.pc = .cbRxFrame then 0 else sh.lastRxFrameTick := by
  obtain ⟨pc, _⟩ := m
  cases pc <;> first | rfl | skip
  all_goals
    simp only [mainStep]
    (repeat' split) <;> simp_all

theorem mainStep_stamp (net : Net) (m : MainTask) :
    (mainStep cfg us net sh m).2.stamp = if m.pc.stamps then cfg.tickAt us else m.stamp := by
  obtain ⟨pc, _⟩ := m
  cases pc <;> first | rfl | skip
  all_goals
    simp only [mainStep]
    (repeat' split) <;> simp_all [MainPc.stamps]

theorem captureStep_lastRxFrameTick (mic : Mic) (c : CaptureTask) :
    (captureStep cfg us mic sh c).1.lastRxFrameTick = sh.lastRxFrameTick := by
  obtain ⟨pc, _⟩ := c
  cases pc <;> simp only [captureStep]
  all_goals
    (repeat' split) <;> rfl

theorem captureStep_now (mic : Mic) (c : CaptureTask) :
    (captureStep cfg us mic sh c).2.now = if c.pc = .readNow then cfg.tickAt us else c.now := by
  obtain ⟨pc, _⟩ := c
  cases pc <;> simp only [captureStep]
  all_goals
    (repeat' split) <;> simp_all

/-- The main loop's tick, on a clock that does not wrap. -/
theorem mainStep_stamp_eq (net : Net) {m : MainTask} {n : ℕ} (h : m.stamp = UInt32.ofNat n) :
    (mainStep cfg us net sh m).2.stamp =
      UInt32.ofNat (if m.pc.stamps then cfg.ticks us else n) := by
  rw [mainStep_stamp]
  split
  · exact cfg.tickAt_eq us
  · exact h

/-- The capture task's tick, on a clock that does not wrap. -/
theorem captureStep_now_eq (mic : Mic) {c : CaptureTask} {n : ℕ} (h : c.now = UInt32.ofNat n) :
    (captureStep cfg us mic sh c).2.now =
      UInt32.ofNat (if c.pc = .readNow then cfg.ticks us else n) := by
  rw [captureStep_now]
  split
  · exact cfg.tickAt_eq us
  · exact h

theorem captureStep_botSpeaking (mic : Mic) (c : CaptureTask) :
    (captureStep cfg us mic sh c).2.botSpeaking =
      if c.pc = .loadRx then botSpeaking cfg c.now sh.lastRxFrameTick else c.botSpeaking := by
  obtain ⟨pc, _⟩ := c
  cases pc <;> simp only [captureStep]
  all_goals
    (repeat' split) <;> simp_all

theorem speech_of_captureStep {mic : Mic} {c : CaptureTask}
    (h : (captureStep cfg us mic sh c).2.pc.speech) :
    (c.pc.speech ∧ c.pc ≠ .loadRx) ∨
      (c.pc = .loadRx ∧ botSpeaking cfg c.now sh.lastRxFrameTick = false) := by
  obtain ⟨pc, _⟩ := c
  cases pc <;> simp only [captureStep] at h
  all_goals
    (repeat' split at h) <;> simp_all [CapturePc.speech]

theorem arms_of_captureStep {mic : Mic} {c : CaptureTask}
    (h : (captureStep cfg us mic sh c).2.pc.arms) :
    (c.pc.arms ∧ c.pc ≠ .wake) ∨ (c.pc = .wake ∧ mic.fired) := by
  obtain ⟨pc, _⟩ := c
  cases pc <;> simp only [captureStep] at h
  all_goals
    (repeat' split at h) <;> simp_all [CapturePc.arms]

end Steps

/-- What the history is to the state. -/
structure EchoInv (x : State × EchoHistory) : Prop where
  /-- the main loop's tick -/
  stamp : x.1.main.stamp = UInt32.ofNat x.2.stamp
  /-- the capture task's tick -/
  now : x.1.cap.now = UInt32.ofNat x.2.now
  /-- the member holds the tick of the last loud frame -/
  loud : ∀ l ∈ x.2.loud, x.1.sh.lastRxFrameTick = UInt32.ofNat l.tick
  /-- the capture task hears the bot unless the load was out of order -/
  heard : x.2.due → x.1.cap.botSpeaking = !x.2.deaf
  /-- a frame counts as speech because the bot was not heard -/
  speech : x.2.due → x.1.cap.pc.speech → x.2.deaf
  /-- a turn is armed because the wake word has fired -/
  arms : x.1.cap.pc.arms → x.2.woken

section

variable {cfg : Config} {x : State × EchoHistory}

/-- The capture task sees that the bot speaks exactly if the ticks are in order. -/
theorem LoudFrame.botSpeaking_eq (cfg : Config) (l : LoudFrame) (now : ℕ) :
    botSpeaking cfg (UInt32.ofNat now) (UInt32.ofNat l.tick) = l.inOrder cfg now := by
  have hsentinel : UInt32.ofNat l.tick ≠ 0 ↔ l.tick % 2 ^ 32 ≠ 0 := by
    rw [← UInt32.toNat_ofNat']
    exact not_congr UInt32.toNat_inj.symm
  have hclose : UInt32.ofNat now - UInt32.ofNat l.tick < cfg.msToTicks echoGuardMs ↔
      ((now : ℤ) - l.tick) % 2 ^ 32 < (cfg.msToTicks echoGuardMs).toNat := by
    rw [UInt32.lt_iff_toNat_lt, ← Int.ofNat_lt, ← Ticks.toNat_ofNat_sub now l.tick]
  rw [Bool.eq_iff_iff]
  simp only [botSpeaking, LoudFrame.inOrder, Bool.and_eq_true, bne_iff_ne, decide_eq_true_iff,
    hsentinel, hclose]

theorem EchoInv.main (h : EchoInv x) (net : Net) :
    EchoInv (observe (step cfg) (recordEcho cfg) x (.main net)) where
  stamp := mainStep_stamp_eq cfg x.1.us x.1.sh net h.stamp
  now := h.now
  loud := by
    have htick := mainStep_lastRxFrameTick cfg x.1.us x.1.sh net x.1.main
    rintro l hl
    simp only [observe_fst, observe_snd, recordEcho, step_main_sh, htick] at hl ⊢
    by_cases hrx : x.1.main.pc = .rxFrame
    · rw [if_pos hrx] at hl ⊢
      obtain rfl : LoudFrame.mk x.2.stamp x.1.us = l := by simpa using hl
      exact h.stamp
    · rw [if_neg hrx] at hl ⊢
      by_cases hforgets : x.1.main.pc.forgets
      · rw [if_pos hforgets] at hl
        cases hl
      · have hcb : x.1.main.pc ≠ .cbRxFrame := by
          intro hpc
          exact hforgets (by rw [hpc]; rfl)
        rw [if_neg hforgets] at hl
        rw [if_neg hcb]
        exact h.loud l hl
  heard := h.heard
  speech := h.speech
  arms := h.arms

/-- What the capture task loads with a loud frame before it. -/
theorem EchoInv.botSpeaking_eq (h : EchoInv x) {l : LoudFrame} (hl : x.2.loud = some l) :
    botSpeaking cfg x.1.cap.now x.1.sh.lastRxFrameTick = l.inOrder cfg x.2.now := by
  rw [h.now, h.loud l hl]
  exact l.botSpeaking_eq cfg x.2.now

theorem EchoInv.capture (h : EchoInv x) (mic : Mic) :
    EchoInv (observe (step cfg) (recordEcho cfg) x (.capture mic)) where
  stamp := h.stamp
  now := captureStep_now_eq cfg x.1.us x.1.sh mic h.now
  loud := by
    have htick := captureStep_lastRxFrameTick cfg x.1.us x.1.sh mic x.1.cap
    rintro l hl
    exact htick.trans (h.loud l hl)
  heard := by
    intro hdue
    have hspeaking := captureStep_botSpeaking cfg x.1.us x.1.sh mic x.1.cap
    simp only [observe_fst, observe_snd, recordEcho, step_capture_cap] at hdue ⊢
    split_ifs at hdue with hread hload
    · obtain ⟨l, hl, -⟩ := (Option.any_eq_true _ _).mp hdue
      rw [if_pos hload] at hspeaking ⊢
      rw [hspeaking, h.botSpeaking_eq hl, hl, Option.any_some, Bool.not_not]
    · rw [if_neg hload] at hspeaking ⊢
      exact hspeaking.trans (h.heard hdue)
  speech := by
    rintro hdue hspeech
    simp only [observe_snd, recordEcho] at hdue ⊢
    split_ifs at hdue with hread hload
    · obtain ⟨l, hl, -⟩ := (Option.any_eq_true _ _).mp hdue
      obtain ⟨-, hne⟩ | ⟨-, hquiet⟩ := speech_of_captureStep _ _ _ hspeech
      · exact absurd hload hne
      · rw [h.botSpeaking_eq hl] at hquiet
        rw [if_pos hload, hl, Option.any_some, hquiet]
        rfl
    · obtain ⟨hold, -⟩ | ⟨hpc, -⟩ := speech_of_captureStep _ _ _ hspeech
      · rw [if_neg hload]
        exact h.speech hdue hold
      · exact absurd hpc hload
  arms := by
    intro harms
    simp only [observe_snd, recordEcho]
    obtain ⟨hold, -⟩ | ⟨hwake, hfired⟩ := arms_of_captureStep _ _ _ harms
    · have hread : x.1.cap.pc ≠ .read := by
        intro hpc
        rw [hpc] at hold
        cases hold
      rw [if_neg hread, h.arms hold]
      rfl
    · simp [hwake, hfired]

theorem EchoInv.step (h : EchoInv x) (a : Action) :
    EchoInv (observe (step cfg) (recordEcho cfg) x a) := by
  cases a with
  | main net => exact h.main net
  | capture mic => exact h.capture mic
  | elapse us => exact ⟨h.stamp, h.now, h.loud, h.heard, h.speech, h.arms⟩
  | playback muted => exact ⟨h.stamp, h.now, h.loud, h.heard, h.speech, h.arms⟩
  | web cmd => exact ⟨h.stamp, h.now, h.loud, h.heard, h.speech, h.arms⟩

/-- A frame is encoded from silence if the bot was heard, the mic is muted or the
frame is silent. -/
theorem EchoInv.uplinkSource_iff (h : EchoInv x) (hdue : x.2.due) (muted : Bool) :
    uplinkSource x.1.cap muted = zeroPcm ↔
      (x.2.deaf = false ∨ muted) ∨ x.1.cap.frame.uplink.toList = zeroPcm := by
  rw [uplinkSource, h.heard hdue, Bool.not_not]
  cases x.2.deaf <;> cases muted <;> simp

/-- A frame is guarded exactly if it does not come to harm. -/
theorem EchoInv.echoGuarded_eq (h : EchoInv x) (a : Action) :
    echoGuarded x a = echoOrdered x a := by
  cases a with
  | capture mic =>
    rcases hdue : x.2.due with _ | _
    · simp only [echoGuarded, echoOrdered, hdue, Bool.not_false, Bool.true_or]
    · have hspeech := h.speech hdue
      have harms := h.arms
      cases hpc : x.1.cap.pc <;> simp only [echoGuarded, echoOrdered, hdue, hpc]
      case encode =>
        rw [Bool.eq_iff_iff]
        simpa using h.uplinkSource_iff hdue mic.muted
      case storeMic => simp [hspeech (by rw [hpc]; rfl)]
      case extend => simp [hspeech (by rw [hpc]; rfl)]
      case arm => simp [harms (by rw [hpc]; rfl)]
  | _ => rfl

end

/-- Before the first step there is no loud frame. -/
def EchoHistory.start : EchoHistory := ⟨0, 0, none, false, false, false⟩

theorem echoInv_start (us : ℕ) : EchoInv (start us, EchoHistory.start) :=
  ⟨rfl, rfl, nofun, nofun, nofun, nofun⟩

/-- **The echo guard**: no frame the guard is due for is encoded from the mic or
stores to `last_mic_active_tick_` or `turn_deadline_`, in exactly the runs where no
such frame whose load found the ticks out of order is encoded from a mic that is
neither muted nor silent, or counts as user speech, and no such frame arms a turn
for a wake word. -/
theorem echoGuard_iff (cfg : Config) (us : ℕ) (as : List Action) :
    Meets (observe (step cfg) (recordEcho cfg)) echoGuarded (start us, EchoHistory.start) as ↔
      Meets (observe (step cfg) (recordEcho cfg)) echoOrdered (start us, EchoHistory.start) as := by
  have hstep : ∀ x a, EchoInv x → EchoInv (observe (step cfg) (recordEcho cfg) x a) :=
    fun _ a h => h.step a
  have hguard : ∀ x a, EchoInv x → echoGuarded x a = echoOrdered x a :=
    fun _ a h => h.echoGuarded_eq a
  rw [meets_congr hstep hguard as (echoInv_start us)]

/-- The frame's tick is read, a tick later a reply is stored, and only then is it
loaded: the difference is negative, and the frame is encoded from the mic. -/
theorem echoGuard_heardLate :
    ¬ Meets (observe (step device) (recordEcho device)) echoGuarded
      (start 0, EchoHistory.start)
      (wakeFrame ++ .capture {} :: bringUp ++ List.replicate 16 (.main {}) ++
        List.replicate 2 (.capture { frame := ⟨Vector.replicate _ 1, Vector.replicate _ 0⟩ }) ++
        .elapse 10000 :: .main { audio := List.replicate 10 0x20 } ::
        List.replicate 4 (.main {}) ++ List.replicate 6 (.capture {})) := by
  decide +kernel

end PipecatVoice
