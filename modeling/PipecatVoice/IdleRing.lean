import PipecatVoice.PeerLifetime
import PipecatVoice.TurnBudget

/-!
# The ring of an idle device

Three tasks and the web page command the LED ring, and each command may be
dropped: during the wake flash, or while the web page has the ring. Off is
commanded when a session is torn down, and by the playback task as long as the
session is up; nothing commands it later.

* `State.covered` — a turn, a peer or a step of the main loop stands for an Off that
  is still to come;
* `lostAfter` — the steps that leave the ring lit with no Off to come;
* `idleRing_iff` — the ring of a device that has settled is dark exactly if no such
  step has been taken.
-/

namespace PipecatVoice

open Runs

/-! ## The driver -/

namespace Ui

/-- The wake flash or an override keeps states off the ring. -/
def held (ui : Ui) (now : ℕ) : Bool := ui.overrideActive now || now < ui.holdUntilUs

/-- Without an override, and unless the next state is forced, the ring shows the
remembered state. -/
def Coherent (ui : Ui) : Prop :=
  ui.overrideUntilUs = 0 → ui.force = false → ui.ring.effect = ledEffect ui.lastPushed

theorem coherent_applyState (ui : Ui) (s : LedState) (now : ℕ) : (ui.applyState s now).Coherent :=
  fun _ _ => rfl

theorem coherent_expireOverride {ui : Ui} (h : ui.Coherent) (now : ℕ) :
    (ui.expireOverride now).Coherent := by
  rw [expireOverride]
  split_ifs
  · exact h
  · exact h
  · exact fun _ hforce => by cases hforce

theorem coherent_setLed {ui : Ui} (h : ui.Coherent) (s : LedState) (now : ℕ) :
    (ui.setLed s now).Coherent := by
  have hexpired := coherent_expireOverride h now
  simp only [setLed]
  split_ifs
  · exact h
  · exact hexpired
  · exact hexpired
  · exact coherent_applyState _ _ _

theorem coherent_tick {ui : Ui} (h : ui.Coherent) (inp : LedInputs) (now : ℕ) :
    (ui.tick inp now).Coherent := by
  rw [tick]
  split
  · exact coherent_setLed h _ _
  · exact h

theorem coherent_webStep (ui : Ui) (us : ℕ) (cmd : WebCmd) : (webStep us ui cmd).Coherent := by
  cases cmd with
  | effect e colour brightness speed =>
    intro hnone
    simp [webStep, overrideEffect, webHoldMs] at hnone
  | state s => exact coherent_applyState _ _ _
  | resume => exact fun _ hforce => by cases hforce
  | ota =>
    intro hnone
    simp [webStep, overrideEffect, otaHoldMs] at hnone

@[simp] theorem expireOverride_ring (ui : Ui) (now : ℕ) :
    (ui.expireOverride now).ring = ui.ring := by
  rw [expireOverride]
  split_ifs <;> rfl

theorem setLed_of_overrideActive {ui : Ui} {now : ℕ} (h : ui.overrideActive now) (s : LedState) :
    ui.setLed s now = ui := by
  rw [setLed, if_pos h]

/-- While the ring is held, only a wake flash gets through. -/
theorem setLed_of_held {ui : Ui} {now : ℕ} (h : ui.held now) {s : LedState} (hs : s ≠ .wakeAck) :
    (ui.setLed s now).ring = ui.ring := by
  rcases hactive : ui.overrideActive now with _ | _
  · have hhold : now < (ui.expireOverride now).holdUntilUs := by
      have hnow : now < ui.holdUntilUs := by simpa [held, hactive] using h
      rw [expireOverride]
      split_ifs <;> exact hnow
    simp only [setLed, hactive, Bool.false_eq_true, if_false]
    rw [if_pos ⟨hs, hhold⟩, expireOverride_ring]
  · rw [setLed_of_overrideActive hactive]

/-- **A state gets through** to a ring that is not held; the wake flash also
during another. -/
theorem setLed_effect {ui : Ui} (h : ui.Coherent) {s : LedState} {now : ℕ}
    (hactive : ui.overrideActive now = false) (hhold : s = .wakeAck ∨ ui.holdUntilUs ≤ now) :
    (ui.setLed s now).ring.effect = ledEffect s := by
  have hopen : ¬ (s ≠ .wakeAck ∧ now < (ui.expireOverride now).holdUntilUs) := by
    rintro ⟨hs, hlt⟩
    rcases hhold with hwake | hover
    · exact hs hwake
    · rw [expireOverride] at hlt
      split_ifs at hlt <;> exact absurd hlt (Nat.not_lt.mpr hover)
  have hnone : (ui.expireOverride now).overrideUntilUs = 0 := by
    rw [expireOverride]
    split_ifs with hzero hlt
    · exact hzero
    · simp [overrideActive, hzero, hlt] at hactive
    · rfl
  simp only [setLed, hactive, Bool.false_eq_true, if_false]
  rw [if_neg hopen]
  split_ifs with hsame
  · -- the ring shows the remembered state, which is this one
    obtain ⟨hforce, hlast⟩ := hsame
    rw [coherent_expireOverride h now hnone hforce, ← hlast]
  · rfl

theorem free_of_not_held {ui : Ui} {now : ℕ} (h : ui.held now = false) :
    ui.overrideActive now = false ∧ ui.holdUntilUs ≤ now := by
  simpa [held] using h

end Ui

theorem resolveLedState_ne_wakeAck {inp : LedInputs} {s : LedState}
    (h : resolveLedState inp = some s) : s ≠ .wakeAck := by
  simp only [resolveLedState] at h
  split_ifs at h <;> cases h <;> exact LedState.noConfusion

/-! ## What the tasks command -/

namespace MainPc

/-- The main loop is about to show that it negotiates. -/
def negotiates : MainPc → Bool
  | .lostLed | .cbLed _ | .cbLostLed _ => true
  | _ => false

/-- The main loop builds a session or ends one, and still ends with an Off or
with `abandon`. -/
def pending : MainPc → Bool
  | .connectBegin | .buildReset | .buildCreate | .abandon | .downUnlock | .downLed => true
  | _ => false

/-- Where an iteration passes that has nothing to do. -/
def rests : MainPc → Bool
  | .top | .sample | .tick | .delay => true
  | _ => false

theorem not_pending_of_rests {pc : MainPc} (h : pc.rests) : pc.pending = false := by
  cases pc <;> first | rfl | cases h

end MainPc

section Effects

variable (cfg : Config) (us : ℕ) (sh : Shared)

theorem mainStep_ui (net : Net) (m : MainTask) : (mainStep cfg us net sh m).1.ui =
    if m.pc = .downLed then sh.ui.setLed .off us
    else if m.pc.negotiates then sh.ui.setLed .negotiating us else sh.ui := by
  obtain ⟨pc, _⟩ := m
  cases pc <;> first | rfl | skip
  all_goals
    simp only [mainStep]
    (repeat' split) <;> simp_all [MainPc.negotiates]

theorem mainStep_ui_of_ne {net : Net} {m : MainTask} (hdown : m.pc ≠ .downLed)
    (hnegotiates : ¬ m.pc.negotiates) : (mainStep cfg us net sh m).1.ui = sh.ui := by
  rw [mainStep_ui, if_neg hdown, if_neg hnegotiates]

theorem captureStep_ui (mic : Mic) (c : CaptureTask) : (captureStep cfg us mic sh c).1.ui =
    if c.pc = .ackLed then sh.ui.setLed .wakeAck us else sh.ui := by
  obtain ⟨pc, _⟩ := c
  cases pc <;> first | rfl | skip
  all_goals
    simp only [captureStep]
    (repeat' split) <;> simp_all

theorem playbackStep_ui (muted : Bool) (p : PlaybackTask) : (playbackStep cfg us muted sh p).1 =
    if p.pc = .ledTick then sh.ui.tick p.inp us else sh.ui := by
  obtain ⟨pc, _⟩ := p
  cases pc <;> rfl

theorem lostLed_of_mainStep {net : Net} {m : MainTask}
    (h : (mainStep cfg us net sh m).2.pc = .lostLed) : m.pc = .liveDead := by
  obtain ⟨pc, _⟩ := m
  cases pc <;> simp only [mainStep, branchPc, callbackPc, peerLoop] at h
  all_goals
    (repeat' split at h) <;> simp_all

/-- A step that is on the way to an Off, or to `abandon`, stays on it until it is there. -/
theorem pending_of_mainStep {net : Net} {m : MainTask} (h : m.pc.pending) :
    (mainStep cfg us net sh m).2.pc.pending ∨ m.pc = .abandon ∨ m.pc = .downLed ∨
      (m.pc = .buildCreate ∧ net.created) := by
  obtain ⟨pc, _⟩ := m
  cases pc <;> cases h <;> simp only [mainStep]
  case buildCreate =>
    split
    · simp_all
    · exact Or.inl rfl
  all_goals simp [MainPc.pending]

/-- Without a turn and without a peer, an iteration has nothing to do. -/
theorem rests_of_mainStep {net : Net} {m : MainTask} (h : m.pc.rests)
    (hactive : sh.conversationActive = false) (hpeer : sh.peer = none) :
    (mainStep cfg us net sh m).2.pc.rests := by
  obtain ⟨pc, _⟩ := m
  cases pc <;> cases h <;> simp [mainStep, hactive, hpeer, branchPc, MainPc.rests]

end Effects

/-! ## The idle device -/

/-- No turn and no peer. -/
def State.idle (s : State) : Bool := !s.sh.conversationActive && s.sh.peer.isNone

theorem State.idle_iff {s : State} :
    s.idle ↔ s.sh.conversationActive = false ∧ s.sh.peer = none := by
  simp [State.idle]

/-- An Off is still to come. -/
def State.covered (s : State) : Bool :=
  s.sh.conversationActive || s.sh.peer.isSome || s.main.pc.pending

/-- The ring shows something. -/
def State.lit (s : State) : Bool := s.sh.ui.ring.effect ≠ .off

/-- How the ring can be left lit with no Off to come. -/
inductive LostOff where
  /-- `buildAndOffer` has returned false -/
  | abandoned
  /-- the turn is over with no peer to tear down: none was built yet, or it was reset for
  a reconnect -/
  | dropped
  /-- the teardown's Off came during the wake flash or an override -/
  | held
  /-- the wake flash came after its turn -/
  | flashed
  /-- a tick of the LED state had loaded its inputs before the teardown -/
  | ticked
  /-- the web page has taken the ring -/
  | taken
  deriving DecidableEq, Repr

/-- What a step makes of the Off that was lost, if no Off is to come after it. -/
def lostAfter (lost : Option LostOff) (s : State) : Action → Option LostOff
  | .main _ =>
    match s.main.pc with
    | .abandon => if s.lit then some .abandoned else none
    | .lostReset => if s.lit then some .dropped else none
    | .downLed => if s.lit && s.sh.ui.held s.us then some .held else none
    | _ => lost
  | .capture _ =>
    match s.cap.pc with
    | .endTurn => if s.lit then some .dropped else none
    | .ackLed => if s.sh.ui.overrideActive s.us then lost else some .flashed
    | _ => lost
  | .playback _ =>
    if s.play.pc = .ledTick && !s.sh.ui.held s.us then
      match resolveLedState s.play.inp with
      | none => lost
      | some .off => none
      | some _ => some .ticked
    else lost
  | .web cmd =>
    match cmd with
    | .effect e _ _ _ => if e = .off then none else some .taken
    | .state st => if st = .off then none else some .taken
    | .resume => lost
    | .ota => some .taken
  | .elapse _ => lost

/-- What a run has done while the device was idle. -/
structure IdleHistory where
  /-- the main loop has begun an iteration -/
  began : Bool
  /-- the main loop has completed an iteration -/
  iterated : Bool
  /-- the LED state was ticked with the ring no longer held -/
  ticked : Bool
  /-- how the ring was left lit with no Off to come -/
  lost : Option LostOff

/-- Nothing has happened. -/
def IdleHistory.start : IdleHistory := ⟨false, false, false, none⟩

/-- The action is the main loop's step from a place. -/
def State.mainAt (s : State) (pc : MainPc) : Action → Bool
  | .main _ => s.main.pc = pc
  | _ => false

/-- The action ticks the LED state while the ring is free. -/
def State.ticksFree (s : State) : Action → Bool
  | .playback _ => s.play.pc = .ledTick && !s.sh.ui.held s.us
  | _ => false

/-- The history, one step on. -/
def recordIdle (cfg : Config) (h : IdleHistory) (s : State) (a : Action) : IdleHistory :=
  let s' := step cfg s a
  { began := s.idle && s'.idle && (h.began || s.mainAt .top a)
    iterated := s.idle && s'.idle && (h.iterated || (h.began && s.mainAt .delay a))
    ticked := !s'.sh.ui.held s'.us && (h.ticked || s.ticksFree a)
    lost := if s'.covered then none else lostAfter h.lost s a }

/-- The device is idle, the main loop has been through an iteration since, and
the LED state was ticked after the wake flash and any override. -/
def settled (x : State × IdleHistory) : Bool := x.1.idle && x.2.iterated && x.2.ticked

/-! ## Where an Off is still to come -/

/-- What holds of the main loop and the driver in every reachable state. -/
structure RingInv (s : State) : Prop where
  /-- the main loop by itself -/
  loop : LoopInv s
  /-- the peer's lifetime -/
  peer : PeerInv s
  /-- an offer is signaled for a peer -/
  offer : s.main.pc = .buildOffer → s.sh.peer.isSome
  /-- a connection that is lost had a peer -/
  lost : s.main.pc = .lostLed → s.sh.peer.isSome
  /-- the ring shows the remembered state -/
  ui : s.sh.ui.Coherent

theorem ringInv_start (us : ℕ) : RingInv (start us) :=
  ⟨loopInv_start us, peerInv_start us, nofun, nofun, Ui.coherent_setLed (fun _ _ => rfl) _ _⟩

section

variable {cfg : Config} {s : State}

theorem RingInv.main (h : RingInv s) (net : Net) : RingInv (step cfg s (.main net)) where
  loop := h.loop.main net
  peer := h.peer.main net
  offer := by
    intro hpc
    obtain ⟨hcreate, hcreated⟩ := buildOffer_of_mainStep _ _ _ _ _ hpc
    exact (mainStep_peer_isSome _ _ _ _ _).mpr
      ⟨by rw [hcreate]; exact Bool.false_ne_true, Or.inl ⟨hcreate, hcreated⟩⟩
  lost := by
    intro hpc
    have hdead := lostLed_of_mainStep _ _ _ hpc
    refine (mainStep_peer_isSome _ _ _ _ _).mpr ⟨by rw [hdead]; exact Bool.false_ne_true, ?_⟩
    exact Or.inr (h.loop.watched (by rw [hdead]; rfl))
  ui := by
    rw [step_main_sh, mainStep_ui]
    split_ifs
    · exact Ui.coherent_setLed h.ui _ _
    · exact Ui.coherent_setLed h.ui _ _
    · exact h.ui

theorem RingInv.step (h : RingInv s) (a : Action) : RingInv (step cfg s a) := by
  cases a with
  | main net => exact h.main net
  | capture mic =>
    have hpeer := captureStep_peer cfg s.us mic s.sh s.cap
    refine ⟨h.loop.step _, h.peer.step _, ?_, ?_, ?_⟩
    · rw [step_capture_sh, hpeer]
      exact h.offer
    · rw [step_capture_sh, hpeer]
      exact h.lost
    · rw [step_capture_sh, captureStep_ui]
      split_ifs
      · exact Ui.coherent_setLed h.ui _ _
      · exact h.ui
  | playback muted =>
    refine ⟨h.loop.step _, h.peer.step _, h.offer, h.lost, ?_⟩
    show (playbackStep cfg s.us muted s.sh s.play).1.Coherent
    rw [playbackStep_ui]
    split_ifs
    · exact Ui.coherent_tick h.ui _ _
    · exact h.ui
  | web cmd =>
    exact ⟨h.loop.step _, h.peer.step _, h.offer, h.lost, Ui.coherent_webStep _ _ _⟩
  | elapse us => exact ⟨h.loop.step _, h.peer.step _, h.offer, h.lost, h.ui⟩

/-- The main loop ends a turn with a peer, except where `buildAndOffer` has
failed. -/
theorem RingInv.peer_of_endsTurn (h : RingInv s) {net : Net} (hpc : s.main.pc.endsTurn net) :
    s.main.pc = .abandon ∨ (s.sh.peer.isSome ∧ ¬ s.main.pc.resets) := by
  rcases hmain : s.main.pc <;> simp only [hmain, MainPc.endsTurn, Bool.false_eq_true] at hpc
  case buildOffer => exact Or.inr ⟨h.offer hmain, Bool.false_ne_true⟩
  case abandon => exact Or.inl rfl
  case giveUp => exact Or.inr ⟨h.loop.watched (by rw [hmain]; rfl), Bool.false_ne_true⟩
  case stall => exact Or.inr ⟨h.loop.watched (by rw [hmain]; rfl), Bool.false_ne_true⟩

/-- The main loop takes a peer away on the way to an Off, except for a
reconnect. -/
theorem RingInv.pending_of_resets (h : RingInv s) {net : Net} (hpeer : s.sh.peer.isSome)
    (hpc : s.main.pc.resets) :
    s.main.pc = .lostReset ∨ (mainStep cfg s.us net s.sh s.main).2.pc.pending := by
  rcases hmain : s.main.pc <;> rw [hmain] at hpc <;> cases hpc
  case buildReset => exact Or.inr (by simp [mainStep, hmain, MainPc.pending])
  case abandonReset =>
    rw [h.peer.no_peer (by rw [hmain]; rfl)] at hpeer
    cases hpeer
  case downReset => exact Or.inr (by simp [mainStep, hmain, MainPc.pending])
  case lostReset => exact Or.inl rfl

/-- **An Off stays to come** until the main loop commands it, gives `buildAndOffer`
up, or drops a peer that no turn needs. -/
theorem RingInv.covered_of_main (h : RingInv s) {net : Net} (hs : s.covered) :
    (PipecatVoice.step cfg s (.main net)).covered ∨ s.main.pc = .abandon ∨ s.main.pc = .lostReset ∨
      s.main.pc = .downLed := by
  have hpeer' := mainStep_peer_isSome cfg s.us net s.sh s.main
  simp only [State.covered, Bool.or_eq_true, step_main_sh, step_main_main] at hs ⊢
  rcases hs with (hactive | hpeer) | hpending
  · by_cases hends : s.main.pc.endsTurn net
    · rcases h.peer_of_endsTurn hends with habandon | ⟨hpeer, hresets⟩
      · exact Or.inr (Or.inl habandon)
      · exact Or.inl (Or.inl (Or.inr (hpeer'.mpr ⟨hresets, Or.inr hpeer⟩)))
    · rw [mainStep_conversationActive, if_neg hends]
      exact Or.inl (Or.inl (Or.inl hactive))
  · by_cases hresets : s.main.pc.resets
    · rcases h.pending_of_resets hpeer hresets with hlost | hpending
      · exact Or.inr (Or.inr (Or.inl hlost))
      · exact Or.inl (Or.inr hpending)
    · exact Or.inl (Or.inl (Or.inr (hpeer'.mpr ⟨hresets, Or.inr hpeer⟩)))
  · rcases pending_of_mainStep cfg s.us s.sh hpending with hstays | habandon | hdown | hcreate
    · exact Or.inl (Or.inr hstays)
    · exact Or.inr (Or.inl habandon)
    · exact Or.inr (Or.inr (Or.inr hdown))
    · refine Or.inl (Or.inl (Or.inr (hpeer'.mpr ⟨?_, Or.inl hcreate⟩)))
      rw [hcreate.1]
      exact Bool.false_ne_true

/-- With no Off to come, the main loop commands nothing. -/
theorem RingInv.ui_of_main (h : RingInv s) {net : Net} (hs : s.covered = false) :
    (mainStep cfg s.us net s.sh s.main).1.ui = s.sh.ui := by
  simp only [State.covered, Bool.or_eq_false_iff] at hs
  obtain ⟨⟨-, hpeer⟩, hpending⟩ := hs
  have hdown : s.main.pc ≠ .downLed := by
    intro hpc
    rw [hpc] at hpending
    cases hpending
  have hnegotiates : ¬ s.main.pc.negotiates := by
    intro hpc
    have hsome : s.sh.peer.isSome := by
      rcases hmain : s.main.pc <;> rw [hmain] at hpc <;> cases hpc
      case lostLed => exact h.lost hmain
      all_goals exact h.peer.has_peer (by rw [hmain]; rfl)
    rw [hpeer] at hsome
    cases hsome
  exact mainStep_ui_of_ne _ _ _ hdown hnegotiates

end

/-! ## What was lost, and the ring -/

/-- The history tells whether the ring is lit, once no Off is to come. -/
structure IdleInv (x : State × IdleHistory) : Prop where
  /-- the device by itself -/
  ring : RingInv x.1
  /-- with no Off to come, the ring is dark exactly if none was lost -/
  dark : x.1.covered = false → (x.2.lost = none ↔ x.1.sh.ui.ring.effect = .off)
  /-- the iteration of an idle device has nothing to do -/
  began : x.2.began → x.1.idle ∧ x.1.main.pc.rests
  /-- an iteration that was completed was begun -/
  iterated : x.2.iterated → x.2.began

theorem idleInv_start (us : ℕ) : IdleInv (start us, IdleHistory.start) :=
  ⟨ringInv_start us, fun _ => ⟨fun _ => rfl, fun _ => rfl⟩, nofun, nofun⟩

/-- What was lost is lost because the ring is lit. -/
theorem lost_of_lit (s : State) (why : LostOff) :
    (if s.lit then some why else none) = none ↔ s.sh.ui.ring.effect = .off := by
  simp [State.lit]

theorem lostAfter_main {lost : Option LostOff} {s : State} {net : Net}
    (habandon : s.main.pc ≠ .abandon) (hreset : s.main.pc ≠ .lostReset)
    (hdown : s.main.pc ≠ .downLed) : lostAfter lost s (.main net) = lost := by
  rcases hpc : s.main.pc <;> simp_all [lostAfter]

theorem lostAfter_capture {lost : Option LostOff} {s : State} {mic : Mic}
    (hend : s.cap.pc ≠ .endTurn) (hack : s.cap.pc ≠ .ackLed) :
    lostAfter lost s (.capture mic) = lost := by
  rcases hpc : s.cap.pc <;> simp_all [lostAfter]

section

variable {cfg : Config} {x : State × IdleHistory}

/-- The Off of a teardown. -/
theorem IdleInv.dark_of_downLed (h : IdleInv x) {net : Net} (hpc : x.1.main.pc = .downLed) :
    lostAfter x.2.lost x.1 (.main net) = none ↔
      (x.1.sh.ui.setLed .off x.1.us).ring.effect = .off := by
  rcases hheld : x.1.sh.ui.held x.1.us with _ | _
  · obtain ⟨hactive, hhold⟩ := Ui.free_of_not_held hheld
    have heffect := Ui.setLed_effect h.ring.ui hactive (Or.inr hhold : LedState.off = _ ∨ _)
    simp [lostAfter, hpc, hheld, heffect, ledEffect]
  · rw [Ui.setLed_of_held hheld (by decide), ← lost_of_lit x.1 .held]
    simp [lostAfter, hpc, hheld]

theorem IdleInv.dark_of_main (h : IdleInv x) {net : Net}
    (hcovered : (step cfg x.1 (.main net)).covered = false) :
    lostAfter x.2.lost x.1 (.main net) = none ↔
      (mainStep cfg x.1.us net x.1.sh x.1.main).1.ui.ring.effect = .off := by
  by_cases hdown : x.1.main.pc = .downLed
  · rw [mainStep_ui, if_pos hdown]
    exact h.dark_of_downLed hdown
  by_cases habandon : x.1.main.pc = .abandon
  · have hquiet : ¬ x.1.main.pc.negotiates := by
      rw [habandon]
      exact Bool.false_ne_true
    rw [mainStep_ui_of_ne _ _ _ hdown hquiet, ← lost_of_lit x.1 .abandoned]
    simp [lostAfter, habandon]
  by_cases hreset : x.1.main.pc = .lostReset
  · have hquiet : ¬ x.1.main.pc.negotiates := by
      rw [hreset]
      exact Bool.false_ne_true
    rw [mainStep_ui_of_ne _ _ _ hdown hquiet, ← lost_of_lit x.1 .dropped]
    simp [lostAfter, hreset]
  · have hold : x.1.covered = false := by
      by_contra hne
      have hsome : (step cfg x.1 (.main net)).covered ∨ _ :=
        h.ring.covered_of_main (Bool.of_not_eq_false hne)
      simp [hcovered, habandon, hreset, hdown] at hsome
    rw [lostAfter_main habandon hreset hdown, h.ring.ui_of_main hold]
    exact h.dark hold

theorem IdleInv.dark_of_capture (h : IdleInv x) {mic : Mic}
    (hcovered : (step cfg x.1 (.capture mic)).covered = false) :
    lostAfter x.2.lost x.1 (.capture mic) = none ↔
      (captureStep cfg x.1.us mic x.1.sh x.1.cap).1.ui.ring.effect = .off := by
  rw [captureStep_ui]
  by_cases hend : x.1.cap.pc = .endTurn
  · rw [if_neg (by simp [hend]), ← lost_of_lit x.1 .dropped]
    simp [lostAfter, hend]
  have hold : x.1.covered = false := by
    simp only [State.covered, Bool.or_eq_false_iff, step_capture_sh, step_capture_main,
      captureStep_peer, captureStep_conversationActive, if_neg hend] at hcovered ⊢
    obtain ⟨⟨hactive, hpeer⟩, hpending⟩ := hcovered
    split_ifs at hactive
    exact ⟨⟨hactive, hpeer⟩, hpending⟩
  by_cases hack : x.1.cap.pc = .ackLed
  · rw [if_pos hack]
    rcases hactive : x.1.sh.ui.overrideActive x.1.us with _ | _
    · have heffect := Ui.setLed_effect h.ring.ui hactive (Or.inl rfl : LedState.wakeAck = _ ∨ _)
      simp [lostAfter, hack, hactive, heffect, ledEffect]
    · rw [Ui.setLed_of_overrideActive hactive]
      simpa [lostAfter, hack, hactive] using h.dark hold
  · rw [if_neg hack, lostAfter_capture hend hack]
    exact h.dark hold

/-- A state that was resolved has a colour, or is Off. -/
theorem ledEffect_of_resolve {inp : LedInputs} {s : LedState} (h : resolveLedState inp = some s)
    (hs : s ≠ .off) : ledEffect s ≠ .off := by
  simp only [resolveLedState] at h
  split_ifs at h <;> cases h <;> first | exact absurd rfl hs | decide

theorem IdleInv.dark_of_playback (h : IdleInv x) {muted : Bool} (hold : x.1.covered = false) :
    lostAfter x.2.lost x.1 (.playback muted) = none ↔
      (playbackStep cfg x.1.us muted x.1.sh x.1.play).1.ring.effect = .off := by
  rw [playbackStep_ui]
  by_cases htick : x.1.play.pc = .ledTick
  · rw [if_pos htick, Ui.tick]
    rcases hresolve : resolveLedState x.1.play.inp with _ | st
    · simpa [lostAfter, htick, hresolve] using h.dark hold
    rcases hheld : x.1.sh.ui.held x.1.us with _ | _
    · obtain ⟨hactive, hhold⟩ := Ui.free_of_not_held hheld
      have heffect := Ui.setLed_effect h.ring.ui hactive (Or.inr hhold : st = _ ∨ _)
      by_cases hoff : st = .off
      · subst hoff
        simp [lostAfter, htick, hheld, hresolve, heffect, ledEffect]
      · have hlit := ledEffect_of_resolve hresolve hoff
        simp [lostAfter, htick, hheld, hresolve, heffect, hlit]
    · rw [show (x.1.sh.ui.setLed st x.1.us).ring = x.1.sh.ui.ring from
        Ui.setLed_of_held hheld (resolveLedState_ne_wakeAck hresolve)]
      simpa [lostAfter, htick, hheld] using h.dark hold
  · rw [if_neg htick]
    simpa [lostAfter, htick] using h.dark hold

theorem IdleInv.dark_of_web (h : IdleInv x) {cmd : WebCmd} (hold : x.1.covered = false) :
    lostAfter x.2.lost x.1 (.web cmd) = none ↔
      (webStep x.1.us x.1.sh.ui cmd).ring.effect = .off := by
  cases cmd with
  | effect e colour brightness speed => simp [lostAfter, webStep, Ui.overrideEffect]
  | state st => cases st <;> simp [lostAfter, webStep, Ui.overrideState, Ui.applyState, ledEffect]
  | resume => exact h.dark hold
  | ota => simp [lostAfter, webStep, Ui.overrideEffect]

/-- An iteration of the idle device goes on with nothing to do. -/
theorem IdleInv.rests_of_step (h : IdleInv x) {a : Action} (hidle : x.1.idle)
    (hbegan : (recordIdle cfg x.2 x.1 a).began) : (step cfg x.1 a).main.pc.rests := by
  simp only [recordIdle, Bool.and_eq_true, Bool.or_eq_true] at hbegan
  obtain ⟨-, hbegan⟩ := hbegan
  have hrests : x.1.main.pc.rests := by
    rcases hbegan with hbegan | htop
    · exact (h.began hbegan).2
    · cases a <;> simp [State.mainAt] at htop
      rw [htop]
      rfl
  cases a with
  | main net =>
    obtain ⟨hactive, hpeer⟩ := State.idle_iff.mp hidle
    exact rests_of_mainStep _ _ _ hrests hactive hpeer
  | _ => exact hrests

theorem IdleInv.step (h : IdleInv x) (a : Action) :
    IdleInv (observe (step cfg) (recordIdle cfg) x a) where
  ring := h.ring.step a
  dark := by
    intro hcovered
    have hlost : (recordIdle cfg x.2 x.1 a).lost = lostAfter x.2.lost x.1 a := by
      rw [observe_fst] at hcovered
      simp [recordIdle, hcovered]
    rw [observe_snd, hlost]
    cases a with
    | main net => exact h.dark_of_main hcovered
    | capture mic => exact h.dark_of_capture hcovered
    | playback muted => exact h.dark_of_playback hcovered
    | web cmd => exact h.dark_of_web hcovered
    | elapse us => exact h.dark hcovered
  began := by
    intro hbegan
    have hboth : x.1.idle ∧ (PipecatVoice.step cfg x.1 a).idle := by
      have hrecord : (recordIdle cfg x.2 x.1 a).began := hbegan
      simp only [recordIdle, Bool.and_eq_true] at hrecord
      exact hrecord.1
    exact ⟨hboth.2, h.rests_of_step hboth.1 hbegan⟩
  iterated := by
    intro hiterated
    have hrecord : (recordIdle cfg x.2 x.1 a).iterated := hiterated
    simp only [recordIdle, Bool.and_eq_true, Bool.or_eq_true] at hrecord
    have hbegan : x.2.began := hrecord.2.elim h.iterated And.left
    show (recordIdle cfg x.2 x.1 a).began
    simp [recordIdle, hrecord.1.1, hrecord.1.2, hbegan]

/-- No Off is to come to a device that has settled. -/
theorem IdleInv.not_covered (h : IdleInv x) (hsettled : settled x) : x.1.covered = false := by
  simp only [settled, Bool.and_eq_true] at hsettled
  obtain ⟨⟨hidle, hiterated⟩, -⟩ := hsettled
  obtain ⟨hactive, hpeer⟩ := State.idle_iff.mp hidle
  obtain ⟨-, hrests⟩ := h.began (h.iterated hiterated)
  simp [State.covered, hactive, hpeer, MainPc.not_pending_of_rests hrests]

end

theorem idleInv_run (cfg : Config) (us : ℕ) (as : List Action) :
    IdleInv (run (observe (step cfg) (recordIdle cfg)) (start us, IdleHistory.start) as) :=
  run_induct (fun _ a h => h.step a) as (idleInv_start us)

/-- **The ring of an idle device**: in every run, once there is no turn and no
peer, the main loop has completed an iteration and the LED state was ticked with
the ring free, the ring is dark exactly if no step has left it lit with no Off to
come. -/
theorem idleRing_iff (cfg : Config) (us : ℕ) (as : List Action)
    (hsettled : settled (run (observe (step cfg) (recordIdle cfg))
      (start us, IdleHistory.start) as)) :
    let x := run (observe (step cfg) (recordIdle cfg)) (start us, IdleHistory.start) as
    x.1.sh.ui.ring.effect = .off ↔ x.2.lost = none :=
  ((idleInv_run cfg us as).dark ((idleInv_run cfg us as).not_covered hsettled)).symm

/-- An idle iteration of the main loop, and a pass of the playback task. -/
def settling : List Action := List.replicate 4 (.main {}) ++ List.replicate 6 (.playback false)

/-- Signaling fails two seconds after the wake word: the teardown's Off gets
through. -/
theorem idleRing_slowFailure :
    let x := run (observe (step device) (recordIdle device)) (start 0, IdleHistory.start)
      (wakeFrame ++ List.replicate 4 (.main {}) ++ .main { created := true } :: .elapse 2000000 ::
        List.replicate 13 (.main {}) ++ settling)
    settled x ∧ x.1.sh.ui.ring.effect = .off :=
  ⟨by decide +kernel, (idleRing_iff device 0 _ (by decide +kernel)).mpr (by decide +kernel)⟩

/-- The peer cannot be created: the wake flash stays. -/
theorem idleRing_noPeer :
    let x := run (observe (step device) (recordIdle device)) (start 0, IdleHistory.start)
      (wakeFrame ++ List.replicate 11 (.main {}) ++ .elapse 2000000 :: settling)
    ¬ (settled x → x.1.sh.ui.ring.effect = .off) := by
  decide +kernel

end PipecatVoice
