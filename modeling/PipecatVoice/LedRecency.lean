import PipecatVoice.EchoGuard
import PipecatVoice.LedFsm
import PipecatVoice.Lib.Stamps

/-!
# How recent is recent

The playback task hands `Ui::tick` three times in milliseconds: its own, and those of the
last loud frame from the bot and from the mic. All three come from the tick counter, and
`pdTICKS_TO_MS` keeps 32 bits of them; `resolveLedState` subtracts them as if they did not
wrap. The bot's stamp is cleared after `connected_` is set, the mic's never.

* `LedHistory` — what a run has done, on a clock that does not wrap;
* `ledRight` — the LED state that a tick resolves to is the one that is due;
* `ledRight_iff` — which runs get it right at every tick.
-/

namespace PipecatVoice

open Runs Stamps

/-- Milliseconds since boot at a tick. -/
def Config.ms (cfg : Config) (tick : ℕ) : ℕ := tick * 1000 / cfg.tickHz

/-- What there was when the playback task loaded its inputs. -/
structure LedSeen where
  /-- the tick of the playback task -/
  now : ℕ
  /-- the last loud inbound frame of the connection there was -/
  loud : Option ℕ
  /-- which connection that was -/
  loudOn : ℕ
  /-- the last loud frame of the mic -/
  mic : Option ℕ
  /-- the connection, when `connected_` was loaded -/
  connection : ℕ

/-- What a run has done. A frame of the mic counts as loud when the bot is not heard in it. -/
structure LedHistory where
  /-- the tick the main loop read last -/
  stamp : ℕ
  /-- the tick of the capture task's frame -/
  frame : ℕ
  /-- connections so far -/
  connection : ℕ
  /-- the tick of the last loud inbound frame on this connection -/
  loud : Option ℕ
  /-- the tick of the last loud frame of the mic -/
  mic : Option ℕ
  /-- what the playback task has seen -/
  seen : LedSeen

/-- What a load of the playback task sees. -/
def LedSeen.load (h : LedHistory) (tick : ℕ) : PlaybackPc → LedSeen
  | .loadNow => { h.seen with now := tick }
  | .loadRx => { h.seen with loud := h.loud, loudOn := h.connection }
  | .loadMic => { h.seen with mic := h.mic }
  | .loadConnected => { h.seen with connection := h.connection }
  | .loadActive | .ledTick => h.seen

/-- The history, one step on. -/
def recordLed (cfg : Config) (h : LedHistory) (s : State) : Action → LedHistory
  | .main _ =>
    { h with
      stamp := if s.main.pc.stamps then cfg.ticks s.us else h.stamp
      connection := if s.main.pc = .cbConnected then h.connection + 1 else h.connection
      loud :=
        if s.main.pc = .rxFrame then some h.stamp
        else if s.main.pc = .cbConnected then none else h.loud }
  | .capture _ =>
    { h with
      frame := if s.cap.pc = .readNow then cfg.ticks s.us else h.frame
      mic := if s.cap.pc = .storeMic then some h.frame else h.mic }
  | .playback _ => { h with seen := .load h (cfg.ticks s.us) s.play.pc }
  | .elapse _ | .web _ => h

/-! ## What is due -/

/-- The state for what is going on. -/
def LedState.live (speaking active talking thinking : Bool) : LedState :=
  if speaking then .speaking
  else if !active then .off
  else if talking then .talking
  else if thinking then .thinking
  else .listening

namespace LedSeen

/-- The last loud inbound frame on the connection of the tick. -/
def heard (seen : LedSeen) : Option ℕ := if seen.loudOn = seen.connection then seen.loud else none

/-- An instant is less than `hold` milliseconds before the tick. -/
def within (cfg : Config) (seen : LedSeen) (hold : ℤ) (tick : ℕ) : Bool :=
  age (cfg.ms seen.now) (cfg.ms tick) < hold

/-- The state that is due at the tick. -/
def due (cfg : Config) (seen : LedSeen) (active : Bool) : LedState :=
  .live (seen.heard.any (seen.within cfg speakingHold)) active
    (seen.mic.any (seen.within cfg talkingHold))
    (seen.mic.any (seen.within cfg (talkingHold + thinkingMax)))

/-- The two instants are clear of the wraps of the milliseconds. -/
def clear (cfg : Config) (seen : LedSeen) (lo hi : ℤ) (tick : ℕ) : Bool :=
  Clear (2 ^ 32) lo hi (cfg.ms seen.now) (cfg.ms tick)

/-- The last loud inbound frame is clear of the wraps; without one, what was left in the stamp
by another connection is none or an old one. -/
def rxClear (cfg : Config) (seen : LedSeen) (inp : LedInputs) : Bool :=
  match seen.heard with
  | some tick => seen.clear cfg speakingHold speakingHold tick
  | none => inp.lastInboundAudio = 0 || speakingHold ≤ inp.now - inp.lastInboundAudio

/-- The last loud frame of the mic is clear of the wraps. -/
def micClear (cfg : Config) (seen : LedSeen) : Bool :=
  seen.mic.all (seen.clear cfg talkingHold (talkingHold + thinkingMax))

end LedSeen

/-- In this step, a tick with a connection and without mute resolves to the state that is
due. -/
def ledRight (cfg : Config) (x : State × LedHistory) : Action → Bool
  | .playback _ =>
    x.1.play.pc ≠ .ledTick || !x.1.play.inp.connected || x.1.play.inp.muted ||
      resolveLedState x.1.play.inp = some (x.2.seen.due cfg x.1.play.inp.conversationActive)
  | _ => true

/-- In this step, a tick with a connection and without mute has its stamps clear: the bot's,
and in a turn, unless the bot was heard, the mic's. -/
def ledClear (cfg : Config) (x : State × LedHistory) : Action → Bool
  | .playback _ =>
    x.1.play.pc ≠ .ledTick || !x.1.play.inp.connected || x.1.play.inp.muted ||
      (x.2.seen.rxClear cfg x.1.play.inp &&
        (x.2.seen.heard.any (x.2.seen.within cfg speakingHold) ||
          !x.1.play.inp.conversationActive || x.2.seen.micClear cfg))
  | _ => true

/-! ## Milliseconds -/

/-- The milliseconds of a tick, as the counter has them. -/
theorem Config.ticksToMs_ofNat {cfg : Config} (hdvd : cfg.tickHz ∣ 1000) (tick : ℕ) :
    (cfg.ticksToMs (UInt32.ofNat tick)).toNat = cfg.ms tick % 2 ^ 32 := by
  obtain ⟨k, hk⟩ := hdvd
  have hms : ∀ n, n * 1000 / cfg.tickHz = n * k := by
    intro n
    rw [hk, Nat.mul_left_comm, Nat.mul_div_cancel_left _ cfg.tickHz_pos]
  rw [Config.ticksToMs, Config.ms, UInt32.toNat_ofNat', UInt32.toNat_ofNat', hms, hms]
  exact (Nat.mod_modEq tick (2 ^ 32)).mul_right k

/-- A stamp, as it is loaded. -/
theorem Config.loaded_eq {cfg : Config} (hdvd : cfg.tickHz ∣ 1000) {stamp : UInt32} {tick : ℕ}
    (h : stamp = UInt32.ofNat tick) :
    ((cfg.ticksToMs stamp).toNat : ℤ) = (cfg.ms tick % 2 ^ 32 : ℕ) := by
  rw [h, cfg.ticksToMs_ofNat hdvd]

theorem Config.ms_zero (cfg : Config) : cfg.ms 0 = 0 := by
  rw [ms, Nat.zero_mul, Nat.zero_div]

/-- The computed age is on the right side of both holds exactly when the instants are clear
of the wraps. -/
theorem LedSeen.clear_iff {cfg : Config} {seen : LedSeen} {lo hi now stamp : ℤ} {tick : ℕ}
    (hlo : 0 ≤ lo) (hle : lo ≤ hi) (hhi : hi < 2 ^ 32)
    (hnow : now = (cfg.ms seen.now % 2 ^ 32 : ℕ)) (hstamp : stamp = (cfg.ms tick % 2 ^ 32 : ℕ)) :
    seen.clear cfg lo hi tick ↔ decide (sinceMs now stamp < lo) = seen.within cfg lo tick ∧
      decide (sinceMs now stamp < hi) = seen.within cfg hi tick := by
  have hnever : hi ≤ msMax := by
    rw [msMax]
    omega
  have hsince : sinceMs now stamp =
      since msMax (cfg.ms seen.now % 2 ^ 32 : ℕ) (cfg.ms tick % 2 ^ 32 : ℕ) := by
    rw [hnow, hstamp]
    rfl
  rw [clear, decide_eq_true_iff, Stamps.clear_iff hlo hle hhi hnever, hsince, within, within,
    decide_eq_decide, decide_eq_decide]

/-! ## Resolving -/

theorem resolveLedState_live {inp : LedInputs} (hconnected : inp.connected)
    (hmuted : inp.muted = false) : resolveLedState inp =
      some (.live (sinceMs inp.now inp.lastInboundAudio < speakingHold) inp.conversationActive
        (sinceMs inp.now inp.lastMicActive < talkingHold)
        (sinceMs inp.now inp.lastMicActive < talkingHold + thinkingMax)) := by
  simp only [resolveLedState, LedState.live, hconnected, hmuted, Bool.not_true,
    Bool.false_eq_true, if_false, decide_eq_true_eq]
  (repeat' split) <;> rfl

/-- Two live states are the same if the same goes on, as far as it shows. -/
theorem LedState.live_inj {sp sp' active talk talk' think think' : Bool} (h : talk → think)
    (h' : talk' → think') : live sp active talk think = live sp' active talk' think' ↔
      sp = sp' ∧ (sp' ∨ active = false ∨ (talk = talk' ∧ think = think')) := by
  revert sp sp' active talk talk' think think'
  decide

/-- Who talks now has not stopped long ago, as computed. -/
theorem thinking_of_talking {since : ℤ} (h : decide (since < talkingHold)) :
    decide (since < talkingHold + thinkingMax) := by
  have hlt : since < talkingHold := of_decide_eq_true h
  exact decide_eq_true (hlt.trans_le (by decide))

/-- And in truth. -/
theorem LedSeen.thinking_of_talking (cfg : Config) (seen : LedSeen)
    (h : seen.mic.any (seen.within cfg talkingHold)) :
    seen.mic.any (seen.within cfg (talkingHold + thinkingMax)) := by
  obtain ⟨tick, hmic, hwithin⟩ := (Option.any_eq_true _ _).mp h
  exact (Option.any_eq_true _ _).mpr ⟨tick, hmic, PipecatVoice.thinking_of_talking hwithin⟩

/-! ## The stamps and the history -/

/-- What the history is to the state. -/
structure LedInv (cfg : Config) (x : State × LedHistory) : Prop where
  /-- the main loop's tick -/
  stamp : x.1.main.stamp = UInt32.ofNat x.2.stamp
  /-- the capture task's tick -/
  frame : x.1.cap.now = UInt32.ofNat x.2.frame
  /-- the bot's stamp -/
  loud : ∀ tick ∈ x.2.loud, x.1.sh.lastRxFrameTick = UInt32.ofNat tick
  /-- it is cleared before anything was heard -/
  fresh : x.1.main.pc = .cbRxFrame → x.2.loud = none
  /-- the mic's stamp -/
  mic : x.1.sh.lastMicActiveTick = x.2.mic.elim 0 UInt32.ofNat
  /-- the time of the tick -/
  now : x.1.play.inp.now = (cfg.ms x.2.seen.now % 2 ^ 32 : ℕ)
  /-- the bot's stamp, as loaded -/
  seenLoud : ∀ tick ∈ x.2.seen.loud, x.1.play.inp.lastInboundAudio = (cfg.ms tick % 2 ^ 32 : ℕ)
  /-- the mic's stamp, as loaded -/
  seenMic : x.1.play.inp.lastMicActive =
    x.2.seen.mic.elim 0 fun tick => ((cfg.ms tick % 2 ^ 32 : ℕ) : ℤ)

section

variable (cfg : Config) (us : ℕ) (sh : Shared)

theorem mainStep_lastMicActiveTick (net : Net) (m : MainTask) :
    (mainStep cfg us net sh m).1.lastMicActiveTick = sh.lastMicActiveTick := by
  obtain ⟨pc, _⟩ := m
  cases pc <;> first | rfl | skip
  all_goals
    simp only [mainStep]
    (repeat' split) <;> rfl

theorem captureStep_lastMicActiveTick (mic : Mic) (c : CaptureTask) :
    (captureStep cfg us mic sh c).1.lastMicActiveTick =
      if c.pc = .storeMic then c.now else sh.lastMicActiveTick := by
  obtain ⟨pc, _⟩ := c
  cases pc <;> simp only [captureStep]
  all_goals
    (repeat' split) <;> simp_all

/-- The bot's stamp is cleared right after `connected_` is set. -/
theorem cbConnected_of_mainStep {net : Net} {m : MainTask}
    (h : (mainStep cfg us net sh m).2.pc = .cbRxFrame) : m.pc = .cbConnected := by
  obtain ⟨pc, _⟩ := m
  cases pc <;> first | rfl | simp only [mainStep, branchPc, callbackPc, peerLoop] at h
  all_goals
    (repeat' split at h) <;> simp_all

end

section

variable {cfg : Config} {x : State × LedHistory}

theorem LedInv.main (h : LedInv cfg x) (net : Net) :
    LedInv cfg (observe (step cfg) (recordLed cfg) x (.main net)) where
  stamp := mainStep_stamp_eq cfg x.1.us x.1.sh net h.stamp
  frame := h.frame
  loud := by
    have htick := mainStep_lastRxFrameTick cfg x.1.us x.1.sh net x.1.main
    intro tick hloud
    simp only [observe_fst, observe_snd, recordLed, step_main_sh, htick] at hloud ⊢
    by_cases hrx : x.1.main.pc = .rxFrame
    · rw [if_pos hrx] at hloud ⊢
      obtain rfl := Option.some.inj hloud
      exact h.stamp
    · rw [if_neg hrx] at hloud ⊢
      by_cases hconnected : x.1.main.pc = .cbConnected
      · rw [if_pos hconnected] at hloud
        cases hloud
      · rw [if_neg hconnected] at hloud
        have hclear : x.1.main.pc ≠ .cbRxFrame := by
          intro hpc
          rw [h.fresh hpc] at hloud
          cases hloud
        rw [if_neg hclear]
        exact h.loud tick hloud
  fresh := by
    intro hpc
    have hconnected := cbConnected_of_mainStep cfg x.1.us x.1.sh hpc
    simp [recordLed, hconnected]
  mic := (mainStep_lastMicActiveTick cfg x.1.us x.1.sh net x.1.main).trans h.mic
  now := h.now
  seenLoud := h.seenLoud
  seenMic := h.seenMic

theorem LedInv.capture (h : LedInv cfg x) (mic : Mic) :
    LedInv cfg (observe (step cfg) (recordLed cfg) x (.capture mic)) where
  stamp := h.stamp
  frame := captureStep_now_eq cfg x.1.us x.1.sh mic h.frame
  loud := by
    have htick := captureStep_lastRxFrameTick cfg x.1.us x.1.sh mic x.1.cap
    intro tick hloud
    exact htick.trans (h.loud tick hloud)
  fresh := h.fresh
  mic := by
    have hmic := captureStep_lastMicActiveTick cfg x.1.us x.1.sh mic x.1.cap
    simp only [observe_fst, observe_snd, recordLed, step_capture_sh, hmic]
    by_cases hstore : x.1.cap.pc = .storeMic
    · rw [if_pos hstore, if_pos hstore]
      exact h.frame
    · rw [if_neg hstore, if_neg hstore]
      exact h.mic
  now := h.now
  seenLoud := h.seenLoud
  seenMic := h.seenMic

/-- The mic's stamp, or none, as it is loaded. -/
theorem seenMic_eq (hdvd : cfg.tickHz ∣ 1000) {stamp : UInt32} {mic : Option ℕ}
    (h : stamp = mic.elim 0 UInt32.ofNat) : ((cfg.ticksToMs stamp).toNat : ℤ) =
      mic.elim 0 fun tick => ((cfg.ms tick % 2 ^ 32 : ℕ) : ℤ) := by
  cases mic with
  | none =>
    have hzero : ((cfg.ms 0 % 2 ^ 32 : ℕ) : ℤ) = 0 := by
      rw [cfg.ms_zero]
      rfl
    have hstamp : stamp = UInt32.ofNat 0 := h
    exact (cfg.loaded_eq hdvd hstamp).trans hzero
  | some tick => exact cfg.loaded_eq hdvd h

/-- Each load of the playback task brings its part of the history. -/
theorem LedInv.playback (hdvd : cfg.tickHz ∣ 1000) (h : LedInv cfg x) (muted : Bool) :
    LedInv cfg (observe (step cfg) (recordLed cfg) x (.playback muted)) := by
  obtain ⟨⟨us, sh, main, cap, ⟨pc, inp⟩⟩, history⟩ := x
  cases pc with
  | loadNow =>
    refine ⟨h.stamp, h.frame, h.loud, h.fresh, h.mic, ?_, h.seenLoud, h.seenMic⟩
    exact cfg.loaded_eq hdvd (cfg.tickAt_eq us)
  | loadRx =>
    refine ⟨h.stamp, h.frame, h.loud, h.fresh, h.mic, h.now, ?_, h.seenMic⟩
    intro tick hloud
    exact cfg.loaded_eq hdvd (h.loud tick hloud)
  | loadMic =>
    refine ⟨h.stamp, h.frame, h.loud, h.fresh, h.mic, h.now, h.seenLoud, ?_⟩
    exact seenMic_eq hdvd h.mic
  | loadConnected =>
    exact ⟨h.stamp, h.frame, h.loud, h.fresh, h.mic, h.now, h.seenLoud, h.seenMic⟩
  | loadActive =>
    exact ⟨h.stamp, h.frame, h.loud, h.fresh, h.mic, h.now, h.seenLoud, h.seenMic⟩
  | ledTick =>
    exact ⟨h.stamp, h.frame, h.loud, h.fresh, h.mic, h.now, h.seenLoud, h.seenMic⟩

theorem LedInv.step (hdvd : cfg.tickHz ∣ 1000) (h : LedInv cfg x) (a : Action) :
    LedInv cfg (observe (step cfg) (recordLed cfg) x a) := by
  cases a with
  | main net => exact h.main net
  | capture mic => exact h.capture mic
  | playback muted => exact h.playback hdvd muted
  | elapse us =>
    exact ⟨h.stamp, h.frame, h.loud, h.fresh, h.mic, h.now, h.seenLoud, h.seenMic⟩
  | web cmd =>
    exact ⟨h.stamp, h.frame, h.loud, h.fresh, h.mic, h.now, h.seenLoud, h.seenMic⟩

/-! ## Ticks of the ring -/

/-- The bot is seen to speak exactly when it is due, if its stamp is clear. -/
theorem LedInv.rxClear_iff (h : LedInv cfg x) : x.2.seen.rxClear cfg x.1.play.inp ↔
    decide (sinceMs x.1.play.inp.now x.1.play.inp.lastInboundAudio < speakingHold) =
      x.2.seen.heard.any (x.2.seen.within cfg speakingHold) := by
  rw [LedSeen.rxClear]
  rcases hheard : x.2.seen.heard with _ | tick
  · rw [Option.any_none, decide_eq_false_iff_not, not_lt, sinceMs]
    simp only [Bool.or_eq_true, decide_eq_true_iff]
    split
    · rename_i hzero
      exact iff_of_true (Or.inl hzero) (by decide)
    · rename_i hstamp
      exact or_iff_right hstamp
  · have hloud : tick ∈ x.2.seen.loud := by
      rw [LedSeen.heard] at hheard
      split_ifs at hheard with hsame
      exact hheard
    have hhold : 0 ≤ speakingHold := by decide
    have hclear := LedSeen.clear_iff hhold (le_refl _) (by decide) h.now (h.seenLoud tick hloud)
    rw [and_self] at hclear
    exact hclear

/-- The mic is seen to be as recent as it is, if its stamp is clear. -/
theorem LedInv.micClear_iff (h : LedInv cfg x) : x.2.seen.micClear cfg ↔
    decide (sinceMs x.1.play.inp.now x.1.play.inp.lastMicActive < talkingHold) =
        x.2.seen.mic.any (x.2.seen.within cfg talkingHold) ∧
      decide (sinceMs x.1.play.inp.now x.1.play.inp.lastMicActive < talkingHold + thinkingMax) =
        x.2.seen.mic.any (x.2.seen.within cfg (talkingHold + thinkingMax)) := by
  have hmic := h.seenMic
  rw [LedSeen.micClear]
  rcases hseen : x.2.seen.mic with _ | tick
  · rw [hseen] at hmic
    have hnever : sinceMs x.1.play.inp.now x.1.play.inp.lastMicActive = msMax := if_pos hmic
    rw [hnever]
    exact iff_of_true rfl ⟨rfl, rfl⟩
  · rw [hseen] at hmic
    exact LedSeen.clear_iff (by decide) (by decide) (by decide) h.now hmic

/-- **A tick is right** exactly if the stamps are clear. -/
theorem LedInv.ledRight_eq (h : LedInv cfg x) (a : Action) :
    ledRight cfg x a = ledClear cfg x a := by
  cases a with
  | playback muted =>
    by_cases hpc : x.1.play.pc = .ledTick
    · rcases hconnected : x.1.play.inp.connected with _ | _
      · simp [ledRight, ledClear, hconnected]
      rcases hmuted : x.1.play.inp.muted with _ | _
      · rw [Bool.eq_iff_iff]
        simp only [ledRight, ledClear, hpc, hconnected, hmuted, resolveLedState_live, ne_eq,
          not_true, decide_false, Bool.not_true, Bool.false_or, Option.some.injEq,
          decide_eq_true_iff, Bool.and_eq_true, Bool.or_eq_true, Bool.not_eq_true',
          h.rxClear_iff, h.micClear_iff, or_assoc]
        exact LedState.live_inj thinking_of_talking (x.2.seen.thinking_of_talking cfg)
      · simp [ledRight, ledClear, hmuted]
    · simp [ledRight, ledClear, hpc]
  | _ => rfl

end

/-- Before the first step. -/
def LedHistory.start : LedHistory := ⟨0, 0, 0, none, none, ⟨0, none, 0, none, 0⟩⟩

theorem ledInv_start (cfg : Config) (us : ℕ) : LedInv cfg (start us, LedHistory.start) := by
  refine ⟨rfl, rfl, nofun, nofun, rfl, ?_, nofun, rfl⟩
  exact (congrArg (fun n : ℕ => ((n % 2 ^ 32 : ℕ) : ℤ)) cfg.ms_zero).symm

/-- **The LED states** of all ticks with a connection and without mute are those that are
due in exactly the runs where the stamps of each of these ticks are clear of the wraps, and
of other connections. -/
theorem ledRight_iff {cfg : Config} (hdvd : cfg.tickHz ∣ 1000) (us : ℕ) (as : List Action) :
    Meets (observe (step cfg) (recordLed cfg)) (ledRight cfg) (start us, LedHistory.start) as ↔
      Meets (observe (step cfg) (recordLed cfg)) (ledClear cfg) (start us, LedHistory.start)
        as := by
  have hstep : ∀ x a, LedInv cfg x → LedInv cfg (observe (step cfg) (recordLed cfg) x a) :=
    fun _ a h => h.step hdvd a
  have hguard : ∀ x a, LedInv cfg x → ledRight cfg x a = ledClear cfg x a :=
    fun _ a h => h.ledRight_eq a
  rw [meets_congr hstep hguard as (ledInv_start cfg us)]

/-- Where nothing was heard yet, the ring is rightly green. -/
theorem ledRight_iff_listening :
    Meets (observe (step device) (recordLed device)) (ledRight device) (start 0, LedHistory.start)
      (wakeFrame ++ .capture {} :: bringUp ++ List.replicate 16 (.main {}) ++
        List.replicate 6 (.playback false)) :=
  (ledRight_iff (show device.tickHz ∣ 1000 by decide) 0 _).mpr (by decide +kernel)

/-- A second before the wrap the mic is loud; five hours later, in a turn where nobody has
spoken, the ring shows that the user talks. -/
theorem ledRight_wraps :
    ¬ Meets (observe (step device) (recordLed device)) (ledRight device)
      (start ((2 ^ 32 / 10 - 100) * 10000), LedHistory.start)
      (List.replicate 8 (.capture { frame := ⟨Vector.replicate _ 0, Vector.replicate _ 5000⟩ }) ++
        .elapse (20000 * 1000000) :: wakeFrame ++ .capture {} :: bringUp ++
        List.replicate 16 (.main {}) ++ List.replicate 6 (.playback false)) := by
  decide +kernel

end PipecatVoice
