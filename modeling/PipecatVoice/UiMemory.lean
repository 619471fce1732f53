import PipecatVoice.IdleRing

/-!
# The ring and what its driver remembers

`Ui` keeps the state it applied last and drops a state that equals it. That is
sound as long as the ring still shows what is remembered, whatever the order of
states, ticks, overrides and resumes. A history keeps what the calls amount to:
the override that runs, whether one has ended since a state got through, and the
last wake flash.

* `callAt` — a call of the driver at a later time;
* `record` — the history;
* `Lawful` — what the ring shows, and who may change it;
* `ring_agrees` — every sequence of calls keeps to it.
-/

namespace PipecatVoice

open Runs

/-! ## Calls -/

/-- How long an override holds; the callers pass constants. -/
structure HoldMs where
  /-- `hold_ms` -/
  ms : ℕ
  /-- the hold is positive -/
  pos : 0 < ms

/-- The calls of the driver. -/
inductive UiCall where
  /-- `setLed` -/
  | setLed (s : LedState)
  /-- `tick` -/
  | tick (inp : LedInputs)
  /-- `overrideEffect` -/
  | overrideEffect (e : Effect) (colour : Rgb) (brightness speed : UInt8) (hold : HoldMs)
  /-- `overrideState` -/
  | overrideState (s : LedState) (hold : HoldMs)
  /-- `resumeAuto` -/
  | resumeAuto

/-- The driver, and the time of the last call. -/
structure UiAt where
  /-- the driver -/
  ui : Ui
  /-- when it was called last, in microseconds -/
  clock : ℕ

/-- The driver after a call at `now`. -/
def Ui.call (ui : Ui) (now : ℕ) : UiCall → Ui
  | .setLed s => ui.setLed s now
  | .tick inp => ui.tick inp now
  | .overrideEffect e colour brightness speed hold =>
    ui.overrideEffect e colour brightness speed hold.ms now
  | .overrideState s hold => ui.overrideState s hold.ms now
  | .resumeAuto => ui.resumeAuto

/-- A call, some time after the last one. -/
def callAt (x : UiAt) (a : ℕ × UiCall) : UiAt := ⟨x.ui.call (x.clock + a.1) a.2, x.clock + a.1⟩

/-! ## The history -/

/-- What the calls so far amount to. -/
structure UiHistory where
  /-- the end of the override that runs -/
  override : Option ℕ
  /-- an override has ended, and no state has got through since -/
  ended : Bool
  /-- when `WakeAck` was applied last -/
  wakeAt : Option ℕ

/-- Nothing has been called. -/
def UiHistory.start : UiHistory := ⟨none, false, none⟩

namespace UiHistory

/-- An override whose time is up has ended. -/
def upTo (h : UiHistory) (now : ℕ) : UiHistory :=
  match h.override with
  | some t => if t ≤ now then { h with override := none, ended := true } else h
  | none => h

/-- The last wake flash is still to be seen. -/
def flashing (h : UiHistory) (now : ℕ) : Bool :=
  h.wakeAt.any fun t => now < t + wakeAckHoldMs * 1000

/-- A state that is suppressed by the wake flash. -/
def suppresses (h : UiHistory) (s : LedState) (now : ℕ) : Bool := s ≠ .wakeAck && h.flashing now

/-- A state is pushed; `applied` says whether the driver applies it. -/
def pushed (h : UiHistory) (s : LedState) (applied : Bool) (now : ℕ) : UiHistory :=
  if h.override.isSome || h.suppresses s now then h
  else { h with
    ended := false
    wakeAt := if s = .wakeAck && applied then some now else h.wakeAt }

end UiHistory

theorem UiHistory.suppresses_upTo (h : UiHistory) (s : LedState) (now : ℕ) :
    (h.upTo now).suppresses s now = h.suppresses s now := by
  have hwake : (h.upTo now).wakeAt = h.wakeAt := by
    rw [upTo]
    split
    · split <;> rfl
    · rfl
  rw [suppresses, flashing, hwake]
  rfl

theorem UiHistory.pushed_of_none {h : UiHistory} (hnone : h.override = none) (s : LedState)
    (applied : Bool) (now : ℕ) :
    h.pushed s applied now = if h.suppresses s now then h
      else { h with
        ended := false
        wakeAt := if s = .wakeAck && applied then some now else h.wakeAt } := by
  rw [pushed, hnone, Option.isSome_none, Bool.false_or]

/-- `setLed` gets as far as `applyState`. -/
def Ui.applies (ui : Ui) (s : LedState) (now : ℕ) : Bool :=
  decide (ui.overrideActive now = false ∧ ¬ (s ≠ .wakeAck ∧ now < ui.holdUntilUs) ∧
    ¬ ((ui.expireOverride now).force = false ∧ s = ui.lastPushed))

/-- The history after a call. -/
def recordCall (h : UiHistory) (x : UiAt) (a : ℕ × UiCall) : UiHistory :=
  let now := x.clock + a.1
  let h := h.upTo now
  match a.2 with
  | .setLed s => h.pushed s (x.ui.applies s now) now
  | .tick inp =>
    match resolveLedState inp with
    | some s => h.pushed s (x.ui.applies s now) now
    | none => h
  | .overrideEffect _ _ _ _ hold => { h with override := some (now + hold.ms * 1000) }
  | .overrideState s hold =>
    { h with
      override := some (now + hold.ms * 1000)
      wakeAt := if s = .wakeAck then some now else h.wakeAt }
  | .resumeAuto => { h with override := none, ended := true }

/-! ## What the ring shows -/

/-- The ring shows a state. -/
structure LedRing.Shows (ring : LedRing) (s : LedState) : Prop where
  /-- its effect -/
  effect : ring.effect = ledEffect s
  /-- the one brightness -/
  brightness : ring.brightness = ledBrightness
  /-- the one speed -/
  speed : ring.speed = ledSpeed
  /-- its colour, if it has one -/
  colour : ∀ c ∈ ledColour s, ring.colour = c

/-- The calls by which the web page has the ring. -/
def UiCall.overrides : UiCall → Bool
  | .overrideEffect _ _ _ _ _ | .overrideState _ _ => true
  | _ => false

/-- The calls by which the session updates the ring. -/
def UiCall.updates : UiCall → Bool
  | .setLed _ | .tick _ => true
  | _ => false

/-- The laws of the ring, in a state of the driver and its history. -/
structure Lawful (x : UiAt × UiHistory) : Prop where
  /-- without an override, and unless the next state is forced, the ring shows what is
  remembered -/
  agrees : x.1.ui.overrideUntilUs = 0 → x.1.ui.force = false →
    x.1.ui.ring.Shows x.1.ui.lastPushed
  /-- while an override runs, updates change neither -/
  overridden : ∀ now call, x.1.clock ≤ now → (x.2.upTo now).override.isSome → call.updates →
    (x.1.ui.call now call).ring = x.1.ui.ring ∧
      (x.1.ui.call now call).lastPushed = x.1.ui.lastPushed
  /-- after an override, the first state that is not suppressed is written -/
  rewritten : ∀ now s, x.1.clock ≤ now → (x.2.upTo now).override = none →
    (x.2.upTo now).ended → x.2.suppresses s now = false →
    x.1.ui.applies s now ∧ (x.1.ui.setLed s now).ring.Shows s ∧
      (x.1.ui.setLed s now).lastPushed = s
  /-- during the wake flash only another one or an override changes the ring -/
  flash : ∀ now call, x.1.clock ≤ now → x.2.flashing now →
    (x.1.ui.call now call).ring ≠ x.1.ui.ring → call = .setLed .wakeAck ∨ call.overrides

/-! ## The driver, call by call -/

namespace Ui

variable {ui : Ui} {s : LedState} {now : ℕ}

@[simp] theorem expireOverride_lastPushed (ui : Ui) (now : ℕ) :
    (ui.expireOverride now).lastPushed = ui.lastPushed := by
  rw [expireOverride]
  split_ifs <;> rfl

@[simp] theorem expireOverride_holdUntilUs (ui : Ui) (now : ℕ) :
    (ui.expireOverride now).holdUntilUs = ui.holdUntilUs := by
  rw [expireOverride]
  split_ifs <;> rfl

/-- What is left of an override that does not run. -/
theorem expireOverride_of_inactive (h : ui.overrideActive now = false) :
    (ui.expireOverride now).overrideUntilUs = 0 ∧
      (ui.expireOverride now).force = (ui.force || decide (0 < ui.overrideUntilUs)) := by
  rw [expireOverride]
  split_ifs with hzero hlt
  · simp [hzero]
  · simp [overrideActive, hzero, hlt] at h
  · simp [Nat.pos_of_ne_zero hzero]

/-- A state that is pushed while no override runs. -/
theorem setLed_of_inactive (h : ui.overrideActive now = false) :
    ui.setLed s now = if ui.applies s now then
      { ui.expireOverride now with force := false }.applyState s now
    else ui.expireOverride now := by
  rw [setLed, if_neg (ne_true_of_eq_false h)]
  simp only [applies, expireOverride_holdUntilUs, expireOverride_lastPushed, decide_eq_true_eq]
  by_cases hheld : s ≠ .wakeAck ∧ now < ui.holdUntilUs
  · rw [if_pos hheld, if_neg fun happlies => happlies.2.1 hheld]
  · rw [if_neg hheld]
    by_cases hsame : (ui.expireOverride now).force = false ∧ s = ui.lastPushed
    · rw [if_pos hsame, if_neg fun happlies => happlies.2.2 hsame]
    · rw [if_neg hsame, if_pos ⟨h, hheld, hsame⟩]

/-- While an override runs, updates change nothing. -/
theorem call_of_overrideActive (h : ui.overrideActive now = true) {call : UiCall}
    (hupdates : call.updates) : ui.call now call = ui := by
  cases call with
  | setLed s => exact Ui.setLed_of_overrideActive h s
  | tick inp =>
    rw [Ui.call, Ui.tick]
    split
    · exact Ui.setLed_of_overrideActive h _
    · rfl
  | overrideEffect e colour brightness speed hold => cases hupdates
  | overrideState s hold => cases hupdates
  | resumeAuto => cases hupdates

/-- During a wake flash only another one or an override changes the ring. -/
theorem call_of_flash (h : now < ui.holdUntilUs) {call : UiCall}
    (hchanged : (ui.call now call).ring ≠ ui.ring) : call = .setLed .wakeAck ∨ call.overrides := by
  have hkept : ∀ s, (ui.setLed s now).ring ≠ ui.ring → s = .wakeAck := by
    intro s hring
    by_contra hs
    apply hring
    exact Ui.setLed_of_held (by rw [Ui.held, decide_eq_true h, Bool.or_true]) hs
  cases call with
  | setLed s => exact Or.inl (congrArg UiCall.setLed (hkept s hchanged))
  | tick inp =>
    simp only [Ui.call, Ui.tick] at hchanged
    split at hchanged
    · rename_i s hresolve
      exact absurd (hkept s hchanged) (resolveLedState_ne_wakeAck hresolve)
    · exact absurd rfl hchanged
  | overrideEffect e colour brightness speed hold => exact Or.inr rfl
  | overrideState s hold => exact Or.inr rfl
  | resumeAuto => exact absurd rfl hchanged

theorem shows_applyState (ui : Ui) (s : LedState) (now : ℕ) :
    (ui.applyState s now).ring.Shows s where
  effect := rfl
  brightness := rfl
  speed := rfl
  colour c hc := by
    simp only [applyState, Option.mem_def.mp hc, Option.getD_some]

end Ui

/-! ## The invariant -/

/-- What the history says of the driver. -/
structure MemoryInv (x : UiAt × UiHistory) : Prop where
  /-- the ring shows what is remembered -/
  agrees : x.1.ui.overrideUntilUs = 0 → x.1.ui.force = false →
    x.1.ui.ring.Shows x.1.ui.lastPushed
  /-- an override that runs is the driver's -/
  running : ∀ t, x.2.override = some t → x.1.ui.overrideUntilUs = t ∧ x.1.clock < t
  /-- without one the driver has none, or one whose time is up -/
  idle : x.2.override = none → x.1.ui.overrideUntilUs ≤ x.1.clock
  /-- after one the next state is forced, now or as soon as the driver looks -/
  ended : x.2.override = none → x.2.ended → x.1.ui.force ∨ 0 < x.1.ui.overrideUntilUs
  /-- the driver holds the last wake flash -/
  hold : x.1.ui.holdUntilUs = (x.2.wakeAt.map (· + wakeAckHoldMs * 1000)).getD 0

namespace MemoryInv

variable {x : UiAt × UiHistory}

theorem start (colour : Rgb) (clock : ℕ) :
    MemoryInv (⟨Ui.new colour, clock⟩, UiHistory.start) where
  agrees _ _ := ⟨rfl, rfl, rfl, fun c hc => by cases hc⟩
  running t ht := by cases ht
  idle _ := Nat.zero_le clock
  ended _ hended := by cases hended
  hold := rfl

/-- **Time passes.** -/
theorem wait (h : MemoryInv x) {now : ℕ} (hnow : x.1.clock ≤ now) :
    MemoryInv (⟨x.1.ui, now⟩, x.2.upTo now) := by
  rcases hoverride : x.2.override with _ | t
  · have hsame : x.2.upTo now = x.2 := by rw [UiHistory.upTo, hoverride]
    rw [hsame]
    refine ⟨h.agrees, fun t ht => ?_, fun _ => (h.idle hoverride).trans hnow, h.ended, h.hold⟩
    rw [hoverride] at ht
    cases ht
  · obtain ⟨huntil, hlt⟩ := h.running t hoverride
    by_cases hover : t ≤ now
    · have hended : x.2.upTo now = { x.2 with override := none, ended := true } := by
        rw [UiHistory.upTo, hoverride]
        exact if_pos hover
      rw [hended]
      refine ⟨h.agrees, fun t ht => (by cases ht), fun _ => huntil.trans_le hover,
        fun _ _ => ?_, h.hold⟩
      right
      rw [huntil]
      exact (Nat.zero_le _).trans_lt hlt
    · have hsame : x.2.upTo now = x.2 := by
        rw [UiHistory.upTo, hoverride]
        exact if_neg hover
      rw [hsame]
      refine ⟨h.agrees, fun t' ht' => ?_, fun hnone => ?_, fun hnone => ?_, h.hold⟩
      · rw [hoverride] at ht'
        cases ht'
        exact ⟨huntil, not_le.mp hover⟩
      · rw [hoverride] at hnone
        cases hnone
      · rw [hoverride] at hnone
        cases hnone

/-- Whether the driver has an override is what the history says. -/
theorem overrideActive_eq (h : MemoryInv x) :
    x.1.ui.overrideActive x.1.clock = x.2.override.isSome := by
  rcases hoverride : x.2.override with _ | t
  · have hle := h.idle hoverride
    rw [Ui.overrideActive, decide_eq_false (not_lt.mpr hle), Bool.and_false]
    rfl
  · obtain ⟨huntil, hlt⟩ := h.running t hoverride
    rw [Ui.overrideActive, huntil, decide_eq_true hlt, Bool.and_true]
    exact decide_eq_true (Nat.ne_of_gt ((Nat.zero_le _).trans_lt hlt))

/-- Whether the driver holds a wake flash is what the history says. -/
theorem lt_holdUntilUs_iff (h : MemoryInv x) (now : ℕ) :
    now < x.1.ui.holdUntilUs ↔ x.2.flashing now = true := by
  rw [h.hold, UiHistory.flashing]
  cases x.2.wakeAt with
  | none => exact ⟨fun hlt => absurd hlt (Nat.not_lt_zero now), fun hflash => by cases hflash⟩
  | some t => rw [Option.map_some, Option.getD_some, Option.any_some, decide_eq_true_iff]

/-- The driver has looked at the clock. -/
theorem expire (h : MemoryInv x) (hnone : x.2.override = none) :
    MemoryInv (⟨x.1.ui.expireOverride x.1.clock, x.1.clock⟩, x.2) := by
  have hinactive : x.1.ui.overrideActive x.1.clock = false := by
    rw [h.overrideActive_eq, hnone]
    rfl
  obtain ⟨hzero, hforce⟩ := Ui.expireOverride_of_inactive hinactive
  refine ⟨fun _ hunforced => ?_, fun t ht => ?_, fun _ => ?_, fun _ hended => ?_, ?_⟩
  · simp only [hforce, Bool.or_eq_false_iff, decide_eq_false_iff_not, not_lt,
      Nat.le_zero] at hunforced
    simp only [Ui.expireOverride_ring, Ui.expireOverride_lastPushed]
    exact h.agrees hunforced.2 hunforced.1
  · rw [hnone] at ht
    cases ht
  · exact hzero.trans_le (Nat.zero_le _)
  · left
    rw [hforce, Bool.or_eq_true, decide_eq_true_eq]
    exact h.ended hnone hended
  · simp only [Ui.expireOverride_holdUntilUs]
    exact h.hold

/-- Whether the driver suppresses a state is what the history says. -/
theorem suppresses_iff (h : MemoryInv x) (s : LedState) (now : ℕ) :
    x.2.suppresses s now = true ↔ s ≠ .wakeAck ∧ now < x.1.ui.holdUntilUs := by
  rw [UiHistory.suppresses, Bool.and_eq_true, decide_eq_true_iff, h.lt_holdUntilUs_iff]

/-- **A state is applied.** -/
theorem apply (h : MemoryInv x) (hnone : x.2.override = none) (ui : Ui)
    (hzero : ui.overrideUntilUs = 0) (hhold : ui.holdUntilUs = x.1.ui.holdUntilUs)
    (s : LedState) :
    MemoryInv (⟨ui.applyState s x.1.clock, x.1.clock⟩, { x.2 with
      ended := false, wakeAt := if s = .wakeAck then some x.1.clock else x.2.wakeAt }) := by
  refine ⟨fun _ _ => Ui.shows_applyState _ _ _, fun t ht => ?_, fun _ => ?_,
    fun _ hended => (by cases hended), ?_⟩
  · rw [hnone] at ht
    cases ht
  · exact hzero.trans_le (Nat.zero_le _)
  · by_cases hwake : s = .wakeAck
    · simp only [Ui.applyState, if_pos hwake, Option.map_some, Option.getD_some]
    · simp only [Ui.applyState, if_neg hwake]
      exact hhold.trans h.hold

/-- **A state is pushed.** -/
theorem push (h : MemoryInv x) (s : LedState) :
    MemoryInv (⟨x.1.ui.setLed s x.1.clock, x.1.clock⟩,
      x.2.pushed s (x.1.ui.applies s x.1.clock) x.1.clock) := by
  have hactive := h.overrideActive_eq
  rcases hoverride : x.2.override with _ | t
  · rw [hoverride] at hactive
    have hexpired := h.expire hoverride
    rw [Ui.setLed_of_inactive hactive, UiHistory.pushed_of_none hoverride]
    by_cases happlies : x.1.ui.applies s x.1.clock = true
    · have hpasses : ¬ x.2.suppresses s x.1.clock = true := fun hsuppressed =>
        (of_decide_eq_true happlies).2.1 ((h.suppresses_iff s _).mp hsuppressed)
      rw [if_pos happlies, if_neg hpasses, happlies, Bool.and_true]
      simp only [decide_eq_true_eq]
      exact h.apply hoverride { x.1.ui.expireOverride x.1.clock with force := false }
        (Ui.expireOverride_of_inactive hactive).1 (Ui.expireOverride_holdUntilUs _ _) s
    · rw [if_neg happlies, eq_false_of_ne_true happlies, Bool.and_false]
      split
      · exact hexpired
      · exact ⟨hexpired.agrees, hexpired.running, hexpired.idle,
          fun _ hended => (by cases hended), hexpired.hold⟩
  · rw [hoverride] at hactive
    rw [Ui.setLed_of_overrideActive hactive, UiHistory.pushed, hoverride]
    exact h

/-- **One call.** -/
theorem step (h : MemoryInv x) (a : ℕ × UiCall) : MemoryInv (observe callAt recordCall x a) := by
  obtain ⟨elapsed, call⟩ := a
  have hnow := h.wait (Nat.le_add_right x.1.clock elapsed)
  cases call with
  | setLed s => exact hnow.push s
  | tick inp =>
    cases hresolve : resolveLedState inp with
    | none =>
      simp only [observe, callAt, recordCall, Ui.call, Ui.tick, hresolve]
      exact hnow
    | some s =>
      simp only [observe, callAt, recordCall, Ui.call, Ui.tick, hresolve]
      exact hnow.push s
  | overrideEffect e colour brightness speed hold =>
    have hpos := hold.pos
    refine ⟨fun hzero => ?_, fun t ht => ?_, fun hnone => (by cases hnone),
      fun hnone => (by cases hnone), hnow.hold⟩
    · simp only [observe, callAt, Ui.call, Ui.overrideEffect] at hzero
      omega
    · cases ht
      refine ⟨rfl, ?_⟩
      simp only [observe, callAt]
      omega
  | overrideState s hold =>
    have hpos := hold.pos
    refine ⟨fun _ _ => Ui.shows_applyState _ _ _, fun t ht => ?_, fun hnone => (by cases hnone),
      fun hnone => (by cases hnone), ?_⟩
    · cases ht
      refine ⟨rfl, ?_⟩
      simp only [observe, callAt]
      omega
    · by_cases hwake : s = .wakeAck
      · simp only [observe, callAt, recordCall, Ui.call, Ui.overrideState, Ui.applyState,
          if_pos hwake, Option.map_some, Option.getD_some]
      · simp only [observe, callAt, recordCall, Ui.call, Ui.overrideState, Ui.applyState,
          if_neg hwake]
        exact hnow.hold
  | resumeAuto =>
    refine ⟨fun _ hunforced => (by cases hunforced), fun t ht => (by cases ht),
      fun _ => Nat.zero_le _, fun _ _ => Or.inl rfl, hnow.hold⟩

/-- After an override the next state that is not suppressed is applied. -/
theorem applies_of_ended (h : MemoryInv x) (hnone : x.2.override = none) (hended : x.2.ended)
    {s : LedState} (hpasses : x.2.suppresses s x.1.clock = false) :
    x.1.ui.applies s x.1.clock = true := by
  have hactive := h.overrideActive_eq
  rw [hnone] at hactive
  refine decide_eq_true ⟨hactive, fun hheld => ?_, fun hsame => ?_⟩
  · rw [← h.suppresses_iff, hpasses] at hheld
    cases hheld
  · have hforced := h.ended hnone hended
    rw [← decide_eq_true_iff (p := 0 < x.1.ui.overrideUntilUs), ← Bool.or_eq_true,
      ← (Ui.expireOverride_of_inactive hactive).2, hsame.1] at hforced
    cases hforced

theorem lawful (h : MemoryInv x) : Lawful x where
  agrees := h.agrees
  overridden now call hnow hrunning hupdates := by
    have hactive := (h.wait hnow).overrideActive_eq
    rw [hrunning] at hactive
    rw [Ui.call_of_overrideActive hactive hupdates]
    exact ⟨rfl, rfl⟩
  rewritten now s hnow hnone hended hpasses := by
    have hwait := h.wait hnow
    rw [← UiHistory.suppresses_upTo] at hpasses
    have happlies := hwait.applies_of_ended hnone hended hpasses
    have hactive := hwait.overrideActive_eq
    rw [hnone] at hactive
    refine ⟨happlies, ?_⟩
    rw [Ui.setLed_of_inactive hactive, if_pos happlies]
    exact ⟨Ui.shows_applyState _ _ _, rfl⟩
  flash now _ _ hflash hchanged :=
    Ui.call_of_flash ((h.lt_holdUntilUs_iff now).mpr hflash) hchanged

end MemoryInv

/-- **The ring agrees with its driver's memory**, whatever the order of states, ticks,
overrides and resumes. -/
theorem ring_agrees (colour : Rgb) (clock : ℕ) (calls : List (ℕ × UiCall)) :
    Lawful (run (observe callAt recordCall) (⟨Ui.new colour, clock⟩, UiHistory.start) calls) := by
  apply MemoryInv.lawful
  exact run_induct (fun x a h => h.step a) calls (MemoryInv.start colour clock)

end PipecatVoice
