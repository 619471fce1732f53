import PipecatVoice.LedFsm

/-!
# The LED ring driver

`Ui` of `ui.cpp`: a remembered state, a hold that keeps the wake flash visible,
and an override by which the web page takes the ring over for a while. `setLed`
drops a state while an override is active, during the hold, and when it equals
the remembered one. Every method takes the driver's lock, so each is one step.
-/

namespace PipecatVoice

/-- `hal::Effect` -/
inductive Effect where
  | off
  | breath
  | rainbow
  | solid
  | doa
  deriving DecidableEq, Repr

/-- A colour. -/
structure Rgb where
  /-- red -/
  r : UInt8
  /-- green -/
  g : UInt8
  /-- blue -/
  b : UInt8
  deriving DecidableEq, Repr

/-- What the ring was last told to show. -/
structure LedRing where
  /-- the effect last commanded -/
  effect : Effect
  /-- the colour last commanded -/
  colour : Rgb
  /-- the brightness last commanded -/
  brightness : UInt8
  /-- the speed last commanded -/
  speed : UInt8
  deriving DecidableEq, Repr

/-- The driver. -/
structure Ui where
  /-- the ring -/
  ring : LedRing
  /-- the state applied last -/
  lastPushed : LedState
  /-- end of the wake flash -/
  holdUntilUs : ℕ
  /-- end of the web override, zero for none -/
  overrideUntilUs : ℕ
  /-- apply the next state even if it is the remembered one -/
  force : Bool
  deriving DecidableEq, Repr

/-- `kWakeAckHoldMs` -/
def wakeAckHoldMs : ℕ := 1200

/-- `kBrightness` -/
def ledBrightness : UInt8 := 0x80

/-- `kSpeed` -/
def ledSpeed : UInt8 := 0x40

/-- The effect of a state. -/
def ledEffect : LedState → Effect
  | .off => .off
  | .provisioning => .rainbow
  | .connecting | .negotiating | .thinking | .speaking | .error => .breath
  | .listening | .talking | .wakeAck | .muted => .solid

/-- The colour of a state; the ones without a colour leave the ring's. -/
def ledColour : LedState → Option Rgb
  | .off | .provisioning => none
  | .connecting => some ⟨0x00, 0x40, 0xFF⟩
  | .negotiating => some ⟨0x90, 0x00, 0xFF⟩
  | .listening => some ⟨0x00, 0x80, 0x10⟩
  | .talking => some ⟨0x00, 0x80, 0x80⟩
  | .thinking => some ⟨0xFF, 0x80, 0x00⟩
  | .wakeAck => some ⟨0x80, 0x80, 0x80⟩
  | .speaking => some ⟨0xFF, 0x10, 0x80⟩
  | .muted => some ⟨0x80, 0x00, 0x00⟩
  | .error => some ⟨0xFF, 0x00, 0x00⟩

namespace Ui

/-- `Ui::Ui` on a ring of any colour: the ring is told to go dark. -/
def new (colour : Rgb) : Ui where
  ring := ⟨.off, colour, ledBrightness, ledSpeed⟩
  lastPushed := .off
  holdUntilUs := 0
  overrideUntilUs := 0
  force := false

/-- `applyState` -/
def applyState (ui : Ui) (s : LedState) (now : ℕ) : Ui :=
  { ui with
    lastPushed := s
    ring := ⟨ledEffect s, (ledColour s).getD ui.ring.colour, ledBrightness, ledSpeed⟩
    holdUntilUs := if s = .wakeAck then now + wakeAckHoldMs * 1000 else ui.holdUntilUs }

/-- The driver after `overrideActive` has looked at the clock: an override that
has expired is dropped, and the next state forced. -/
def expireOverride (ui : Ui) (now : ℕ) : Ui :=
  if ui.overrideUntilUs = 0 then ui
  else if now < ui.overrideUntilUs then ui
  else { ui with overrideUntilUs := 0, force := true }

/-- What `overrideActive` returns. -/
def overrideActive (ui : Ui) (now : ℕ) : Bool :=
  ui.overrideUntilUs ≠ 0 && now < ui.overrideUntilUs

/-- `setLed` -/
def setLed (ui : Ui) (s : LedState) (now : ℕ) : Ui :=
  if ui.overrideActive now then ui
  else
    let ui := ui.expireOverride now
    if s ≠ .wakeAck ∧ now < ui.holdUntilUs then ui
    else if ui.force = false ∧ s = ui.lastPushed then ui
    else { ui with force := false }.applyState s now

/-- `overrideEffect` -/
def overrideEffect (ui : Ui) (e : Effect) (colour : Rgb) (brightness speed : UInt8)
    (holdMs now : ℕ) : Ui :=
  { ui with
    overrideUntilUs := now + holdMs * 1000
    ring := ⟨e, colour, brightness, speed⟩ }

/-- `overrideState` -/
def overrideState (ui : Ui) (s : LedState) (holdMs now : ℕ) : Ui :=
  { ui with overrideUntilUs := now + holdMs * 1000 }.applyState s now

/-- `resumeAuto` -/
def resumeAuto (ui : Ui) : Ui := { ui with overrideUntilUs := 0, force := true }

/-- `Ui::tick` -/
def tick (ui : Ui) (inp : LedInputs) (now : ℕ) : Ui :=
  match resolveLedState inp with
  | some s => ui.setLed s now
  | none => ui

end Ui

end PipecatVoice
