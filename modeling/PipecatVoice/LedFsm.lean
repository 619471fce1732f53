import Mathlib.Data.Int.Notation
import Mathlib.Data.Nat.Notation

/-!
# Which state the LED ring shows

`led_fsm.cpp`: the time-stamped inputs of a live session resolved to one LED
state. Without a connection it declines to set anything.
-/

namespace PipecatVoice

/-- `LedState` -/
inductive LedState where
  | off
  | provisioning
  | connecting
  | negotiating
  | listening
  | talking
  | thinking
  | wakeAck
  | speaking
  | muted
  | error
  deriving DecidableEq, Repr

/-- `LedInputs`, with times in milliseconds. -/
structure LedInputs where
  /-- the time of the tick -/
  now : ℤ
  /-- the last energetic inbound frame, zero for none -/
  lastInboundAudio : ℤ
  /-- the last time the local mic was loud, zero for none -/
  lastMicActive : ℤ
  /-- the peer is past the handshake -/
  connected : Bool
  /-- the hardware mute switch -/
  muted : Bool
  /-- a turn is in progress -/
  conversationActive : Bool

/-- `SPEAKING_HOLD` -/
def speakingHold : ℤ := 2500

/-- `TALKING_HOLD` -/
def talkingHold : ℤ := 1500

/-- `THINKING_MAX` -/
def thinkingMax : ℤ := 15000

/-- `Ms::max()`: what counts as the age of a time stamp that was never set. -/
def msMax : ℤ := 0x7FFFFFFFFFFFFFFF

/-- The age of a time stamp. -/
def sinceMs (now stamp : ℤ) : ℤ := if stamp = 0 then msMax else now - stamp

/-- `resolveLedState` -/
def resolveLedState (inp : LedInputs) : Option LedState :=
  let sinceRx := sinceMs inp.now inp.lastInboundAudio
  let sinceMic := sinceMs inp.now inp.lastMicActive
  if !inp.connected then none
  else if inp.muted then some .muted
  else if sinceRx < speakingHold then some .speaking
  -- no conversation: the ring stays dark
  else if !inp.conversationActive then some .off
  else if sinceMic < talkingHold then some .talking
  else if sinceMic < talkingHold + thinkingMax then some .thinking
  else some .listening

end PipecatVoice
