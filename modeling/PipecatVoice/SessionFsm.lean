import Mathlib.Data.Nat.Notation

/-!
# The session lifecycle

`session_fsm.cpp`: one enumeration and one transition function. An event without
a transition leaves the state alone.
-/

namespace PipecatVoice

/-- `SessionState` -/
inductive SessionState where
  | idle
  | connecting
  | negotiating
  | live
  | reconnecting
  deriving DecidableEq, Repr

/-- `SessionEvent` -/
inductive SessionEvent where
  | wifiUp
  | wifiDown
  | signalingStarted
  | peerLive
  | peerLost
  | retryTick
  deriving DecidableEq, Repr

/-- `SessionFsm::onEvent` -/
def SessionState.onEvent (s : SessionState) : SessionEvent → SessionState
  | .wifiDown => .idle
  | .peerLost =>
    match s with
    | .negotiating | .live | .reconnecting => .reconnecting
    | .idle | .connecting => s
  | .wifiUp => if s = .idle then .connecting else s
  | .signalingStarted => if s = .connecting then .negotiating else s
  | .peerLive => if s = .negotiating then .live else s
  | .retryTick => if s = .reconnecting then .connecting else s

end PipecatVoice
