import PipecatVoice.EnergyGate
import PipecatVoice.G722
import PipecatVoice.Lib.RingBuf
import PipecatVoice.Lib.Runs
import PipecatVoice.SessionFsm
import PipecatVoice.Ui

/-!
# The session

`Session` of `session.cpp` and the parts of `peer.cpp` and libpeer's
`peer_connection.c` it drives. Three tasks run between `start` and `stop`: the
main loop, which builds, pumps and tears down the peer; the capture task, which
arms and ends turns and sends the uplink; the playback task, which ticks the LED
ring.

A task is a program counter and its locals. One step of a task is one atomic
access: a load or store of a shared variable, a read of the tick counter, a lock
or unlock of `peer_mtx_`, one call into the codec, the ring or the peer. A task
that waits for the mutex stays where it is. The state callback runs inside
`Peer::tick`, before libpeer stores the new state.

* `mainStep`, `captureStep`, `playbackStep` — the tasks;
* `step` — one action of a task, of the web page, or of the clock;
* `start` — the state `Session::start` leaves.
-/

namespace PipecatVoice

/-! ## Tuning constants, in milliseconds -/

/-- `kConnectTimeoutMs` -/
def connectTimeoutMs : ℕ := 12000

/-- `kMediaDeadMs` -/
def mediaDeadMs : ℕ := 5000

/-- `kMaxReconnectsPerTurn` -/
def maxReconnectsPerTurn : ℕ := 3

/-- `kSpeakingPcmThreshold`, a sample value -/
def speakingPcmThreshold : ℕ := 1000

/-- `kMicActiveRmsThreshold`, a sample value -/
def micActiveRmsThreshold : UInt32 := 4000

/-- `kEchoGuardMs` -/
def echoGuardMs : ℕ := 400

/-- `kAwaitResponseMs` -/
def awaitResponseMs : ℕ := 20000

/-- `kPostResponseSilenceMs` -/
def postResponseSilenceMs : ℕ := 15000

/-- `kFramesPerPacket` -/
def framesPerPacket : ℕ := 320

/-- `kRingPkts` -/
def ringPkts : ℕ := 400

/-- Octets of one inbound payload that fit the decode buffer (`kMaxBytes`). -/
def maxPayload : ℕ := 1024

/-- `kHoldMs` of the web page's LED test. -/
def webHoldMs : ℕ := 60000

/-- How long an upload shows the rainbow. -/
def otaHoldMs : ℕ := 120000

/-! ## Time -/

/-- What the build and the boot decide. -/
structure Config where
  /-- `configTICK_RATE_HZ` -/
  tickHz : ℕ
  /-- the tick counter runs -/
  tickHz_pos : 0 < tickHz
  /-- a tick is a millisecond or more -/
  tickHz_le : tickHz ≤ 1000
  /-- the uplink backlog could be allocated -/
  ringOk : Bool

/-- `xTaskGetTickCount` at a time since boot; the counter has 32 bits. -/
def Config.tickAt (cfg : Config) (us : ℕ) : UInt32 := UInt32.ofNat (us * cfg.tickHz / 1000000)

/-- `pdMS_TO_TICKS` -/
def Config.msToTicks (cfg : Config) (ms : ℕ) : UInt32 := UInt32.ofNat (ms * cfg.tickHz / 1000)

/-- `pdTICKS_TO_MS` -/
def Config.ticksToMs (cfg : Config) (t : UInt32) : UInt32 :=
  UInt32.ofNat (t.toNat * 1000 / cfg.tickHz)

/-! ## The peer -/

/-- `PeerConnectionState` -/
inductive PeerState where
  | new
  | checking
  | connected
  | completed
  | failed
  | disconnected
  | closed
  deriving DecidableEq, Repr

/-- A `Peer` and the libpeer connection it owns. -/
structure Peer where
  /-- tells the peers of a run apart -/
  id : ℕ
  /-- libpeer's `pc->state` -/
  state : PeerState
  /-- an answer is parked for the next tick -/
  pendingAnswer : Bool
  deriving DecidableEq, Repr

/-- `Peer::sendAudio`: what it returns. -/
def Peer.sendAudio (p : Peer) : ℤ := if p.state = .completed then 0 else -1

/-! ## Shared state -/

/-- The tasks that take `peer_mtx_`. -/
inductive Task where
  | main
  | capture
  deriving DecidableEq, Repr

/-- The members more than one task touches. -/
structure Shared where
  /-- `conversation_active_` -/
  conversationActive : Bool
  /-- `connected_` -/
  connected : Bool
  /-- `peer_dead_` -/
  peerDead : Bool
  /-- `bot_replied_` -/
  botReplied : Bool
  /-- `last_rx_frame_tick_` -/
  lastRxFrameTick : UInt32
  /-- `last_rx_pkt_tick_` -/
  lastRxPktTick : UInt32
  /-- `last_mic_active_tick_` -/
  lastMicActiveTick : UInt32
  /-- `turn_deadline_` -/
  turnDeadline : UInt32
  /-- the owner of `peer_mtx_` -/
  peerMtx : Option Task
  /-- `peer_` -/
  peer : Option Peer
  /-- peers built so far -/
  built : ℕ
  /-- `ui_` -/
  ui : Ui

/-! ## The main loop -/

/-- Where the main loop is. -/
inductive MainPc where
  -- the head of an iteration
  | top
  | sample
  -- `want && !have`: bring a session up
  | connectBegin
  | buildReset
  | buildCreate
  | buildOffer
  | abandon
  | abandonLock
  | abandonReset
  | abandonUnlock
  -- `!want && have`: tear the session down
  | downLock
  | downClear
  | downReset
  | downUnlock
  | downLed
  -- `want && have`: watch the connection
  | liveConnected
  | liveRxPkt
  | liveDead
  | lostLed
  | lostLock
  | lostClear
  | lostReset
  | lostUnlock
  | giveUp
  | stallTest
  | stall
  -- `Peer::tick`
  | tick
  | consent
  | answer
  | storeState (st : PeerState)
  -- `onPeerState`
  | cbLed (st : PeerState)
  | cbConnected
  | cbRxFrame
  | cbPktNow
  | cbPkt
  | cbAlive
  | cbNow
  | cbDeadline
  | cbLost (st : PeerState)
  | cbDead (st : PeerState)
  | cbLostLed (st : PeerState)
  -- `onInboundAudio`
  | rxPktNow
  | rxPkt
  | rxNow
  | rxFrame
  | rxReplied
  | rxDeadline
  -- the end of an iteration
  | delay
  deriving DecidableEq, Repr

/-- The main loop's locals, and the members only it touches. -/
structure MainTask where
  /-- the program counter -/
  pc : MainPc
  /-- tick at the head of the iteration -/
  now : UInt32
  /-- `prev_want` -/
  prevWant : Bool
  /-- `connect_started` -/
  connectStarted : UInt32
  /-- `reconnects` -/
  reconnects : ℕ
  /-- `media_dead` -/
  mediaDead : Bool
  /-- a tick read on its way into a store -/
  stamp : UInt32
  /-- the inbound payload being handled -/
  payload : List UInt8
  /-- `g722_dec_` -/
  g722Dec : G722Codec
  /-- `fsm_` -/
  fsm : SessionState

/-- How the connectivity checks went. -/
inductive IceOutcome where
  | pending
  | failed
  | connected
  deriving DecidableEq, Repr

/-- What the network and libpeer's internals bring to a step of the main loop. -/
structure Net where
  /-- `Peer::create` succeeds -/
  created : Bool := false
  /-- `sendOffer` brings an answer -/
  answered : Bool := false
  /-- the connectivity checks -/
  ice : IceOutcome := .pending
  /-- the handshake is done -/
  handshake : Bool := false
  /-- the payload of an inbound audio packet; empty for none -/
  audio : List UInt8 := []
  /-- the binding requests have timed out -/
  consentLost : Bool := false

/-- The entry of `onPeerState` for a state. -/
def callbackPc : PeerState → MainPc
  | .new => .cbLed .new
  | .checking => .cbLed .checking
  | .connected => .cbLed .connected
  | .completed => .cbConnected
  | .failed => .cbLost .failed
  | .disconnected => .cbLost .disconnected
  | .closed => .cbLost .closed

/-- `peer_connection_loop`: where the main loop goes for a peer state. -/
def peerLoop (net : Net) : PeerState → MainPc
  | .checking =>
    match net.ice with
    | .failed => callbackPc .failed
    | .connected => callbackPc .connected
    | .pending => .answer
  | .connected => if net.handshake then callbackPc .completed else .answer
  | .completed => if net.audio = [] then .consent else .rxPktNow
  | .new | .failed | .disconnected | .closed => .answer

/-- The branch of an iteration, by `want` and `have`. -/
def branchPc (want have_ : Bool) : MainPc :=
  match want, have_ with
  | true, false => .connectBegin
  | false, true => .downLock
  | true, true => .liveConnected
  | false, false => .tick

/-- One step of the main loop. -/
def mainStep (cfg : Config) (us : ℕ) (net : Net) (sh : Shared) (m : MainTask) :
    Shared × MainTask :=
  match m.pc with
  | .top => (sh, { m with now := cfg.tickAt us, pc := .sample })
  | .sample =>
    let want := sh.conversationActive
    (sh, { m with
      reconnects := if want && !m.prevWant then 0 else m.reconnects
      prevWant := want
      pc := branchPc want sh.peer.isSome })
  -- bring a session up
  | .connectBegin =>
    ({ sh with peerDead := false }, { m with connectStarted := m.now, pc := .buildReset })
  | .buildReset => ({ sh with peer := none }, { m with pc := .buildCreate })
  | .buildCreate =>
    if net.created then
      -- the connection is calloc'ed, and CLOSED is the enumeration's zero
      ({ sh with peer := some ⟨sh.built, .closed, false⟩, built := sh.built + 1 },
        { m with g722Dec := g722Init, pc := .buildOffer })
    else (sh, { m with pc := .abandon })
  | .buildOffer =>
    -- the signaling request has returned
    if net.answered then
      ({ sh with peer := sh.peer.map fun p => { p with pendingAnswer := true } },
        { m with pc := .tick })
    else ({ sh with conversationActive := false }, { m with pc := .tick })
  | .abandon => ({ sh with conversationActive := false }, { m with pc := .abandonLock })
  | .abandonLock =>
    if sh.peerMtx = none then
      ({ sh with peerMtx := some .main }, { m with pc := .abandonReset })
    else (sh, m)
  | .abandonReset => ({ sh with peer := none }, { m with pc := .abandonUnlock })
  | .abandonUnlock => ({ sh with peerMtx := none }, { m with pc := .tick })
  -- tear the session down
  | .downLock =>
    if sh.peerMtx = none then ({ sh with peerMtx := some .main }, { m with pc := .downClear })
    else (sh, m)
  | .downClear => ({ sh with connected := false }, { m with pc := .downReset })
  | .downReset => ({ sh with peer := none }, { m with pc := .downUnlock })
  | .downUnlock => ({ sh with peerMtx := none }, { m with pc := .downLed })
  | .downLed => ({ sh with ui := sh.ui.setLed .off us }, { m with pc := .tick })
  -- watch the connection
  | .liveConnected =>
    (sh, { m with
      mediaDead := false
      pc := if sh.connected then .liveRxPkt else .liveDead })
  | .liveRxPkt =>
    (sh, { m with
      mediaDead := cfg.msToTicks mediaDeadMs < m.now - sh.lastRxPktTick
      pc := .liveDead })
  | .liveDead =>
    if sh.peerDead || m.mediaDead then
      if m.reconnects < maxReconnectsPerTurn then
        (sh, { m with reconnects := m.reconnects + 1, pc := .lostLed })
      else (sh, { m with pc := .giveUp })
    else (sh, { m with pc := .stallTest })
  | .lostLed => ({ sh with ui := sh.ui.setLed .negotiating us }, { m with pc := .lostLock })
  | .lostLock =>
    if sh.peerMtx = none then ({ sh with peerMtx := some .main }, { m with pc := .lostClear })
    else (sh, m)
  | .lostClear => ({ sh with connected := false }, { m with pc := .lostReset })
  | .lostReset => ({ sh with peer := none }, { m with pc := .lostUnlock })
  | .lostUnlock => ({ sh with peerMtx := none }, { m with pc := .tick })
  | .giveUp => ({ sh with conversationActive := false }, { m with pc := .tick })
  | .stallTest =>
    (sh, { m with
      pc := if !sh.connected && cfg.msToTicks connectTimeoutMs < m.now - m.connectStarted
        then .stall else .tick })
  | .stall => ({ sh with conversationActive := false }, { m with pc := .tick })
  -- pump the peer
  | .tick =>
    match sh.peer with
    | none => (sh, { m with pc := .delay })
    | some p => (sh, { m with payload := net.audio.take maxPayload, pc := peerLoop net p.state })
  | .consent => (sh, { m with pc := if net.consentLost then callbackPc .closed else .answer })
  | .answer =>
    match sh.peer with
    | none => (sh, { m with pc := .delay })
    | some p =>
      if p.pendingAnswer then
        ({ sh with peer := some { p with pendingAnswer := false } },
          { m with pc := if p.state = .checking then .delay else callbackPc .checking })
      else (sh, { m with pc := .delay })
  | .storeState st =>
    ({ sh with peer := sh.peer.map fun p => { p with state := st } },
      { m with pc := if st = .checking then .delay else .answer })
  -- the peer's state is about to change
  | .cbLed st => ({ sh with ui := sh.ui.setLed .negotiating us }, { m with pc := .storeState st })
  | .cbConnected => ({ sh with connected := true }, { m with pc := .cbRxFrame })
  | .cbRxFrame => ({ sh with lastRxFrameTick := 0 }, { m with pc := .cbPktNow })
  | .cbPktNow => (sh, { m with stamp := cfg.tickAt us, pc := .cbPkt })
  | .cbPkt => ({ sh with lastRxPktTick := m.stamp }, { m with pc := .cbAlive })
  | .cbAlive => ({ sh with peerDead := false }, { m with pc := .cbNow })
  | .cbNow => (sh, { m with stamp := cfg.tickAt us, pc := .cbDeadline })
  | .cbDeadline =>
    ({ sh with turnDeadline := m.stamp + cfg.msToTicks awaitResponseMs },
      { m with fsm := m.fsm.onEvent .peerLive, pc := .storeState .completed })
  | .cbLost st => ({ sh with connected := false }, { m with pc := .cbDead st })
  | .cbDead st => ({ sh with peerDead := true }, { m with pc := .cbLostLed st })
  | .cbLostLed st =>
    ({ sh with ui := sh.ui.setLed .negotiating us },
      { m with fsm := m.fsm.onEvent .peerLost, pc := .storeState st })
  -- an inbound audio packet
  | .rxPktNow => (sh, { m with stamp := cfg.tickAt us, pc := .rxPkt })
  | .rxPkt =>
    let decoded := g722Decode m.g722Dec m.payload
    ({ sh with lastRxPktTick := m.stamp },
      { m with
        g722Dec := decoded.1
        pc := if peakAbsI16 decoded.2 ≥ speakingPcmThreshold then .rxNow else .consent })
  | .rxNow => (sh, { m with stamp := cfg.tickAt us, pc := .rxFrame })
  | .rxFrame => ({ sh with lastRxFrameTick := m.stamp }, { m with pc := .rxReplied })
  | .rxReplied => ({ sh with botReplied := true }, { m with pc := .rxDeadline })
  | .rxDeadline =>
    ({ sh with turnDeadline := m.stamp + cfg.msToTicks postResponseSilenceMs },
      { m with pc := .consent })
  | .delay => (sh, { m with pc := .top })

/-! ## The capture task -/

/-- Where the capture task is. -/
inductive CapturePc where
  | read
  | readNow
  | loadRx
  -- the user speaks
  | storeMic
  | testActive
  | testReplied
  | extend
  -- the wake word
  | wake
  | ackLed
  | resetEnc
  | resetReplied
  | arm
  -- the turn's end
  | testTurn
  | testDeadline
  | endTurn
  -- the uplink
  | gate
  | encode
  | loadConnected
  | lock
  | testPeer
  | send (budget : ℕ)
  | sendLive
  | unlock
  deriving DecidableEq, Repr

/-- One 20 ms frame of the mic, at its two gains. -/
structure MicFrame where
  /-- `mono_uplink` -/
  uplink : Vector Int16 framesPerPacket
  /-- `mono_wake` -/
  wake : Vector Int16 framesPerPacket

/-- The silent frame. -/
def MicFrame.zero : MicFrame := ⟨Vector.replicate _ 0, Vector.replicate _ 0⟩

/-- `zero_pcm` -/
def zeroPcm : List Int16 := List.replicate framesPerPacket 0

/-- What the mic, the wake engine and the mute switch bring to a step of the
capture task. -/
structure Mic where
  /-- the frame read -/
  frame : MicFrame := .zero
  /-- the wake engine has fired -/
  fired : Bool := false
  /-- the mute switch is on -/
  muted : Bool := false

/-- A packet of G.722 octets. -/
abbrev Packet := List UInt8

/-- The capture task's locals, and the member only it touches. -/
structure CaptureTask where
  /-- the program counter -/
  pc : CapturePc
  /-- the frame being handled -/
  frame : MicFrame
  /-- the tick of the frame -/
  now : UInt32
  /-- `bot_speaking` -/
  botSpeaking : Bool
  /-- `g722_enc_` -/
  g722Enc : G722Codec
  /-- the packet encoded last (`wire_buf`) -/
  wireBuf : Packet
  /-- the uplink backlog -/
  ring : RingBuf Packet ringPkts

/-- `bot_speaking`: an energetic inbound frame within the echo guard. -/
def botSpeaking (cfg : Config) (now rx : UInt32) : Bool :=
  rx != 0 && decide (now - rx < cfg.msToTicks echoGuardMs)

/-- The user is loud enough to count as speaking. -/
def micLoud (frame : MicFrame) : Bool := decide (micActiveRmsThreshold ≤ rmsI16 frame.wake.toList)

/-- The PCM a frame is encoded from. -/
def uplinkSource (c : CaptureTask) (muted : Bool) : List Int16 :=
  if !c.botSpeaking && !muted then c.frame.uplink.toList else zeroPcm

/-- One step of the capture task. -/
def captureStep (cfg : Config) (us : ℕ) (mic : Mic) (sh : Shared) (c : CaptureTask) :
    Shared × CaptureTask :=
  match c.pc with
  | .read => (sh, { c with frame := mic.frame, pc := .readNow })
  | .readNow => (sh, { c with now := cfg.tickAt us, pc := .loadRx })
  | .loadRx =>
    let speaking := botSpeaking cfg c.now sh.lastRxFrameTick
    (sh, { c with
      botSpeaking := speaking
      pc := if !speaking && micLoud c.frame then .storeMic else .wake })
  | .storeMic => ({ sh with lastMicActiveTick := c.now }, { c with pc := .testActive })
  | .testActive => (sh, { c with pc := if sh.conversationActive then .testReplied else .wake })
  | .testReplied => (sh, { c with pc := if sh.botReplied then .wake else .extend })
  | .extend =>
    ({ sh with turnDeadline := c.now + cfg.msToTicks awaitResponseMs }, { c with pc := .wake })
  | .wake =>
    if mic.fired then
      ({ sh with conversationActive := true },
        { c with pc := if sh.conversationActive then .arm else .ackLed })
    else (sh, { c with pc := .testTurn })
  | .ackLed => ({ sh with ui := sh.ui.setLed .wakeAck us }, { c with pc := .resetEnc })
  | .resetEnc =>
    (sh, { c with g722Enc := g722Init, ring := c.ring.clear, pc := .resetReplied })
  | .resetReplied => ({ sh with botReplied := false }, { c with pc := .arm })
  | .arm =>
    ({ sh with turnDeadline := c.now + cfg.msToTicks awaitResponseMs }, { c with pc := .testTurn })
  | .testTurn => (sh, { c with pc := if sh.conversationActive then .testDeadline else .gate })
  | .testDeadline => (sh, { c with pc := if sh.turnDeadline < c.now then .endTurn else .gate })
  | .endTurn => ({ sh with conversationActive := false }, { c with pc := .gate })
  | .gate => (sh, { c with pc := if sh.conversationActive then .encode else .read })
  | .encode =>
    let encoded := g722Encode c.g722Enc (uplinkSource c mic.muted)
    (sh, { c with
      g722Enc := encoded.1
      wireBuf := encoded.2
      ring := if cfg.ringOk then c.ring.push encoded.2 else c.ring
      pc := .loadConnected })
  | .loadConnected => (sh, { c with pc := if sh.connected then .lock else .read })
  | .lock =>
    if sh.peerMtx = none then ({ sh with peerMtx := some .capture }, { c with pc := .testPeer })
    else (sh, c)
  | .testPeer =>
    (sh, { c with
      pc := if sh.peer.isSome then
          if cfg.ringOk then .send (if c.ring.count > 1 then 3 else 1) else .sendLive
        else .unlock })
  | .send budget =>
    match budget, c.ring.pop with
    | budget + 1, some (_, ring) => (sh, { c with ring := ring, pc := .send budget })
    | _, _ => (sh, { c with pc := .unlock })
  | .sendLive => (sh, { c with pc := .unlock })
  | .unlock => ({ sh with peerMtx := none }, { c with pc := .read })

/-! ## The playback task -/

/-- Where the playback task is: which LED input it loads next. -/
inductive PlaybackPc where
  | loadNow
  | loadRx
  | loadMic
  | loadConnected
  | loadActive
  | ledTick
  deriving DecidableEq, Repr

/-- The playback task, as far as the LED ring is concerned. -/
structure PlaybackTask where
  /-- the program counter -/
  pc : PlaybackPc
  /-- the LED inputs, as far as they are loaded -/
  inp : LedInputs

/-- One step of the playback task; `muted` is the mute switch. -/
def playbackStep (cfg : Config) (us : ℕ) (muted : Bool) (sh : Shared) (p : PlaybackTask) :
    Ui × PlaybackTask :=
  match p.pc with
  | .loadNow =>
    (sh.ui, ⟨.loadRx, { p.inp with now := (cfg.ticksToMs (cfg.tickAt us)).toNat }⟩)
  | .loadRx =>
    (sh.ui, ⟨.loadMic, { p.inp with
      lastInboundAudio := (cfg.ticksToMs sh.lastRxFrameTick).toNat }⟩)
  | .loadMic =>
    (sh.ui, ⟨.loadConnected, { p.inp with
      lastMicActive := (cfg.ticksToMs sh.lastMicActiveTick).toNat }⟩)
  | .loadConnected =>
    (sh.ui, ⟨.loadActive, { p.inp with connected := sh.connected, muted := muted }⟩)
  | .loadActive =>
    (sh.ui, ⟨.ledTick, { p.inp with conversationActive := sh.conversationActive }⟩)
  | .ledTick => (sh.ui.tick p.inp us, ⟨.loadNow, p.inp⟩)

/-! ## The system -/

/-- What the web page asks of the LED ring. -/
inductive WebCmd where
  /-- `handleEffect` -/
  | effect (e : Effect) (colour : Rgb) (brightness speed : UInt8)
  /-- `handleState` -/
  | state (s : LedState)
  /-- `handleResume` -/
  | resume
  /-- an upload begins -/
  | ota

/-- The ring after a web request. -/
def webStep (us : ℕ) (ui : Ui) : WebCmd → Ui
  | .effect e colour brightness speed =>
    ui.overrideEffect e colour brightness speed webHoldMs us
  | .state s => ui.overrideState s webHoldMs us
  | .resume => ui.resumeAuto
  | .ota => ui.overrideEffect .rainbow ⟨0, 0, 0⟩ 0x80 0x40 otaHoldMs us

/-- The whole system. -/
structure State where
  /-- time since boot, in microseconds -/
  us : ℕ
  /-- the shared members -/
  sh : Shared
  /-- the main loop -/
  main : MainTask
  /-- the capture task -/
  cap : CaptureTask
  /-- the playback task -/
  play : PlaybackTask

/-- What happens next. -/
inductive Action where
  /-- time passes -/
  | elapse (us : ℕ)
  /-- the main loop takes a step -/
  | main (net : Net)
  /-- the capture task takes a step -/
  | capture (mic : Mic)
  /-- the playback task takes a step -/
  | playback (muted : Bool)
  /-- the web page is used -/
  | web (cmd : WebCmd)

/-- One action. -/
def step (cfg : Config) (s : State) : Action → State
  | .elapse us => { s with us := s.us + us }
  | .main net =>
    { s with
      sh := (mainStep cfg s.us net s.sh s.main).1
      main := (mainStep cfg s.us net s.sh s.main).2 }
  | .capture mic =>
    { s with
      sh := (captureStep cfg s.us mic s.sh s.cap).1
      cap := (captureStep cfg s.us mic s.sh s.cap).2 }
  | .playback muted =>
    { s with
      sh := { s.sh with ui := (playbackStep cfg s.us muted s.sh s.play).1 }
      play := (playbackStep cfg s.us muted s.sh s.play).2 }
  | .web cmd => { s with sh := { s.sh with ui := webStep s.us s.sh.ui cmd } }

/-- The state `Session::start` leaves, `us` after boot. -/
def start (us : ℕ) : State where
  us := us
  sh :=
    { conversationActive := false
      connected := false
      peerDead := false
      botReplied := false
      lastRxFrameTick := 0
      lastRxPktTick := 0
      lastMicActiveTick := 0
      turnDeadline := 0
      peerMtx := none
      peer := none
      built := 0
      ui := (Ui.new ⟨0, 0, 0⟩).setLed .off us }
  main :=
    { pc := .top
      now := 0
      prevWant := false
      connectStarted := 0
      reconnects := 0
      mediaDead := false
      stamp := 0
      payload := []
      g722Dec := G722Codec.default
      fsm := .idle }
  cap :=
    { pc := .read
      frame := .zero
      now := 0
      botSpeaking := false
      g722Enc := G722Codec.default
      wireBuf := []
      ring := ⟨Vector.replicate _ [], ⟨0, by decide⟩, 0, Nat.zero_le _⟩ }
  play := ⟨.loadNow, ⟨0, 0, 0, false, false, false⟩⟩

end PipecatVoice
