import PipecatVoice.Session

/-!
# What one step does to the shared members

Each shared member is written at a few places of the two tasks. The theorems
here say which, one for each member and task, so that a proof about a member
looks at the places that write it and at no others. The predicates on program
counters name the places.
-/

namespace PipecatVoice

/-! ## Frames: who moves what -/

section Frames

variable (cfg : Config) (s : State)

@[simp] theorem step_main_sh (net : Net) :
    (step cfg s (.main net)).sh = (mainStep cfg s.us net s.sh s.main).1 := rfl

@[simp] theorem step_main_main (net : Net) :
    (step cfg s (.main net)).main = (mainStep cfg s.us net s.sh s.main).2 := rfl

@[simp] theorem step_main_us (net : Net) : (step cfg s (.main net)).us = s.us := rfl

@[simp] theorem step_capture_sh (mic : Mic) :
    (step cfg s (.capture mic)).sh = (captureStep cfg s.us mic s.sh s.cap).1 := rfl

@[simp] theorem step_capture_main (mic : Mic) : (step cfg s (.capture mic)).main = s.main := rfl

@[simp] theorem step_capture_cap (mic : Mic) :
    (step cfg s (.capture mic)).cap = (captureStep cfg s.us mic s.sh s.cap).2 := rfl

end Frames

/-! ## Time -/

/-- The tick counter, had it no bounds. -/
def Config.ticks (cfg : Config) (us : ℕ) : ℕ := us * cfg.tickHz / 1000000

theorem Config.tickAt_eq (cfg : Config) (us : ℕ) : cfg.tickAt us = UInt32.ofNat (cfg.ticks us) :=
  rfl

/-! ## Places of the main loop -/

namespace MainPc

/-- The main loop is about to take `peer_mtx_`. -/
def locks : MainPc → Bool
  | .abandonLock | .downLock | .lostLock => true
  | _ => false

/-- The main loop is about to release `peer_mtx_`. -/
def unlocks : MainPc → Bool
  | .abandonUnlock | .downUnlock | .lostUnlock => true
  | _ => false

/-- The main loop owns `peer_mtx_`. -/
def holdsMtx : MainPc → Bool
  | .abandonReset | .abandonUnlock | .downClear | .downReset | .downUnlock
  | .lostClear | .lostReset | .lostUnlock => true
  | _ => false

/-- The main loop is about to destroy the peer. -/
def resets : MainPc → Bool
  | .buildReset | .abandonReset | .downReset | .lostReset => true
  | _ => false

/-- The main loop is about to store false to `connected_`. -/
def clears : MainPc → Bool
  | .downClear | .lostClear | .cbLost _ => true
  | _ => false

/-- The main loop is in `buildAndOffer` or its failure path, without a peer. -/
def noPeer : MainPc → Bool
  | .connectBegin | .buildReset | .buildCreate | .abandon | .abandonLock | .abandonReset
  | .abandonUnlock => true
  | _ => false

/-- The main loop is inside `Peer::tick`, in the loop or one of its callbacks. -/
def pumps : MainPc → Bool
  | .consent | .storeState _ | .cbLed _ | .cbConnected | .cbRxFrame | .cbPktNow | .cbPkt
  | .cbAlive | .cbNow | .cbDeadline | .cbLost _ | .cbDead _ | .cbLostLed _ | .rxPktNow | .rxPkt
  | .rxNow | .rxFrame | .rxReplied | .rxDeadline => true
  | _ => false

/-- The main loop has cleared `connected_` under the mutex and is about to
destroy the peer. -/
def cleared : MainPc → Bool
  | .downReset | .lostReset => true
  | _ => false

/-- The state libpeer is storing. -/
def stores : MainPc → Option PeerState
  | .storeState st => some st
  | _ => none

/-- A peer that survives a step of the main loop, with its state and its parked
answer brought up to date. -/
def carry (pc : MainPc) (net : Net) (p : Peer) : Peer where
  id := p.id
  state := pc.stores.getD p.state
  pendingAnswer :=
    if pc = .buildOffer ∧ net.answered then true
    else if pc = .answer then false else p.pendingAnswer

/-- The main loop is about to store false to `conversation_active_`. -/
def endsTurn (pc : MainPc) (net : Net) : Bool :=
  match pc with
  | .buildOffer => !net.answered
  | .abandon | .giveUp | .stall => true
  | _ => false

theorem holdsMtx_of_unlocks {pc : MainPc} (h : pc.unlocks) : pc.holdsMtx := by
  cases pc <;> first | rfl | cases h

theorem not_resets_of_pumps {pc : MainPc} (h : pc.pumps) : ¬ pc.resets := by
  cases pc <;> first | exact Bool.false_ne_true | cases h

/-- A reset runs without a peer, or in a critical section with `connected_`
false. -/
theorem resets_cases {pc : MainPc} (h : pc.resets) : pc.noPeer ∨ (pc.holdsMtx ∧ pc.cleared) := by
  cases pc <;> first | exact Or.inl rfl | exact Or.inr ⟨rfl, rfl⟩ | cases h

@[simp] theorem carry_state (pc : MainPc) (net : Net) (p : Peer) :
    (pc.carry net p).state = pc.stores.getD p.state := rfl

@[simp] theorem carry_pendingAnswer (pc : MainPc) (net : Net) (p : Peer) :
    (pc.carry net p).pendingAnswer =
      if pc = .buildOffer ∧ net.answered then true
      else if pc = .answer then false else p.pendingAnswer := rfl

end MainPc

/-! ## Places of the capture task -/

namespace CapturePc

/-- The capture task owns `peer_mtx_`. -/
def holdsMtx : CapturePc → Bool
  | .testPeer | .send _ | .sendLive | .unlock => true
  | _ => false

/-- The capture task is past `if (peer_)`, about to call `sendAudio`. -/
def sending : CapturePc → Bool
  | .send _ | .sendLive => true
  | _ => false

theorem holdsMtx_of_sending {pc : CapturePc} (h : pc.sending) : pc.holdsMtx := by
  cases pc <;> first | rfl | cases h

end CapturePc

/-! ## The main loop's stores -/

section Main

variable (cfg : Config) (us : ℕ) (net : Net) (sh : Shared) (m : MainTask)

theorem mainStep_peerMtx : (mainStep cfg us net sh m).1.peerMtx =
    if m.pc.locks ∧ sh.peerMtx = none then some .main
    else if m.pc.unlocks then none else sh.peerMtx := by
  obtain ⟨pc, _⟩ := m
  cases pc <;> first | rfl | skip
  all_goals
    simp only [mainStep, MainPc.locks, MainPc.unlocks]
    (repeat' split) <;> simp_all

theorem mainStep_holdsMtx : (mainStep cfg us net sh m).2.pc.holdsMtx ↔
    (m.pc.locks ∧ sh.peerMtx = none) ∨ (m.pc.holdsMtx ∧ ¬ m.pc.unlocks) := by
  obtain ⟨pc, _⟩ := m
  cases pc <;> simp only [mainStep, branchPc, callbackPc, peerLoop]
  all_goals
    (repeat' split) <;> simp_all [MainPc.locks, MainPc.unlocks, MainPc.holdsMtx]

theorem mainStep_connected : (mainStep cfg us net sh m).1.connected =
    if m.pc = .cbConnected then true else if m.pc.clears then false else sh.connected := by
  obtain ⟨pc, _⟩ := m
  cases pc <;> first | rfl | skip
  all_goals
    simp only [mainStep]
    (repeat' split) <;> simp_all [MainPc.clears]

/-- `connected_` is set by the Completed callback, and stays set until it is
cleared. -/
theorem connected_of_mainStep (h : (mainStep cfg us net sh m).1.connected) :
    m.pc = .cbConnected ∨ (sh.connected ∧ ¬ m.pc.clears) := by
  rw [mainStep_connected] at h
  split_ifs at h with hpc hclears
  · exact Or.inl hpc
  · exact Or.inr ⟨h, hclears⟩

theorem mainStep_connected_of_clears (h : m.pc.clears) :
    (mainStep cfg us net sh m).1.connected = false := by
  have hne : m.pc ≠ .cbConnected := by
    intro hpc
    rw [hpc] at h
    cases h
  rw [mainStep_connected, if_neg hne, if_pos h]

theorem mainStep_conversationActive : (mainStep cfg us net sh m).1.conversationActive =
    if m.pc.endsTurn net then false else sh.conversationActive := by
  obtain ⟨pc, _⟩ := m
  cases pc <;> first | rfl | skip
  all_goals
    simp only [mainStep]
    (repeat' split) <;> simp_all [MainPc.endsTurn]

/-- The main loop begins no turn. -/
theorem active_of_mainStep (h : (mainStep cfg us net sh m).1.conversationActive) :
    sh.conversationActive := by
  rw [mainStep_conversationActive] at h
  split at h
  · cases h
  · exact h

/-- **The peer**: reset, built, or carried along. -/
theorem mainStep_peer : (mainStep cfg us net sh m).1.peer =
    if m.pc.resets then none
    else if m.pc = .buildCreate ∧ net.created then some ⟨sh.built, .closed, false⟩
    else sh.peer.map (m.pc.carry net) := by
  obtain ⟨pc, _⟩ := m
  obtain ⟨_, _, _, _, _, _, _, _, _, peer, _, _⟩ := sh
  rcases peer with _ | ⟨id, state, pendingAnswer⟩
  · cases pc <;> first | rfl | skip
    all_goals
      simp only [mainStep]
      (repeat' split) <;> simp_all [MainPc.resets]
  · cases pc <;> first | rfl | skip
    all_goals
      simp only [mainStep]
      (repeat' split) <;> simp_all [MainPc.carry, MainPc.resets, MainPc.stores]

/-- A peer after a step is a fresh one or was there before. -/
theorem mem_peer_of_mainStep {p' : Peer} (h : p' ∈ (mainStep cfg us net sh m).1.peer) :
    ¬ m.pc.resets ∧
      ((m.pc = .buildCreate ∧ net.created ∧ p' = ⟨sh.built, .closed, false⟩) ∨
        ((m.pc = .buildCreate → ¬ net.created) ∧ ∃ p ∈ sh.peer, p' = m.pc.carry net p)) := by
  rw [mainStep_peer] at h
  split_ifs at h with hreset hcreate
  · cases h
  · exact ⟨hreset, Or.inl ⟨hcreate.1, hcreate.2, (Option.some.inj h).symm⟩⟩
  · obtain ⟨p, hp, hcarry⟩ := Option.map_eq_some_iff.mp h
    exact ⟨hreset, Or.inr ⟨fun hpc hcreated => hcreate ⟨hpc, hcreated⟩, p, hp, hcarry.symm⟩⟩

/-- Only a reset or a successful build changes which peer there is. -/
theorem mainStep_peerId : (mainStep cfg us net sh m).1.peer.map Peer.id =
    if m.pc.resets then none
    else if m.pc = .buildCreate ∧ net.created then some sh.built
    else sh.peer.map Peer.id := by
  rw [mainStep_peer]
  split_ifs
  · rfl
  · rfl
  · rw [Option.map_map]
    rfl

theorem mainStep_peer_isSome : (mainStep cfg us net sh m).1.peer.isSome ↔
    ¬ m.pc.resets ∧ ((m.pc = .buildCreate ∧ net.created) ∨ sh.peer.isSome) := by
  rw [mainStep_peer]
  split_ifs with hreset hcreate
  · simp [hreset]
  · exact ⟨fun _ => ⟨hreset, Or.inl hcreate⟩, fun _ => rfl⟩
  · simp [hreset, hcreate]

/-- The places without a peer are entered from the head of an iteration, and
left by building one. -/
theorem noPeer_of_mainStep (h : (mainStep cfg us net sh m).2.pc.noPeer) :
    (m.pc = .sample ∧ sh.peer = none) ∨
      (m.pc.noPeer ∧ ¬ (m.pc = .buildCreate ∧ net.created)) := by
  obtain ⟨pc, _⟩ := m
  cases pc <;> simp only [mainStep, branchPc, callbackPc, peerLoop] at h
  all_goals
    (repeat' split at h) <;> simp_all [MainPc.noPeer]

/-- The peer is pumped only if there is one. -/
theorem pumps_of_mainStep (h : (mainStep cfg us net sh m).2.pc.pumps) :
    m.pc.pumps ∨ (sh.peer.isSome ∧ ¬ m.pc.resets) := by
  obtain ⟨pc, _⟩ := m
  cases pc <;> simp only [mainStep, branchPc, callbackPc, peerLoop] at h
  all_goals
    (repeat' split at h) <;> simp_all [MainPc.pumps, MainPc.resets]

theorem buildOffer_of_mainStep (h : (mainStep cfg us net sh m).2.pc = .buildOffer) :
    m.pc = .buildCreate ∧ net.created := by
  obtain ⟨pc, _⟩ := m
  cases pc <;> simp only [mainStep, branchPc, callbackPc, peerLoop] at h
  all_goals
    (repeat' split at h) <;> simp_all

theorem cleared_of_mainStep (h : (mainStep cfg us net sh m).2.pc.cleared) : m.pc.clears := by
  obtain ⟨pc, _⟩ := m
  cases pc <;> simp only [mainStep, branchPc, callbackPc, peerLoop] at h
  all_goals
    (repeat' split at h) <;> simp_all [MainPc.cleared, MainPc.clears]

end Main

/-! ## The capture task's stores -/

section Capture

variable (cfg : Config) (us : ℕ) (mic : Mic) (sh : Shared) (c : CaptureTask)

theorem captureStep_peer : (captureStep cfg us mic sh c).1.peer = sh.peer := by
  obtain ⟨pc, _⟩ := c
  cases pc <;> simp only [captureStep]
  all_goals
    (repeat' split) <;> rfl

theorem captureStep_connected : (captureStep cfg us mic sh c).1.connected = sh.connected := by
  obtain ⟨pc, _⟩ := c
  cases pc <;> simp only [captureStep]
  all_goals
    (repeat' split) <;> rfl

theorem captureStep_conversationActive : (captureStep cfg us mic sh c).1.conversationActive =
    if c.pc = .wake ∧ mic.fired then true
    else if c.pc = .endTurn then false else sh.conversationActive := by
  obtain ⟨pc, _⟩ := c
  cases pc <;> simp only [captureStep]
  all_goals
    (repeat' split) <;> simp_all

theorem captureStep_peerMtx : (captureStep cfg us mic sh c).1.peerMtx =
    if c.pc = .lock ∧ sh.peerMtx = none then some .capture
    else if c.pc = .unlock then none else sh.peerMtx := by
  obtain ⟨pc, _⟩ := c
  cases pc <;> simp only [captureStep]
  all_goals
    (repeat' split) <;> simp_all

theorem captureStep_holdsMtx : (captureStep cfg us mic sh c).2.pc.holdsMtx ↔
    (c.pc = .lock ∧ sh.peerMtx = none) ∨ (c.pc.holdsMtx ∧ c.pc ≠ .unlock) := by
  obtain ⟨pc, _⟩ := c
  cases pc <;> simp only [captureStep]
  all_goals
    (repeat' split) <;> simp_all [CapturePc.holdsMtx]

theorem sending_of_captureStep (h : (captureStep cfg us mic sh c).2.pc.sending) :
    c.pc.sending ∨ (c.pc = .testPeer ∧ sh.peer.isSome) := by
  obtain ⟨pc, _⟩ := c
  cases pc <;> simp only [captureStep] at h
  all_goals
    (repeat' split at h) <;> simp_all [CapturePc.sending]

end Capture

/-! ## Schedules that runs are put together from -/

/-- The device as it is built, at a hundred ticks a second, with the backlog
allocated. -/
def device : Config := ⟨100, by decide, by decide, true⟩

/-- A frame in which the wake word arms a turn, up to its first packet. -/
def wakeFrame : List Action :=
  List.replicate 3 (.capture {}) ++ .capture { fired := true } :: List.replicate 8 (.capture {})

/-- A peer is built and answered, and its connectivity checks and handshake
succeed; the Completed callback is next. -/
def bringUp : List Action :=
  List.replicate 4 (.main {}) ++ [.main { created := true }, .main { answered := true }] ++
  List.replicate 10 (.main {}) ++ [.main { ice := .connected }] ++
  List.replicate 9 (.main {}) ++ [.main { handshake := true }]

end PipecatVoice
