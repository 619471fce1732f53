import PipecatVoice.PeerLifetime

/-!
# The phases of a connection

libpeer changes the state of a connection along a few edges (`Follows`), each in
a callback of `Peer::tick` that runs before the new state is stored. The
invariant here ties the place of the main loop to the state of the peer, and
`connected_` to both: it is set only between the Completed callback and the end
of the connection.
-/

namespace PipecatVoice

/-- The edges along which a connection changes its state. -/
inductive PeerState.Follows : PeerState → PeerState → Prop
  /-- the answer is applied -/
  | answer : Follows .closed .checking
  /-- no candidate pair works -/
  | fail : Follows .checking .failed
  /-- a candidate pair works -/
  | ice : Follows .checking .connected
  /-- the handshake is done -/
  | handshake : Follows .connected .completed
  /-- consent is lost -/
  | consent : Follows .completed .closed

namespace MainPc

/-- The state that libpeer is about to store. -/
def target : MainPc → Option PeerState
  | .cbLed st | .cbLost st | .cbDead st | .cbLostLed st | .storeState st => some st
  | .cbConnected | .cbRxFrame | .cbPktNow | .cbPkt | .cbAlive | .cbNow | .cbDeadline =>
    some .completed
  | _ => none

/-- `connected_` is set, and libpeer's state is not yet Completed. -/
def completing : MainPc → Bool
  | .cbRxFrame | .cbPktNow | .cbPkt | .cbAlive | .cbNow | .cbDeadline | .storeState .completed =>
    true
  | _ => false

/-- The main loop handles an inbound packet, or looks at the binding requests. -/
def receives : MainPc → Bool
  | .consent | .rxPktNow | .rxPkt | .rxNow | .rxFrame | .rxReplied | .rxDeadline => true
  | _ => false

/-- Each callback is run for the states it is meant for. -/
def callbackOk : MainPc → Bool
  | .cbLed st => st = .new || st = .checking || st = .connected
  | .cbLost st | .cbDead st | .cbLostLed st => st = .failed || st = .disconnected || st = .closed
  | _ => true

/-- The main loop is past the store of false to `connected_` in a callback. -/
def losing : MainPc → Bool
  | .cbDead _ | .cbLostLed _ | .storeState .failed | .storeState .disconnected
  | .storeState .closed => true
  | _ => false

theorem eq_of_stores {pc : MainPc} {st : PeerState} (h : pc.stores = some st) :
    pc = .storeState st := by
  cases pc <;> first | cases h; rfl | cases h

theorem pumps_of_target {pc : MainPc} {st : PeerState} (h : pc.target = some st) : pc.pumps := by
  cases pc <;> first | rfl | cases h

theorem pumps_of_receives {pc : MainPc} (h : pc.receives) : pc.pumps := by
  cases pc <;> first | rfl | cases h

theorem target_or_receives {pc : MainPc} (h : pc.pumps) :
    (∃ st, pc.target = some st) ∨ pc.receives := by
  cases pc <;> first | exact Or.inl ⟨_, rfl⟩ | exact Or.inr rfl | cases h

theorem stores_of_receives {pc : MainPc} (h : pc.receives) : pc.stores = none := by
  cases pc <;> first | rfl | cases h

end MainPc

section Main

variable (cfg : Config) (us : ℕ) (net : Net) (sh : Shared) (m : MainTask)

/-- How the main loop comes to change the peer's state. -/
theorem target_of_mainStep {st : PeerState} (h : (mainStep cfg us net sh m).2.pc.target = some st) :
    (m.pc.target = some st ∧ m.pc.stores = none) ∨
      (m.pc = .tick ∧ ∀ p ∈ sh.peer, p.state ≠ .closed ∧ p.state.Follows st) ∨
      (m.pc = .answer ∧ st = .checking ∧ ∀ p ∈ sh.peer, p.pendingAnswer) ∨
      (m.pc = .consent ∧ st = .closed) := by
  obtain ⟨pc, _⟩ := m
  cases pc
  case tick =>
    refine Or.inr (Or.inl ⟨rfl, ?_⟩)
    rintro p hp
    obtain hp : sh.peer = some p := hp
    simp only [mainStep, hp] at h
    cases hst : p.state <;> rw [hst] at h
    case checking =>
      cases hice : net.ice <;> simp [peerLoop, hice, callbackPc, MainPc.target] at h
      · exact ⟨by decide, h ▸ .fail⟩
      · exact ⟨by decide, h ▸ .ice⟩
    case connected =>
      cases hdone : net.handshake <;> simp [peerLoop, hdone, callbackPc, MainPc.target] at h
      exact ⟨by decide, h ▸ .handshake⟩
    case completed =>
      simp only [peerLoop] at h
      split at h <;> cases h
    all_goals cases h
  case answer =>
    refine Or.inr (Or.inr (Or.inl ?_))
    rcases hp : sh.peer with _ | p
    · simp [mainStep, hp, MainPc.target] at h
    · simp only [mainStep, hp] at h
      split at h
      · rename_i hpending
        split at h
        · cases h
        · obtain rfl : PeerState.checking = st := by simpa [callbackPc, MainPc.target] using h
          exact ⟨rfl, rfl, by simpa using hpending⟩
      · cases h
  case consent =>
    simp only [mainStep] at h
    split at h
    · obtain rfl : PeerState.closed = st := by simpa [callbackPc, MainPc.target] using h
      exact Or.inr (Or.inr (Or.inr ⟨rfl, rfl⟩))
    · cases h
  all_goals
    simp only [mainStep, branchPc] at h
    (repeat' split at h) <;> simp_all [MainPc.target, MainPc.stores]

theorem receives_of_mainStep (h : (mainStep cfg us net sh m).2.pc.receives) :
    m.pc.receives ∨ (m.pc = .tick ∧ ∀ p ∈ sh.peer, p.state = .completed) := by
  obtain ⟨pc, _⟩ := m
  cases pc
  case tick =>
    refine Or.inr ⟨rfl, ?_⟩
    rintro p hp
    obtain hp : sh.peer = some p := hp
    simp only [mainStep, hp] at h
    cases hst : p.state <;> rw [hst] at h
    all_goals
      simp only [peerLoop, callbackPc] at h
      (repeat' split at h) <;> cases h
  all_goals
    simp only [mainStep, branchPc, callbackPc] at h
    (repeat' split at h) <;> simp_all [MainPc.receives]

theorem callbackOk_of_mainStep (h : m.pc.callbackOk) :
    (mainStep cfg us net sh m).2.pc.callbackOk := by
  obtain ⟨pc, _⟩ := m
  cases pc <;> simp only [mainStep, branchPc, callbackPc, peerLoop]
  all_goals
    (repeat' split) <;> first | rfl | exact h

/-- The callback that loses a connection has stored false to `connected_`. -/
theorem losing_of_mainStep (hok : m.pc.callbackOk)
    (h : (mainStep cfg us net sh m).2.pc.losing) :
    (m.pc.losing ∧ m.pc.stores = none) ∨ m.pc.clears := by
  obtain ⟨pc, _⟩ := m
  cases pc
  case cbLed st => cases st <;> simp_all [mainStep, MainPc.losing, MainPc.callbackOk]
  case cbLostLed st => cases st <;> simp_all [MainPc.losing, MainPc.stores, MainPc.callbackOk]
  all_goals
    simp only [mainStep, branchPc, callbackPc, peerLoop] at h
    (repeat' split at h) <;> simp_all [MainPc.losing, MainPc.clears, MainPc.stores]

/-- The window of the Completed callback begins with the store to `connected_`
and ends with libpeer's store. -/
theorem mainStep_completing (hok : m.pc.callbackOk) :
    (mainStep cfg us net sh m).2.pc.completing ↔
      m.pc = .cbConnected ∨ (m.pc.completing ∧ m.pc.stores = none) := by
  obtain ⟨pc, _⟩ := m
  cases pc
  case cbLed st => cases st <;> simp_all [mainStep, MainPc.completing, MainPc.callbackOk]
  case cbLostLed st => cases st <;> simp_all [mainStep, MainPc.completing, MainPc.callbackOk]
  all_goals
    simp only [mainStep, branchPc, callbackPc, peerLoop]
    (repeat' split) <;> simp_all [MainPc.completing, MainPc.stores]

end Main

/-- The phases of the connection. -/
structure PhaseInv (s : State) : Prop where
  /-- the peer's lifetime -/
  lifetime : PeerInv s
  /-- each callback is run for its states -/
  callback : s.main.pc.callbackOk
  /-- a peer is as it was created when its offer is answered -/
  offer : s.main.pc = .buildOffer → ∀ p ∈ s.sh.peer, p.state = .closed
  /-- an answer waits for the first tick -/
  pending : ∀ p ∈ s.sh.peer, p.pendingAnswer → p.state = .closed ∧ ¬ s.main.pc.pumps
  /-- libpeer goes along an edge -/
  edge : ∀ st, s.main.pc.target = some st → ∀ p ∈ s.sh.peer, p.state.Follows st
  /-- packets and consent belong to a completed connection -/
  receives : s.main.pc.receives → ∀ p ∈ s.sh.peer, p.state = .completed
  /-- a lost connection is not `connected_` -/
  losing : s.main.pc.losing → s.sh.connected = false
  /-- `connected_` is set from the Completed callback on -/
  connected : s.sh.connected → ∀ p ∈ s.sh.peer, p.state = .completed ∨ s.main.pc.completing

section

variable {cfg : Config} {s : State}

/-- A place that stores a state is the last one of a callback. -/
theorem PhaseInv.follows (h : PhaseInv s) {st : PeerState} (hst : s.main.pc.stores = some st)
    {p : Peer} (hp : p ∈ s.sh.peer) : p.state.Follows st := by
  refine h.edge st ?_ p hp
  rw [MainPc.eq_of_stores hst]
  rfl

/-- The peer's phase, for a step of the main loop that keeps the peer. -/
theorem PhaseInv.pending_carry (h : PhaseInv s) (net : Net) {p : Peer} (hp : p ∈ s.sh.peer)
    (hpending : (s.main.pc.carry net p).pendingAnswer) :
    (s.main.pc.carry net p).state = .closed ∧
      ¬ (mainStep cfg s.us net s.sh s.main).2.pc.pumps := by
  rw [MainPc.carry_pendingAnswer] at hpending
  split_ifs at hpending with hoffer hanswer
  · -- the answer has just been parked
    obtain ⟨hpc, hanswered⟩ := hoffer
    rw [MainPc.carry_state, hpc]
    refine ⟨h.offer hpc p hp, ?_⟩
    simp [mainStep, hpc, hanswered, MainPc.pumps]
  · obtain ⟨hnew, hpumps⟩ := h.pending p hp hpending
    have hstores : s.main.pc.stores = none := by
      rcases hst : s.main.pc.stores with _ | st
      · rfl
      · rw [MainPc.eq_of_stores hst] at hpumps
        exact absurd rfl hpumps
    refine ⟨by rw [MainPc.carry_state, hstores]; exact hnew, ?_⟩
    intro hpumps'
    rcases MainPc.target_or_receives hpumps' with ⟨st, htarget⟩ | hreceives
    · rcases target_of_mainStep _ _ _ _ _ htarget with ⟨hold, -⟩ | ⟨-, htick⟩ | ⟨hpc, -⟩ | ⟨hpc, -⟩
      · exact hpumps (MainPc.pumps_of_target hold)
      · exact (htick p hp).1 hnew
      · exact hanswer hpc
      · rw [hpc] at hpumps
        exact hpumps rfl
    · rcases receives_of_mainStep _ _ _ _ _ hreceives with hold | ⟨-, htick⟩
      · exact hpumps (MainPc.pumps_of_receives hold)
      · rw [htick p hp] at hnew
        cases hnew

/-- The peer goes along an edge after a step of the main loop as before. -/
theorem PhaseInv.follows_main (h : PhaseInv s) {net : Net} {st : PeerState}
    (htarget : (mainStep cfg s.us net s.sh s.main).2.pc.target = some st) {p' : Peer}
    (hp' : p' ∈ (mainStep cfg s.us net s.sh s.main).1.peer) : p'.state.Follows st := by
  have hcases := target_of_mainStep _ _ _ _ _ htarget
  obtain ⟨-, ⟨hpc, -, rfl⟩ | ⟨-, p, hp, rfl⟩⟩ := mem_peer_of_mainStep _ _ _ _ _ hp'
  · rw [hpc] at hcases
    rcases hcases with ⟨hold, -⟩ | ⟨hpc, -⟩ | ⟨hpc, -⟩ | ⟨hpc, -⟩ <;> cases ‹_›
  · rw [MainPc.carry_state]
    rcases hcases with ⟨hold, hstores⟩ | ⟨hpc, htick⟩ | ⟨hpc, rfl, hpending⟩ | ⟨hpc, rfl⟩
    · rw [hstores]
      exact h.edge st hold p hp
    · rw [hpc]
      exact (htick p hp).2
    · rw [hpc]
      obtain ⟨hnew, -⟩ := h.pending p hp (hpending p hp)
      simpa [MainPc.stores, hnew] using PeerState.Follows.answer
    · rw [hpc]
      have hcompleted := h.receives (by rw [hpc]; rfl) p hp
      simpa [MainPc.stores, hcompleted] using PeerState.Follows.consent

/-- While `connected_` is set, libpeer stores nothing but Completed. -/
theorem PhaseInv.stores_completed (h : PhaseInv s) (hconn : s.sh.connected) {st : PeerState}
    (hst : s.main.pc.stores = some st) {p : Peer} (hp : p ∈ s.sh.peer) : st = .completed := by
  have hpc := MainPc.eq_of_stores hst
  obtain hcompleted | hcompleting := h.connected hconn p hp
  · -- a store out of Completed comes after `connected_` was cleared
    have hedge := h.follows hst hp
    rw [hcompleted] at hedge
    cases hedge
    have hfalse := h.losing (by rw [hpc]; rfl)
    rw [hfalse] at hconn
    cases hconn
  · rw [hpc] at hcompleting
    cases st <;> first | rfl | cases hcompleting

/-- **The main loop keeps the phases.** -/
theorem PhaseInv.main (h : PhaseInv s) (net : Net) : PhaseInv (step cfg s (.main net)) where
  lifetime := h.lifetime.main net
  callback := callbackOk_of_mainStep _ _ _ _ _ h.callback
  offer := by
    rintro hpc p' hp'
    obtain ⟨hbuild, hcreated⟩ := buildOffer_of_mainStep _ _ _ _ _ hpc
    obtain ⟨-, ⟨-, -, rfl⟩ | ⟨hcreate, -⟩⟩ := mem_peer_of_mainStep _ _ _ _ _ hp'
    · rfl
    · exact absurd hcreated (hcreate hbuild)
  pending := by
    rintro p' hp' hpending
    obtain ⟨-, ⟨-, -, rfl⟩ | ⟨-, p, hp, rfl⟩⟩ := mem_peer_of_mainStep _ _ _ _ _ hp'
    · cases hpending
    · exact h.pending_carry net hp hpending
  edge := fun _ htarget _ hp' => h.follows_main htarget hp'
  receives := by
    rintro hreceives p' hp'
    have hcases := receives_of_mainStep _ _ _ _ _ hreceives
    obtain ⟨-, ⟨hpc, -, rfl⟩ | ⟨-, p, hp, rfl⟩⟩ := mem_peer_of_mainStep _ _ _ _ _ hp'
    · rw [hpc] at hcases
      rcases hcases with hold | ⟨hpc, -⟩ <;> cases ‹_›
    · rw [MainPc.carry_state]
      rcases hcases with hold | ⟨hpc, htick⟩
      · rw [MainPc.stores_of_receives hold]
        exact h.receives hold p hp
      · rw [hpc]
        exact htick p hp
  losing := by
    intro hlosing
    obtain ⟨hold, -⟩ | hclears := losing_of_mainStep _ _ _ _ _ h.callback hlosing
    · rw [← Bool.not_eq_true]
      intro hset
      obtain hpc | ⟨hconn, -⟩ := connected_of_mainStep _ _ _ _ _ hset
      · rw [hpc] at hold
        cases hold
      · rw [h.losing hold] at hconn
        cases hconn
    · exact mainStep_connected_of_clears _ _ _ _ _ hclears
  connected := by
    rintro hset p' hp'
    have hwindow := mainStep_completing cfg s.us net s.sh s.main h.callback
    obtain hpc | ⟨hold, -⟩ := connected_of_mainStep _ _ _ _ _ hset
    · exact Or.inr (hwindow.mpr (Or.inl hpc))
    · obtain ⟨-, ⟨hbuild, -, rfl⟩ | ⟨-, p, hp, rfl⟩⟩ := mem_peer_of_mainStep _ _ _ _ _ hp'
      · -- there is no peer to be connected to
        have hpeer := h.lifetime.connected hold
        rw [h.lifetime.no_peer (by rw [hbuild]; rfl)] at hpeer
        cases hpeer
      · rw [MainPc.carry_state]
        rcases hst : s.main.pc.stores with _ | st
        · obtain hcompleted | hcompleting := h.connected hold p hp
          · exact Or.inl hcompleted
          · exact Or.inr (hwindow.mpr (Or.inr ⟨hcompleting, hst⟩))
        · exact Or.inl (h.stores_completed hold hst hp)

/-- Every action keeps the phases. -/
theorem PhaseInv.step (h : PhaseInv s) (a : Action) : PhaseInv (step cfg s a) := by
  have hlife : PeerInv (PipecatVoice.step cfg s a) := h.lifetime.step a
  cases a with
  | main net => exact h.main net
  | capture mic =>
    have hpeer := captureStep_peer cfg s.us mic s.sh s.cap
    have hconn := captureStep_connected cfg s.us mic s.sh s.cap
    constructor
    case lifetime => exact hlife
    all_goals
      simp only [step_capture_sh, step_capture_main, hpeer, hconn]
    · exact h.callback
    · exact h.offer
    · exact h.pending
    · exact h.edge
    · exact h.receives
    · exact h.losing
    · exact h.connected
  | elapse us => exact ⟨hlife, h.2, h.3, h.4, h.5, h.6, h.7, h.8⟩
  | playback muted => exact ⟨hlife, h.2, h.3, h.4, h.5, h.6, h.7, h.8⟩
  | web cmd => exact ⟨hlife, h.2, h.3, h.4, h.5, h.6, h.7, h.8⟩

end

theorem phaseInv_start (us : ℕ) : PhaseInv (start us) := by
  refine ⟨peerInv_start us, rfl, ?_, ?_, ?_, ?_, ?_, ?_⟩ <;> simp [start]

end PipecatVoice
