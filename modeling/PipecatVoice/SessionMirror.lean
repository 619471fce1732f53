import PipecatVoice.PeerLifetime

/-!
# The lifecycle machine against the session

`fsm_` is handed two of its six events: `onPeerState` delivers `PeerLive` and
`PeerLost`, and nothing delivers `WifiUp` or `SignalingStarted`. It never leaves
`Idle`, so it agrees with `connected_` and `peer_` just as long as no iteration
that built a peer has come to its end.

* `State.lost` — what the callbacks since the last build say of the peer;
* `Mirrors` — what the lifecycle machine says, at the head of an iteration;
* `Unbuilt` — no peer has been built, at the head of an iteration;
* `Young` — the iteration that builds a peer, from the build to its end.
-/

namespace PipecatVoice

/-- The connection is lost: since the peer was built, `onPeerState` has been called
with Failed, Disconnected or Closed, and not with Completed after that. This is what
`peer_dead_` holds (`mainStep_peerDead`); the state of a fresh connection says nothing,
as libpeer numbers Closed as zero. -/
def State.lost (s : State) : Bool := s.sh.peerDead

/-- There is a peer, and its offer has been posted: `buildAndOffer` is over. -/
def State.offered (s : State) : Bool := s.sh.peer.isSome && s.main.pc != .buildOffer

/-- The lifecycle machine mirrors the session at the head of an iteration. -/
def Mirrors (s : State) : Prop :=
  s.main.pc = .top →
    (s.main.fsm = .live ↔ s.sh.connected) ∧
      (s.offered → ¬ s.sh.connected → ¬ s.lost → s.main.fsm = .negotiating)

instance : DecidablePred Mirrors := fun _ => by unfold Mirrors; infer_instance

/-- No peer has been built so far, at the head of an iteration. -/
def Unbuilt (s : State) : Prop := s.main.pc = .top → s.sh.built = 0

/-! ## The machine is idle -/

theorem mainStep_fsm_idle (cfg : Config) (us : ℕ) (net : Net) (sh : Shared) (m : MainTask)
    (h : m.fsm = .idle) : (mainStep cfg us net sh m).2.fsm = .idle := by
  obtain ⟨pc, _⟩ := m
  obtain rfl := h
  cases pc <;> simp only [mainStep]
  all_goals
    (repeat' split) <;> rfl

/-! ## What is known of the peer -/

/-- The place of `onPeerState` that reports a connection lost. -/
def MainPc.reportsLost : MainPc → Bool
  | .cbDead _ => true
  | _ => false

/-- The main loop is between clearing `peer_dead_` for a bring-up and the new peer. -/
def MainPc.bringsUp : MainPc → Bool
  | .buildReset | .buildCreate => true
  | _ => false

section Main

variable (cfg : Config) (us : ℕ) (net : Net) (sh : Shared) (m : MainTask)

/-- `peer_dead_` is cleared by a bring-up and by the Completed callback, and set by the
callback of a loss; nothing else touches it. -/
theorem mainStep_peerDead : (mainStep cfg us net sh m).1.peerDead =
    if m.pc = .connectBegin ∨ m.pc = .cbAlive then false
    else if m.pc.reportsLost then true else sh.peerDead := by
  obtain ⟨pc, _⟩ := m
  cases pc <;> simp only [mainStep]
  all_goals
    (repeat' split) <;> simp_all [MainPc.reportsLost]

theorem bringsUp_of_mainStep (h : (mainStep cfg us net sh m).2.pc.bringsUp) :
    m.pc = .connectBegin ∨ m.pc = .buildReset := by
  obtain ⟨pc, _⟩ := m
  cases pc <;> simp only [mainStep, branchPc, callbackPc, peerLoop] at h
  all_goals
    (repeat' split at h) <;> simp_all [MainPc.bringsUp]

end Main

/-! ## The iteration that builds a peer -/

/-- Where the main loop is after building a peer, in the same iteration: the peer is
as it was created until the parked answer is applied. -/
inductive YoungAt : MainPc → PeerState → Prop
  /-- the offer is being posted -/
  | offer : YoungAt .buildOffer .closed
  /-- the peer is pumped for the first time -/
  | tick : YoungAt .tick .closed
  /-- a fresh connection has nothing to do -/
  | answer : YoungAt .answer .closed
  /-- the answer is applied -/
  | led : YoungAt (.cbLed .checking) .closed
  /-- libpeer stores the state -/
  | store : YoungAt (.storeState .checking) .closed
  /-- the iteration ends without an answer -/
  | unanswered : YoungAt .delay .closed
  /-- the iteration ends with one -/
  | answered : YoungAt .delay .checking

/-- No callback reports a loss in the iteration that builds the peer. -/
theorem YoungAt.keeps_peerDead {pc : MainPc} {st : PeerState} (h : YoungAt pc st) :
    pc.reportsLost = false := by
  cases h <;> rfl

section Main

variable (cfg : Config) (us : ℕ) (net : Net) (sh : Shared) (m : MainTask)

theorem mainStep_built : (mainStep cfg us net sh m).1.built =
    if m.pc = .buildCreate ∧ net.created then sh.built + 1 else sh.built := by
  obtain ⟨pc, _⟩ := m
  cases pc <;> simp only [mainStep]
  all_goals
    (repeat' split) <;> simp_all

/-- A young peer stays young until the iteration ends, and is there then. -/
theorem YoungAt.mainStep {p : Peer} (hp : p ∈ sh.peer) (h : YoungAt m.pc p.state) :
    (mainStep cfg us net sh m).1.connected = sh.connected ∧
      ∃ p' ∈ (mainStep cfg us net sh m).1.peer,
        (mainStep cfg us net sh m).2.pc = .top ∨
          YoungAt (mainStep cfg us net sh m).2.pc p'.state := by
  obtain ⟨pc, _⟩ := m
  obtain ⟨id, state, pending⟩ := p
  obtain hp : sh.peer = some ⟨id, state, pending⟩ := hp
  cases h with
  | offer => cases hans : net.answered <;> simp [PipecatVoice.mainStep, hp, hans, YoungAt.tick]
  | tick => simp [PipecatVoice.mainStep, hp, peerLoop, YoungAt.answer]
  | answer =>
    cases pending <;>
      simp [PipecatVoice.mainStep, hp, callbackPc, YoungAt.led, YoungAt.unanswered]
  | led => exact ⟨rfl, _, hp, Or.inr .store⟩
  | store => simp [PipecatVoice.mainStep, hp, YoungAt.answered]
  | unanswered => exact ⟨rfl, _, hp, Or.inl rfl⟩
  | answered => exact ⟨rfl, _, hp, Or.inl rfl⟩

/-- `peer_dead_` stays as it is while the peer is young. -/
theorem YoungAt.mainStep_peerDead {st : PeerState} (h : YoungAt m.pc st) :
    (PipecatVoice.mainStep cfg us net sh m).1.peerDead = sh.peerDead := by
  have hreport := h.keeps_peerDead
  rw [PipecatVoice.mainStep_peerDead, hreport]
  cases hpc : m.pc <;> rw [hpc] at h <;> first | rfl | cases h

end Main

theorem captureStep_peerDead (cfg : Config) (us : ℕ) (mic : Mic) (sh : Shared) (c : CaptureTask) :
    (captureStep cfg us mic sh c).1.peerDead = sh.peerDead := by
  obtain ⟨pc, _⟩ := c
  cases pc <;> simp only [captureStep]
  all_goals
    (repeat' split) <;> rfl

theorem captureStep_built (cfg : Config) (us : ℕ) (mic : Mic) (sh : Shared) (c : CaptureTask) :
    (captureStep cfg us mic sh c).1.built = sh.built := by
  obtain ⟨pc, _⟩ := c
  cases pc <;> simp only [captureStep]
  all_goals
    (repeat' split) <;> rfl

/-- The main loop is in the iteration that built the peer. -/
def Young (s : State) : Prop :=
  s.sh.connected = false ∧ ¬ s.lost ∧ ∃ p ∈ s.sh.peer, YoungAt s.main.pc p.state

theorem Young.unbuilt {s : State} (h : Young s) : Unbuilt s := by
  obtain ⟨-, -, p, -, hyoung⟩ := h
  intro hpc
  rw [hpc] at hyoung
  cases hyoung

/-! ## Runs -/

/-- What holds of a run as long as the lifecycle machine mirrors the session. -/
structure MirrorInv (s : State) : Prop where
  /-- the peer's lifetime -/
  lifetime : PeerInv s
  /-- no event finds a state to leave -/
  idle : s.main.fsm = .idle
  /-- no peer but a built one -/
  unbuilt : s.sh.built = 0 → s.sh.peer = none
  /-- a bring-up begins without a loss -/
  fresh : s.main.pc.bringsUp → ¬ s.lost

theorem mirrorInv_start (us : ℕ) : MirrorInv (start us) where
  lifetime := peerInv_start us
  idle := rfl
  unbuilt := fun _ => rfl
  fresh := fun h => absurd h Bool.false_ne_true

theorem MirrorInv.step {cfg : Config} {s : State} (h : MirrorInv s) (a : Action) :
    MirrorInv (step cfg s a) := by
  have hlife : PeerInv (PipecatVoice.step cfg s a) := h.lifetime.step a
  cases a with
  | main net =>
    refine ⟨hlife, mainStep_fsm_idle cfg s.us net s.sh s.main h.idle, ?_, ?_⟩
    · simp only [step_main_sh, mainStep_built, mainStep_peer]
      intro hbuilt
      split_ifs at hbuilt with hcreate
      rw [if_neg hcreate, h.unbuilt hbuilt]
      exact ite_self _
    · intro hbrings
      rw [State.lost, step_main_sh, mainStep_peerDead]
      obtain hpc | hpc := bringsUp_of_mainStep _ _ _ _ _ hbrings
      · rw [if_pos (Or.inl hpc)]
        exact Bool.false_ne_true
      · have hfresh := h.fresh (by rw [hpc]; rfl)
        rw [hpc]
        exact hfresh
  | capture mic =>
    have hpeer := captureStep_peer cfg s.us mic s.sh s.cap
    refine ⟨hlife, h.idle, ?_, ?_⟩
    · rw [step_capture_sh, hpeer, captureStep_built]
      exact h.unbuilt
    · rw [State.lost, step_capture_sh, captureStep_peerDead]
      exact h.fresh
  | elapse us => exact ⟨hlife, h.2, h.3, h.4⟩
  | playback muted => exact ⟨hlife, h.2, h.3, h.4⟩
  | web cmd => exact ⟨hlife, h.2, h.3, h.4⟩

/-- No peer has been built, or the first one in this iteration. -/
def FirstPeer (s : State) : Prop := s.sh.built = 0 ∨ Young s

theorem FirstPeer.unbuilt {s : State} (h : FirstPeer s) : Unbuilt s := by
  obtain hbuilt | hyoung := h
  · exact fun _ => hbuilt
  · exact hyoung.unbuilt

section

variable {cfg : Config} {s : State}

/-- Without a peer there is no connection. -/
theorem MirrorInv.not_connected (h : MirrorInv s) (hbuilt : s.sh.built = 0) :
    s.sh.connected = false := by
  rw [← Bool.not_eq_true]
  intro hconn
  have hpeer := h.lifetime.connected hconn
  rw [h.unbuilt hbuilt] at hpeer
  cases hpeer

/-- The iteration that built the first peer does not end in agreement. -/
theorem FirstPeer.main (hf : FirstPeer s) (h : MirrorInv s) (net : Net)
    (hm : Mirrors (step cfg s (.main net))) : FirstPeer (step cfg s (.main net)) := by
  obtain hbuilt | ⟨hconn, hlost, p, hp, hyoung⟩ := hf
  · by_cases hcreate : s.main.pc = .buildCreate ∧ net.created
    · obtain ⟨hpc, hcreated⟩ := hcreate
      refine Or.inr ⟨?_, ?_, ⟨s.sh.built, .closed, false⟩, ?_, ?_⟩
      · simpa [mainStep, hpc, hcreated] using h.not_connected hbuilt
      · have hfresh := h.fresh (by rw [hpc]; rfl)
        simpa [State.lost, mainStep, hpc, hcreated] using hfresh
      · simp [mainStep, hpc, hcreated]
      · simpa [mainStep, hpc, hcreated] using YoungAt.offer
    · refine Or.inl ?_
      rw [step_main_sh, mainStep_built, if_neg hcreate]
      exact hbuilt
  · obtain ⟨hsame, p', hp', htop | hyoung'⟩ :=
      hyoung.mainStep cfg s.us net s.sh s.main hp
    · -- at the head of the next iteration the peer waits for its connection
      have hidle := mainStep_fsm_idle cfg s.us net s.sh s.main h.idle
      have hoffered : (step cfg s (.main net)).offered := by
        rw [State.offered, step_main_sh, step_main_main, htop, Option.mem_def.mp hp']
        rfl
      have hlost' : ¬ (step cfg s (.main net)).lost := by
        rw [State.lost, step_main_sh, hyoung.mainStep_peerDead]
        exact hlost
      have hnegotiating := (hm htop).2 hoffered (by simp [hsame, hconn]) hlost'
      rw [step_main_main, hidle] at hnegotiating
      cases hnegotiating
    · refine Or.inr ⟨hsame.trans hconn, ?_, p', hp', hyoung'⟩
      rw [State.lost, step_main_sh, hyoung.mainStep_peerDead]
      exact hlost

theorem FirstPeer.step (hf : FirstPeer s) (h : MirrorInv s) (a : Action)
    (hm : Mirrors (step cfg s a)) : FirstPeer (step cfg s a) := by
  cases a with
  | main net => exact hf.main h net hm
  | capture mic =>
    simp only [FirstPeer, Young, State.lost, step_capture_sh, step_capture_main,
      captureStep_built, captureStep_peer, captureStep_connected, captureStep_peerDead]
    exact hf
  | elapse us => exact hf
  | playback muted => exact hf
  | web cmd => exact hf

/-- Without a peer there is nothing to mirror. -/
theorem MirrorInv.mirrors (h : MirrorInv s) (hun : Unbuilt s) : Mirrors s := by
  intro hpc
  have hbuilt := hun hpc
  rw [h.idle, h.not_connected hbuilt]
  refine ⟨by decide, ?_⟩
  intro hoffered
  rw [State.offered, h.unbuilt hbuilt] at hoffered
  cases hoffered

end

/-- **Agreement, exactly when**: the lifecycle machine mirrors the session at
the head of every iteration of a run, if and only if no iteration that built a
peer has come to its end. -/
theorem mirrors_iff (cfg : Config) (us : ℕ) (as : List Action) :
    Runs.Always (step cfg) Mirrors (start us) as ↔
      Runs.Always (step cfg) Unbuilt (start us) as := by
  have hinv : Runs.Always (step cfg) MirrorInv (start us) as :=
    Runs.always_induct (fun _ a h => h.step a) as (mirrorInv_start us)
  refine ⟨?_, ?_⟩
  · intro hmirrors
    have hfirst : Runs.Always (step cfg) FirstPeer (start us) as :=
      Runs.Always.keeps (fun _ a hf hs hs' => hf.step hs.1 a hs'.2) (Or.inl rfl)
        (Runs.always_and.mpr ⟨hinv, hmirrors⟩)
    exact hfirst.imp fun _ => FirstPeer.unbuilt
  · intro hun
    exact (Runs.always_and.mpr ⟨hinv, hun⟩).imp fun _ hs => hs.1.mirrors hs.2

/-- A wake word brings a session up, and the iteration of the Completed callback
ends: the session is connected, its lifecycle idle. -/
theorem mirrors_idleWhileConnected :
    let s := Runs.run (step device) (start 0)
      (wakeFrame ++ bringUp ++ List.replicate 10 (.main {}))
    s.main.pc = .top ∧ s.sh.connected ∧ s.main.fsm = .idle ∧ ¬ Mirrors s := by
  decide +kernel

end PipecatVoice
