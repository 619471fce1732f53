import PipecatVoice.SessionSteps

/-!
# The lifetime of the peer

`peer_` is built and first reset without `peer_mtx_`, reset under it in three
other branches, and used by the capture task under it. What makes this safe is
an invariant of the two tasks (`PeerInv`): the mutex excludes them, the unlocked
code runs when there is no peer, and `connected_` is false whenever a peer is
about to go.

* `peer_outlives_send` — no peer is destroyed while the capture task is between
  its test and its unlock, so it never sends on a destroyed one;
* in every reachable state `connected_` implies that there is a peer.
-/

namespace PipecatVoice

/-- The invariant behind the peer's lifetime. -/
structure PeerInv (s : State) : Prop where
  /-- the main loop owns the mutex exactly in its critical sections -/
  mtx_main : s.main.pc.holdsMtx ↔ s.sh.peerMtx = some .main
  /-- the capture task owns the mutex exactly in its critical section -/
  mtx_capture : s.cap.pc.holdsMtx ↔ s.sh.peerMtx = some .capture
  /-- `buildAndOffer` begins without a peer -/
  no_peer : s.main.pc.noPeer → s.sh.peer = none
  /-- the callbacks run with a peer -/
  has_peer : s.main.pc.pumps → s.sh.peer.isSome
  /-- a locked reset runs with `connected_` false -/
  cleared : s.main.pc.cleared → s.sh.connected = false
  /-- `connected_` implies a peer -/
  connected : s.sh.connected → s.sh.peer.isSome
  /-- the capture task sends on a peer -/
  sending : s.cap.pc.sending → s.sh.peer.isSome

theorem peerInv_start (us : ℕ) : PeerInv (start us) := by
  constructor <;> simp [start, MainPc.holdsMtx, CapturePc.holdsMtx, MainPc.noPeer, MainPc.pumps,
    MainPc.cleared, CapturePc.sending]

section

variable {cfg : Config} {s : State}

/-- While the capture task sends, the main loop does not take the peer away. -/
theorem PeerInv.not_resets (h : PeerInv s) (hmtx : s.cap.pc.holdsMtx) (hpeer : s.sh.peer.isSome) :
    ¬ s.main.pc.resets := by
  intro hreset
  rcases MainPc.resets_cases hreset with hno | ⟨hmain, -⟩
  · rw [h.no_peer hno] at hpeer
    cases hpeer
  · have howner := h.mtx_main.mp hmain
    rw [h.mtx_capture.mp hmtx] at howner
    cases howner

/-- While `connected_` is set, the main loop does not take the peer away. -/
theorem PeerInv.not_resets_of_connected (h : PeerInv s) (hconn : s.sh.connected) :
    ¬ s.main.pc.resets := by
  intro hreset
  rcases MainPc.resets_cases hreset with hno | ⟨-, hcleared⟩
  · have hpeer := h.connected hconn
    rw [h.no_peer hno] at hpeer
    cases hpeer
  · rw [h.cleared hcleared] at hconn
    cases hconn

/-- The mutex half of the invariant, for a step of the main loop. -/
theorem PeerInv.main_mtx (h : PeerInv s) (net : Net) :
    ((mainStep cfg s.us net s.sh s.main).2.pc.holdsMtx ↔
        (mainStep cfg s.us net s.sh s.main).1.peerMtx = some .main) ∧
      (s.cap.pc.holdsMtx ↔
        (mainStep cfg s.us net s.sh s.main).1.peerMtx = some .capture) := by
  rw [mainStep_holdsMtx, mainStep_peerMtx, h.mtx_main, h.mtx_capture]
  by_cases hlock : s.main.pc.locks ∧ s.sh.peerMtx = none
  · simp [hlock]
  · rw [if_neg hlock]
    by_cases hunlock : s.main.pc.unlocks
    · have howner := h.mtx_main.mp (MainPc.holdsMtx_of_unlocks hunlock)
      simp [hunlock, howner]
    · simp [hlock, hunlock]

/-- **The main loop keeps the invariant.** -/
theorem PeerInv.main (h : PeerInv s) (net : Net) : PeerInv (step cfg s (.main net)) where
  mtx_main := (h.main_mtx net).1
  mtx_capture := (h.main_mtx net).2
  no_peer := by
    intro hno
    rw [step_main_sh]
    have hsome := mainStep_peer_isSome cfg s.us net s.sh s.main
    rcases noPeer_of_mainStep _ _ _ _ _ hno with ⟨hpc, hpeer⟩ | ⟨hpc, hcreate⟩
    · simpa [hpc, hpeer] using hsome
    · simpa [hcreate, h.no_peer hpc] using hsome
  has_peer := by
    intro hpumps
    refine (mainStep_peer_isSome _ _ _ _ _).mpr ?_
    rcases pumps_of_mainStep _ _ _ _ _ hpumps with hpc | ⟨hpeer, hreset⟩
    · exact ⟨MainPc.not_resets_of_pumps hpc, Or.inr (h.has_peer hpc)⟩
    · exact ⟨hreset, Or.inr hpeer⟩
  cleared := by
    intro hcleared
    exact mainStep_connected_of_clears _ _ _ _ _ (cleared_of_mainStep _ _ _ _ _ hcleared)
  connected := by
    intro hconn
    refine (mainStep_peer_isSome _ _ _ _ _).mpr ?_
    obtain hpc | ⟨hold, -⟩ := connected_of_mainStep _ _ _ _ _ hconn
    · -- the callback runs with a peer
      have hpumps : s.main.pc.pumps := by rw [hpc]; rfl
      exact ⟨MainPc.not_resets_of_pumps hpumps, Or.inr (h.has_peer hpumps)⟩
    · exact ⟨h.not_resets_of_connected hold, Or.inr (h.connected hold)⟩
  sending := by
    intro hsend
    have hpeer := h.sending hsend
    exact (mainStep_peer_isSome _ _ _ _ _).mpr
      ⟨h.not_resets (CapturePc.holdsMtx_of_sending hsend) hpeer, Or.inr hpeer⟩

/-- **The capture task keeps the invariant.** -/
theorem PeerInv.capture (h : PeerInv s) (mic : Mic) : PeerInv (step cfg s (.capture mic)) := by
  have hpeer := captureStep_peer cfg s.us mic s.sh s.cap
  have hconn := captureStep_connected cfg s.us mic s.sh s.cap
  have hmtx := captureStep_peerMtx cfg s.us mic s.sh s.cap
  have hholds := captureStep_holdsMtx cfg s.us mic s.sh s.cap
  constructor
  · show s.main.pc.holdsMtx ↔ (captureStep cfg s.us mic s.sh s.cap).1.peerMtx = _
    rw [hmtx, h.mtx_main]
    by_cases hlock : s.cap.pc = .lock ∧ s.sh.peerMtx = none
    · simp [hlock]
    · rw [if_neg hlock]
      by_cases hunlock : s.cap.pc = .unlock
      · have howner := h.mtx_capture.mp (by rw [hunlock]; rfl)
        simp [hunlock, howner]
      · rw [if_neg hunlock]
  · show (captureStep cfg s.us mic s.sh s.cap).2.pc.holdsMtx ↔
      (captureStep cfg s.us mic s.sh s.cap).1.peerMtx = _
    rw [hholds, hmtx, h.mtx_capture]
    by_cases hlock : s.cap.pc = .lock ∧ s.sh.peerMtx = none
    · simp [hlock]
    · rw [if_neg hlock]
      by_cases hunlock : s.cap.pc = .unlock
      · simp [hunlock]
      · simp [hlock, hunlock]
  · exact fun hno => hpeer.trans (h.no_peer hno)
  · exact fun hpumps => (congrArg Option.isSome hpeer).trans (h.has_peer hpumps)
  · exact fun hcleared => hconn.trans (h.cleared hcleared)
  · intro hset
    exact (congrArg Option.isSome hpeer).trans (h.connected (hconn.symm.trans hset))
  · intro hsend
    refine (congrArg Option.isSome hpeer).trans ?_
    rcases sending_of_captureStep _ _ _ _ _ hsend with hpc | ⟨-, hsome⟩
    · exact h.sending hpc
    · exact hsome

/-- Every action keeps the invariant. -/
theorem PeerInv.step (h : PeerInv s) (a : Action) : PeerInv (step cfg s a) := by
  cases a with
  | main net => exact h.main net
  | capture mic => exact h.capture mic
  | elapse us => exact ⟨h.1, h.2, h.3, h.4, h.5, h.6, h.7⟩
  | playback muted => exact ⟨h.1, h.2, h.3, h.4, h.5, h.6, h.7⟩
  | web cmd => exact ⟨h.1, h.2, h.3, h.4, h.5, h.6, h.7⟩

end

/-- The invariant holds in every reachable state. -/
theorem peerInv_run (cfg : Config) (us : ℕ) (as : List Action) :
    PeerInv (Runs.run (step cfg) (start us) as) :=
  Runs.run_induct (fun _ a h => h.step a) as (peerInv_start us)

/-- **The peer outlives the send**: after any schedule, as long as the capture
task is between its test of `peer_` and its unlock, no step destroys the peer
there is; it sends only on one; and `connected_` implies that there is one. -/
theorem peer_outlives_send (cfg : Config) (us : ℕ) (as : List Action) :
    let s := Runs.run (step cfg) (start us) as
    (s.cap.pc.sending ∨ s.cap.pc = .unlock → ∀ p ∈ s.sh.peer, ∀ a,
        ∃ p' ∈ (step cfg s a).sh.peer, p'.id = p.id) ∧
      (s.cap.pc.sending → s.sh.peer.isSome) ∧
      (s.sh.connected → s.sh.peer.isSome) := by
  intro s
  have h : PeerInv s := peerInv_run cfg us as
  refine ⟨?_, h.sending, h.connected⟩
  rintro hpc p hp a
  have hmtx : s.cap.pc.holdsMtx := by
    rcases hpc with hsend | hunlock
    · exact CapturePc.holdsMtx_of_sending hsend
    · rw [hunlock]
      rfl
  have hsome : s.sh.peer.isSome := by
    rw [Option.mem_def.mp hp]
    rfl
  cases a with
  | main net =>
    -- the main loop is in no place that resets, and `buildAndOffer` has not begun
    have hid := mainStep_peerId cfg s.us net s.sh s.main
    have hcreate : ¬ (s.main.pc = .buildCreate ∧ net.created) := by
      rintro ⟨hbuild, -⟩
      rw [h.no_peer (by rw [hbuild]; rfl)] at hsome
      cases hsome
    rw [if_neg (h.not_resets hmtx hsome), if_neg hcreate, Option.mem_def.mp hp] at hid
    obtain ⟨p', hp', hpid⟩ := Option.map_eq_some_iff.mp hid
    exact ⟨p', hp', hpid⟩
  | capture mic => exact ⟨p, (captureStep_peer cfg s.us mic s.sh s.cap).trans hp, rfl⟩
  | elapse us => exact ⟨p, hp, rfl⟩
  | playback muted => exact ⟨p, hp, rfl⟩
  | web cmd => exact ⟨p, hp, rfl⟩

end PipecatVoice
