import PipecatVoice.PeerPhase

/-!
# The hand-over of the backlog

The capture task loads `connected_`, then takes `peer_mtx_`, tests `peer_` and
pops packets for `sendAudio`, whose result it ignores. A packet is lost if the
peer refuses it. Two windows are open: `connected_` is set inside the callback,
before libpeer has stored Completed; and between the load and the lock the peer
can be lost or replaced.

* `recordStale` — whether the load is out of date;
* `handover_iff` — no packet is lost in exactly the runs that pop in neither
  window.
-/

namespace PipecatVoice

open Runs

namespace CapturePc

/-- The capture task has loaded `connected_` as true. -/
def flushing : CapturePc → Bool
  | .lock | .testPeer | .send _ | .sendLive | .unlock => true
  | _ => false

end CapturePc

/-- The capture task is about to take a packet out of the backlog for
`sendAudio`. -/
def CaptureTask.pops (c : CaptureTask) : Bool :=
  match c.pc with
  | .send (_ + 1) => c.ring.pop.isSome
  | _ => false

/-- `sendAudio` would accept a packet. -/
def Shared.accepts (sh : Shared) : Bool := sh.peer.any fun p => 0 ≤ p.sendAudio

/-- A packet popped in this step is accepted. -/
def popAccepted (s : State) : Action → Bool
  | .capture _ => !s.cap.pops || s.sh.accepts
  | _ => true

/-- The load of `connected_` is out of date: after it a new peer was built, or
libpeer stored another state than Completed, and Completed was not stored since. -/
def recordStale (stale : Bool) (s : State) : Action → Bool
  | .main net =>
    if s.main.pc = .buildCreate ∧ net.created then true
    else
      match s.main.pc.stores with
      | some st => st ≠ .completed
      | none => stale
  | .capture _ => if s.cap.pc = .loadConnected then false else stale
  | _ => stale

/-- A packet popped in this step is popped outside both windows. -/
def outsideWindows (x : State × Bool) : Action → Bool
  | .capture _ => !x.1.cap.pops || (!x.2 && !x.1.main.pc.completing)
  | _ => true

/-- Every task's step, with the staleness of the load beside it. -/
abbrev handoverStep (cfg : Config) : State × Bool → Action → State × Bool :=
  observe (step cfg) recordStale

theorem CaptureTask.sending_of_pops {c : CaptureTask} (h : c.pops) : c.pc.sending := by
  obtain ⟨pc, _⟩ := c
  cases pc <;> first | rfl | cases h

theorem CapturePc.flushing_of_sending {pc : CapturePc} (h : pc.sending) : pc.flushing := by
  cases pc <;> first | rfl | cases h

theorem flushing_of_captureStep {cfg : Config} {us : ℕ} {mic : Mic} {sh : Shared} {c : CaptureTask}
    (h : (captureStep cfg us mic sh c).2.pc.flushing) :
    (c.pc.flushing ∧ c.pc ≠ .loadConnected) ∨ (c.pc = .loadConnected ∧ sh.connected) := by
  obtain ⟨pc, _⟩ := c
  cases pc <;> simp only [captureStep] at h
  all_goals
    (repeat' split at h) <;> simp_all [CapturePc.flushing]

theorem accepts_iff {sh : Shared} : sh.accepts ↔ ∃ p ∈ sh.peer, p.state = .completed := by
  rcases hpeer : sh.peer with _ | p
  · simp [Shared.accepts, hpeer]
  · by_cases hst : p.state = .completed <;> simp [Shared.accepts, hpeer, Peer.sendAudio, hst]

/-- What the load of `connected_` is worth to the flush. -/
structure HandoverInv (x : State × Bool) : Prop where
  /-- the phases of the connection -/
  phase : PhaseInv x.1
  /-- a flush whose load is up to date has a completed peer, or soon will -/
  fresh : x.1.cap.pc.flushing → x.2 = false →
    ∀ p ∈ x.1.sh.peer, p.state = .completed ∨ x.1.main.pc.completing
  /-- after a load that is out of date, no peer is completed -/
  stale : x.2 = true → ∀ p ∈ x.1.sh.peer, p.state ≠ .completed

section

variable {cfg : Config} {x : State × Bool}

theorem HandoverInv.main (h : HandoverInv x) (net : Net) :
    HandoverInv (handoverStep cfg x (.main net)) where
  phase := h.phase.main net
  fresh := by
    rintro hflush hfresh p' hp'
    have hwindow := mainStep_completing cfg x.1.us net x.1.sh x.1.main h.phase.callback
    simp only [observe_snd, recordStale] at hfresh
    obtain ⟨-, ⟨hbuild, hcreated, rfl⟩ | ⟨hcreate, p, hp, rfl⟩⟩ :=
      mem_peer_of_mainStep _ _ _ _ _ hp'
    · rw [if_pos ⟨hbuild, hcreated⟩] at hfresh
      cases hfresh
    · rw [if_neg fun hpc => hcreate hpc.1 hpc.2] at hfresh
      rcases hst : x.1.main.pc.stores with _ | st
      · rw [hst] at hfresh
        rcases h.fresh hflush hfresh p hp with hcompleted | hcompleting
        · exact Or.inl (by rw [MainPc.carry_state, hst]; exact hcompleted)
        · exact Or.inr (hwindow.mpr (Or.inr ⟨hcompleting, hst⟩))
      · rw [hst] at hfresh
        have hcompleted : st = .completed := by simpa using hfresh
        exact Or.inl (by rw [MainPc.carry_state, hst, hcompleted]; rfl)
  stale := by
    rintro hstale p' hp'
    simp only [observe_snd, recordStale] at hstale
    obtain ⟨-, ⟨-, -, rfl⟩ | ⟨hcreate, p, hp, rfl⟩⟩ := mem_peer_of_mainStep _ _ _ _ _ hp'
    · exact PeerState.noConfusion
    · rw [if_neg fun hpc => hcreate hpc.1 hpc.2] at hstale
      rw [MainPc.carry_state]
      rcases hst : x.1.main.pc.stores with _ | st
      · rw [hst] at hstale
        exact h.stale hstale p hp
      · rw [hst] at hstale
        simpa using hstale

theorem HandoverInv.capture (h : HandoverInv x) (mic : Mic) :
    HandoverInv (handoverStep cfg x (.capture mic)) where
  phase := h.phase.step (.capture mic)
  fresh := by
    rintro hflush hfresh p hp
    rw [observe_fst, step_capture_sh, captureStep_peer] at hp
    rcases flushing_of_captureStep hflush with ⟨hold, hpc⟩ | ⟨-, hconn⟩
    · rw [observe_snd, recordStale, if_neg hpc] at hfresh
      exact h.fresh hold hfresh p hp
    · exact h.phase.connected hconn p hp
  stale := by
    rintro hstale p hp
    rw [observe_fst, step_capture_sh, captureStep_peer] at hp
    rw [observe_snd, recordStale] at hstale
    split at hstale
    · cases hstale
    · exact h.stale hstale p hp

theorem HandoverInv.step (h : HandoverInv x) (a : Action) : HandoverInv (handoverStep cfg x a) := by
  have hphase : PhaseInv (PipecatVoice.step cfg x.1 a) := h.phase.step a
  cases a with
  | main net => exact h.main net
  | capture mic => exact h.capture mic
  | elapse us => exact ⟨hphase, h.fresh, h.stale⟩
  | playback muted => exact ⟨hphase, h.fresh, h.stale⟩
  | web cmd => exact ⟨hphase, h.fresh, h.stale⟩

/-- The peer is not completed before libpeer has stored so. -/
theorem PhaseInv.ne_completed {s : State} (h : PhaseInv s) (hcompleting : s.main.pc.completing)
    {p : Peer} (hp : p ∈ s.sh.peer) : p.state ≠ .completed := by
  have htarget : s.main.pc.target = some .completed := by
    cases hpc : s.main.pc <;> rw [hpc] at hcompleting <;> try cases hcompleting
    case storeState st => cases st <;> first | rfl | cases hcompleting
    all_goals rfl
  have hedge := h.edge _ htarget p hp
  intro hcompleted
  rw [hcompleted] at hedge
  cases hedge

/-- A pop is accepted exactly outside the windows. -/
theorem HandoverInv.popAccepted_eq (h : HandoverInv x) (a : Action) :
    popAccepted x.1 a = outsideWindows x a := by
  cases a with
  | capture mic =>
    rcases hpops : x.1.cap.pops with _ | _
    · simp [popAccepted, outsideWindows, hpops]
    · have hsending := CaptureTask.sending_of_pops hpops
      obtain ⟨p, hp⟩ := Option.isSome_iff_exists.mp (h.phase.lifetime.sending hsending)
      have haccepts : x.1.sh.accepts ↔ p.state = .completed := by simp [accepts_iff, hp]
      have houtside : p.state = .completed ↔ x.2 = false ∧ x.1.main.pc.completing = false := by
        refine ⟨?_, ?_⟩
        · intro hcompleted
          refine ⟨?_, ?_⟩
          · rw [← Bool.not_eq_true]
            exact fun hstale => h.stale hstale p hp hcompleted
          · rw [← Bool.not_eq_true]
            exact fun hcompleting => h.phase.ne_completed hcompleting hp hcompleted
        · rintro ⟨hfresh, hwindow⟩
          rcases h.fresh (CapturePc.flushing_of_sending hsending) hfresh p hp with hdone | hopen
          · exact hdone
          · rw [hwindow] at hopen
            cases hopen
      rw [Bool.eq_iff_iff]
      simp [popAccepted, outsideWindows, hpops, haccepts, houtside]
  | _ => rfl

end

theorem handoverInv_start (us : ℕ) : HandoverInv (start us, false) :=
  ⟨phaseInv_start us, nofun, nofun⟩

/-- **No packet is lost at the hand-over** in exactly the runs that pop no packet
between the store to `connected_` and libpeer's store of Completed, and none after
a load of `connected_` that is out of date. -/
theorem handover_iff (cfg : Config) (us : ℕ) (as : List Action) :
    Meets (step cfg) popAccepted (start us) as ↔
      Meets (observe (step cfg) recordStale) outsideWindows (start us, false) as := by
  have hstep : ∀ x a, HandoverInv x → HandoverInv (handoverStep cfg x a) := fun _ a h => h.step a
  have hguard : ∀ x a, HandoverInv x → popAccepted x.1 a = outsideWindows x a :=
    fun _ a h => h.popAccepted_eq a
  rw [← meets_observe (step cfg) recordStale popAccepted as (start us, false),
    meets_congr hstep hguard as (handoverInv_start us)]

/-- The flush runs between the store to `connected_` and libpeer's store: the
first packet is popped and refused. -/
theorem handover_loses :
    ¬ Meets (step device) popAccepted (start 0)
      (wakeFrame ++ bringUp ++ .main {} :: List.replicate 4 (.capture {})) := by
  decide +kernel

end PipecatVoice
