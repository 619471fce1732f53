import PipecatVoice.Lib.Ticks
import PipecatVoice.SessionSteps

/-!
# The connection budget of a turn

A turn runs from the wake word's exchange of false for true in
`conversation_active_` to the next store of false. The main loop ends one when
the reconnects are used up, when a connect attempt takes too long, or when
signaling fails; its counters are meant to be those of the turn. It learns of a
new turn from the value it samples at the head of an iteration, and so misses an
idle gap shorter than an iteration.

* `BudgetHistory` — what has been done within the turn, and what the main loop
  carried into it;
* `ownBudget_iff` — every turn is ended on its own budget in exactly the runs
  where nothing that was carried into a turn ends it.
-/

namespace PipecatVoice

open Runs

/-- What a run has done within the current turn. -/
structure BudgetHistory where
  /-- reconnects performed -/
  reconnects : ℕ
  /-- when the last connect attempt began, in microseconds -/
  attempt : Option ℕ
  /-- an offer was started -/
  offered : Bool
  /-- when the main loop's iteration read the tick counter, in microseconds -/
  nowUs : ℕ
  /-- reconnects of earlier turns in the main loop's count -/
  carriedReconnects : ℕ
  /-- the peer was built, or being built, before the turn -/
  carriedAttempt : Bool
  /-- the offer being signaled was started before the turn -/
  carriedOffer : Bool

namespace MainPc

/-- The main loop is about to build a peer. -/
def builds : MainPc → Bool
  | .buildReset | .buildCreate => true
  | _ => false

/-- The main loop watches a connection. -/
def watches : MainPc → Bool
  | .liveConnected | .liveRxPkt | .liveDead | .giveUp | .stallTest | .stall => true
  | _ => false

/-- The main loop is in a branch it takes only for a turn it has sampled. -/
def wants (pc : MainPc) : Bool := pc = .connectBegin || pc.builds || pc.watches

/-- The main loop tears a session down, and has not reset the peer yet. -/
def down : MainPc → Bool
  | .downLock | .downClear | .downReset => true
  | _ => false

end MainPc

/-- The main loop is about to reconnect. -/
def MainTask.reconnecting (m : MainTask) (sh : Shared) : Bool :=
  m.pc = .liveDead && (sh.peerDead || m.mediaDead) && decide (m.reconnects < maxReconnectsPerTurn)

/-- The wake word begins a turn in this step. -/
def State.wakes (s : State) (mic : Mic) : Bool :=
  s.cap.pc = .wake && mic.fired && !s.sh.conversationActive

/-- The history, one step on. -/
def recordBudget (h : BudgetHistory) (s : State) : Action → BudgetHistory
  | .main net =>
    { h with
      nowUs := if s.main.pc = .top then s.us else h.nowUs
      reconnects := if s.main.reconnecting s.sh then h.reconnects + 1 else h.reconnects
      attempt := if s.main.pc = .connectBegin then some h.nowUs else h.attempt
      carriedAttempt := if s.main.pc = .connectBegin then false else h.carriedAttempt
      offered := if s.main.pc = .buildCreate ∧ net.created then true else h.offered
      carriedOffer := if s.main.pc = .buildCreate ∧ net.created then false else h.carriedOffer }
  | .capture mic =>
    if s.wakes mic then
      { h with
        reconnects := 0
        attempt := none
        offered := false
        carriedReconnects := if s.main.prevWant then s.main.reconnects else 0
        carriedAttempt := s.main.prevWant && (s.sh.peer.isSome || s.main.pc.builds)
        carriedOffer := s.main.pc = .buildOffer }
    else h
  | _ => h

/-- If the main loop ends a turn in this step, then for a lost connection only
after `kMaxReconnectsPerTurn` reconnects within the turn, for a connect timeout
only more than `kConnectTimeoutMs` after an attempt that began within the turn,
and for failed signaling only if the offer was started within the turn. -/
def ownBudget (x : State × BudgetHistory) : Action → Bool
  | .main net =>
    !x.1.sh.conversationActive ||
      match x.1.main.pc with
      | .giveUp => maxReconnectsPerTurn ≤ x.2.reconnects
      | .stall => x.2.attempt.any fun began => began + connectTimeoutMs * 1000 < x.1.us
      | .buildOffer => net.answered || x.2.offered
      | _ => true
  | _ => true

/-- If the main loop ends a turn in this step, then not for what it carried into
it. -/
def nothingCarried (x : State × BudgetHistory) : Action → Bool
  | .main net =>
    !x.1.sh.conversationActive ||
      match x.1.main.pc with
      | .giveUp => x.2.carriedReconnects = 0
      | .stall => !x.2.carriedAttempt
      | .buildOffer => net.answered || !x.2.carriedOffer
      | _ => true
  | _ => true

section Steps

variable (cfg : Config) (us : ℕ) (net : Net) (sh : Shared) (m : MainTask)

theorem mainStep_prevWant : (mainStep cfg us net sh m).2.prevWant =
    if m.pc = .sample then sh.conversationActive else m.prevWant := by
  obtain ⟨pc, _⟩ := m
  cases pc <;> first | rfl | skip
  all_goals
    simp only [mainStep]
    (repeat' split) <;> simp_all

theorem mainStep_reconnects : (mainStep cfg us net sh m).2.reconnects =
    if m.pc = .sample ∧ sh.conversationActive ∧ ¬ m.prevWant then 0
    else if m.reconnecting sh then m.reconnects + 1 else m.reconnects := by
  obtain ⟨pc, _⟩ := m
  cases pc <;> first | rfl | skip
  all_goals
    simp only [mainStep, MainTask.reconnecting]
    (repeat' split) <;> simp_all <;> omega

theorem mainStep_now : (mainStep cfg us net sh m).2.now =
    if m.pc = .top then cfg.tickAt us else m.now := by
  obtain ⟨pc, _⟩ := m
  cases pc <;> first | rfl | skip
  all_goals
    simp only [mainStep]
    (repeat' split) <;> simp_all

theorem mainStep_connectStarted : (mainStep cfg us net sh m).2.connectStarted =
    if m.pc = .connectBegin then m.now else m.connectStarted := by
  obtain ⟨pc, _⟩ := m
  cases pc <;> first | rfl | skip
  all_goals
    simp only [mainStep]
    (repeat' split) <;> simp_all

theorem wants_of_mainStep (h : (mainStep cfg us net sh m).2.pc.wants) :
    (m.pc.wants ∧ m.pc ≠ .sample) ∨ (m.pc = .sample ∧ sh.conversationActive) := by
  obtain ⟨pc, _⟩ := m
  cases pc <;> simp only [mainStep, branchPc, callbackPc, peerLoop] at h
  all_goals
    (repeat' split at h) <;> simp_all [MainPc.wants, MainPc.builds, MainPc.watches]

theorem builds_of_mainStep (h : (mainStep cfg us net sh m).2.pc.builds) :
    m.pc = .connectBegin ∨ m.pc.builds := by
  obtain ⟨pc, _⟩ := m
  cases pc <;> simp only [mainStep, branchPc, callbackPc, peerLoop] at h
  all_goals
    (repeat' split at h) <;> simp_all [MainPc.builds]

theorem watches_of_mainStep (h : (mainStep cfg us net sh m).2.pc.watches) :
    (m.pc.watches ∨ m.pc = .sample) ∧ (m.pc = .sample → sh.peer.isSome) := by
  obtain ⟨pc, _⟩ := m
  cases pc <;> simp only [mainStep, branchPc, callbackPc, peerLoop] at h
  all_goals
    (repeat' split at h) <;> simp_all [MainPc.watches]

theorem giveUp_of_mainStep (h : (mainStep cfg us net sh m).2.pc = .giveUp) :
    m.pc = .liveDead ∧ m.reconnecting sh = false ∧ maxReconnectsPerTurn ≤ m.reconnects := by
  obtain ⟨pc, _⟩ := m
  cases pc <;> simp only [mainStep, branchPc, callbackPc, peerLoop] at h
  all_goals
    (repeat' split at h) <;> simp_all [MainTask.reconnecting]

theorem stall_of_mainStep (h : (mainStep cfg us net sh m).2.pc = .stall) :
    m.pc = .stallTest ∧ cfg.msToTicks connectTimeoutMs < m.now - m.connectStarted := by
  obtain ⟨pc, _⟩ := m
  cases pc <;> simp only [mainStep, branchPc, callbackPc, peerLoop] at h
  all_goals
    (repeat' split at h) <;> simp_all

end Steps

/-! ## The main loop by itself -/

/-- What the main loop keeps between iterations. -/
structure LoopInv (s : State) : Prop where
  /-- a turn's branches are taken for a turn -/
  wants : s.main.pc.wants → s.main.prevWant
  /-- without a turn, the peer is gone or about to go -/
  idle : s.main.prevWant = false → s.sh.peer = none ∨ s.main.pc.down
  /-- a connection that is watched has a peer -/
  watched : s.main.pc.watches → s.sh.peer.isSome
  /-- the count does not pass its limit -/
  bound : s.main.reconnects ≤ maxReconnectsPerTurn
  /-- a connection is given up at the limit -/
  spent : s.main.pc = .giveUp → s.main.reconnects = maxReconnectsPerTurn

namespace MainPc

theorem not_resets_of_watches {pc : MainPc} (h : pc.watches) : ¬ pc.resets := by
  cases pc <;> first | exact Bool.false_ne_true | cases h

theorem wants_of_builds {pc : MainPc} (h : pc.builds) : pc.wants := by
  cases pc <;> first | rfl | cases h

end MainPc

/-- Where no peer is built, none appears. -/
theorem peer_none_of_mainStep {cfg : Config} {us : ℕ} {net : Net} {sh : Shared} {m : MainTask}
    (hnone : sh.peer = none) (hbuilds : ¬ m.pc.builds) :
    (mainStep cfg us net sh m).1.peer = none := by
  have hcreate : ¬ (m.pc = .buildCreate ∧ net.created) := by
    rintro ⟨hpc, -⟩
    exact hbuilds (by rw [hpc]; rfl)
  rw [mainStep_peer, if_neg hcreate, hnone]
  split <;> rfl

theorem down_of_mainStep {cfg : Config} {us : ℕ} {net : Net} {sh : Shared} {m : MainTask}
    (h : m.pc.down) : (mainStep cfg us net sh m).2.pc.down ∨ m.pc.resets := by
  obtain ⟨pc, _⟩ := m
  cases pc <;> cases h
  case downLock =>
    simp only [mainStep]
    split <;> exact Or.inl rfl
  all_goals first | exact Or.inl rfl | exact Or.inr rfl

theorem sample_of_mainStep {cfg : Config} {us : ℕ} {net : Net} {sh : Shared} {m : MainTask}
    (hpc : m.pc = .sample) (hidle : sh.conversationActive = false) :
    sh.peer = none ∨ (mainStep cfg us net sh m).2.pc.down := by
  rcases hpeer : sh.peer with _ | p
  · exact Or.inl rfl
  · refine Or.inr ?_
    simp [mainStep, hpc, hidle, hpeer, branchPc, MainPc.down]

section

variable {cfg : Config} {s : State}

theorem LoopInv.main (h : LoopInv s) (net : Net) : LoopInv (step cfg s (.main net)) where
  wants := by
    intro hwants
    rw [step_main_main, mainStep_prevWant]
    rcases wants_of_mainStep _ _ _ _ _ hwants with ⟨hpc, hne⟩ | ⟨hpc, hactive⟩
    · rw [if_neg hne]
      exact h.wants hpc
    · rw [if_pos hpc]
      exact hactive
  idle := by
    intro hprev
    rw [step_main_main, mainStep_prevWant] at hprev
    by_cases hsample : s.main.pc = .sample
    · rw [if_pos hsample] at hprev
      rcases sample_of_mainStep hsample hprev with hnone | hdown
      · exact Or.inl (peer_none_of_mainStep hnone (by rw [hsample]; exact Bool.false_ne_true))
      · exact Or.inr hdown
    · rw [if_neg hsample] at hprev
      rcases h.idle hprev with hnone | hdown
      · refine Or.inl (peer_none_of_mainStep hnone ?_)
        intro hbuilds
        have hprev' := h.wants (MainPc.wants_of_builds hbuilds)
        rw [hprev] at hprev'
        cases hprev'
      · rcases down_of_mainStep hdown with hdown' | hresets
        · exact Or.inr hdown'
        · have hpeer := mainStep_peer cfg s.us net s.sh s.main
          rw [if_pos hresets] at hpeer
          exact Or.inl hpeer
  watched := by
    intro hwatches
    refine (mainStep_peer_isSome _ _ _ _ _).mpr ?_
    obtain ⟨hpc | hpc, hsome⟩ := watches_of_mainStep _ _ _ _ _ hwatches
    · exact ⟨MainPc.not_resets_of_watches hpc, Or.inr (h.watched hpc)⟩
    · exact ⟨by rw [hpc]; exact Bool.false_ne_true, Or.inr (hsome hpc)⟩
  bound := by
    rw [step_main_main, mainStep_reconnects]
    split_ifs with hfresh hreconnect
    · exact Nat.zero_le _
    · have hlt : s.main.reconnects < maxReconnectsPerTurn := by
        simp only [MainTask.reconnecting, Bool.and_eq_true, decide_eq_true_iff] at hreconnect
        exact hreconnect.2
      exact hlt
    · exact h.bound
  spent := by
    intro hpc
    obtain ⟨hdead, hstay, hlimit⟩ := giveUp_of_mainStep _ _ _ _ _ hpc
    rw [step_main_main, mainStep_reconnects, hstay, if_neg (by simp [hdead]), if_neg (by simp)]
    exact Nat.le_antisymm h.bound hlimit

theorem LoopInv.step (h : LoopInv s) (a : Action) : LoopInv (step cfg s a) := by
  cases a with
  | main net => exact h.main net
  | capture mic =>
    have hpeer := captureStep_peer cfg s.us mic s.sh s.cap
    refine ⟨h.wants, ?_, ?_, h.bound, h.spent⟩
    · rw [step_capture_sh, hpeer]
      exact h.idle
    · rw [step_capture_sh, hpeer]
      exact h.watched
  | elapse us => exact ⟨h.wants, h.idle, h.watched, h.bound, h.spent⟩
  | playback muted => exact ⟨h.wants, h.idle, h.watched, h.bound, h.spent⟩
  | web cmd => exact ⟨h.wants, h.idle, h.watched, h.bound, h.spent⟩

end

theorem loopInv_start (us : ℕ) : LoopInv (start us) :=
  ⟨nofun, fun _ => Or.inl rfl, nofun, Nat.zero_le _, nofun⟩

/-! ## The budget -/

/-- Ticks more than the timeout apart are times more than the timeout apart. -/
theorem Config.timeout_of_ticks (cfg : Config) {began now : ℕ} (hle : began ≤ now)
    (h : cfg.msToTicks connectTimeoutMs < cfg.tickAt now - cfg.tickAt began) :
    began + connectTimeoutMs * 1000 < now := by
  have hmono : cfg.ticks began ≤ cfg.ticks now :=
    Nat.div_le_div_right (Nat.mul_le_mul_right _ hle)
  have hwindow : (cfg.msToTicks connectTimeoutMs).toNat = 12 * cfg.tickHz := by
    have hhz := cfg.tickHz_le
    rw [Config.msToTicks, UInt32.toNat_ofNat', connectTimeoutMs]
    omega
  have hgap : 12 * cfg.tickHz < cfg.ticks now - cfg.ticks began := by
    have hlt := UInt32.lt_iff_toNat_lt.mp h
    have hsub := Ticks.toNat_ofNat_sub (cfg.ticks now) (cfg.ticks began)
    rw [← cfg.tickAt_eq, ← cfg.tickAt_eq] at hsub
    omega
  by_contra hle'
  have hmul : now * cfg.tickHz ≤ began * cfg.tickHz + 12 * cfg.tickHz * 1000000 := by
    calc now * cfg.tickHz
        ≤ (began + connectTimeoutMs * 1000) * cfg.tickHz := Nat.mul_le_mul_right _ (by omega)
      _ = began * cfg.tickHz + 12 * cfg.tickHz * 1000000 := by
        rw [connectTimeoutMs, Nat.add_mul]
        omega
  have hticks : cfg.ticks now ≤ cfg.ticks began + 12 * cfg.tickHz := by
    rw [Config.ticks, Config.ticks, ← Nat.add_mul_div_right _ _ (by decide)]
    exact Nat.div_le_div_right hmul
  omega

/-- What the history is to the main loop. -/
structure BudgetInv (cfg : Config) (x : State × BudgetHistory) : Prop where
  /-- the main loop by itself -/
  loop : LoopInv x.1
  /-- the count is what was carried and what was added -/
  counter : x.1.sh.conversationActive →
    x.1.main.prevWant → x.1.main.reconnects = x.2.carriedReconnects + x.2.reconnects
  /-- a turn that has not been sampled begins with nothing -/
  unsampled : x.1.sh.conversationActive → x.1.main.prevWant = false →
    x.2.carriedReconnects = 0 ∧ x.2.reconnects = 0
  /-- a turn without an attempt, and that carried none, has no peer -/
  unattempted : x.1.sh.conversationActive → x.2.attempt = none → x.2.carriedAttempt = false →
    x.1.main.prevWant = false ∨ (x.1.sh.peer = none ∧ ¬ x.1.main.pc.builds)
  /-- an attempt puts an end to the carried one -/
  carried : x.2.carriedAttempt → x.2.attempt = none
  /-- the iteration's tick -/
  now : x.1.main.now = cfg.tickAt x.2.nowUs
  /-- the tick was read in the past -/
  nowUs : x.2.nowUs ≤ x.1.us
  /-- the tick of the attempt -/
  started : ∀ began ∈ x.2.attempt, x.1.main.connectStarted = cfg.tickAt began ∧ began ≤ x.2.nowUs
  /-- an attempt has stalled when the timeout is over -/
  stalled : x.1.main.pc = .stall →
    ∀ began ∈ x.2.attempt, began + connectTimeoutMs * 1000 < x.2.nowUs
  /-- an offer is of this turn or carried into it -/
  offered : x.1.main.pc = .buildOffer → x.2.offered = !x.2.carriedOffer

section

variable {cfg : Config} {x : State × BudgetHistory}

theorem MainTask.liveDead_of_reconnecting {m : MainTask} {sh : Shared} (h : m.reconnecting sh) :
    m.pc = .liveDead := by
  simp only [MainTask.reconnecting, Bool.and_eq_true, decide_eq_true_iff] at h
  exact h.1.1

/-- The main loop's count and the history's move together. -/
theorem BudgetInv.main_counter (h : BudgetInv cfg x) {net : Net}
    (hactive : (mainStep cfg x.1.us net x.1.sh x.1.main).1.conversationActive)
    (hprev : (mainStep cfg x.1.us net x.1.sh x.1.main).2.prevWant) :
    (mainStep cfg x.1.us net x.1.sh x.1.main).2.reconnects =
      x.2.carriedReconnects +
        if x.1.main.reconnecting x.1.sh then x.2.reconnects + 1 else x.2.reconnects := by
  have hactive' := active_of_mainStep _ _ _ _ _ hactive
  rw [mainStep_reconnects]
  rw [mainStep_prevWant] at hprev
  by_cases hreconnect : x.1.main.reconnecting x.1.sh
  · have hpc := MainTask.liveDead_of_reconnecting hreconnect
    rw [hpc, if_neg (by decide)] at hprev
    rw [if_neg (by simp [hpc]), if_pos hreconnect, if_pos hreconnect, h.counter hactive' hprev]
    rfl
  · rw [if_neg hreconnect, if_neg hreconnect]
    rcases hold : x.1.main.prevWant with _ | _
    · obtain ⟨hcarried, hnew⟩ := h.unsampled hactive' hold
      rw [hcarried, hnew]
      by_cases hsample : x.1.main.pc = .sample
      · rw [if_pos ⟨hsample, hactive', by simp⟩]
      · rw [if_neg hsample, hold] at hprev
        cases hprev
    · rw [if_neg (by simp)]
      exact h.counter hactive' hold

/-- A turn without an attempt stays without a peer, or is not sampled yet. -/
theorem BudgetInv.main_unattempted (h : BudgetInv cfg x) {net : Net}
    (hactive : (mainStep cfg x.1.us net x.1.sh x.1.main).1.conversationActive)
    (hattempt : (recordBudget x.2 x.1 (.main net)).attempt = none)
    (hcarried : (recordBudget x.2 x.1 (.main net)).carriedAttempt = false) :
    (mainStep cfg x.1.us net x.1.sh x.1.main).2.prevWant = false ∨
      ((mainStep cfg x.1.us net x.1.sh x.1.main).1.peer = none ∧
        ¬ (mainStep cfg x.1.us net x.1.sh x.1.main).2.pc.builds) := by
  have hactive' := active_of_mainStep _ _ _ _ _ hactive
  by_cases hbegin : x.1.main.pc = .connectBegin
  · simp [recordBudget, hbegin] at hattempt
  · simp only [recordBudget, if_neg hbegin] at hattempt hcarried
    have hprev := mainStep_prevWant cfg x.1.us net x.1.sh x.1.main
    have hbuilds : (mainStep cfg x.1.us net x.1.sh x.1.main).2.pc.builds → x.1.main.pc.builds :=
      fun hbuilds => (builds_of_mainStep _ _ _ _ _ hbuilds).resolve_left hbegin
    rcases h.unattempted hactive' hattempt hcarried with hunsampled | ⟨hpeer', hno⟩
    · by_cases hsample : x.1.main.pc = .sample
      · -- the turn is sampled: there is no peer to watch
        have hno : ¬ x.1.main.pc.builds := by
          rw [hsample]
          exact Bool.false_ne_true
        rcases h.loop.idle hunsampled with hpeer' | hdown
        · exact Or.inr ⟨peer_none_of_mainStep hpeer' hno, fun hb => hno (hbuilds hb)⟩
        · rw [hsample] at hdown
          cases hdown
      · rw [if_neg hsample] at hprev
        exact Or.inl (hprev.trans hunsampled)
    · exact Or.inr ⟨peer_none_of_mainStep hpeer' hno, fun hb => hno (hbuilds hb)⟩

/-- A turn that is not sampled yet stays without reconnects. -/
theorem BudgetInv.main_unsampled (h : BudgetInv cfg x) {net : Net}
    (hactive : (mainStep cfg x.1.us net x.1.sh x.1.main).1.conversationActive)
    (hprev : (mainStep cfg x.1.us net x.1.sh x.1.main).2.prevWant = false) :
    (recordBudget x.2 x.1 (.main net)).carriedReconnects = 0 ∧
      (recordBudget x.2 x.1 (.main net)).reconnects = 0 := by
  have hactive' := active_of_mainStep _ _ _ _ _ hactive
  rw [mainStep_prevWant] at hprev
  by_cases hsample : x.1.main.pc = .sample
  · rw [if_pos hsample, hactive'] at hprev
    cases hprev
  · rw [if_neg hsample] at hprev
    have hreconnect : x.1.main.reconnecting x.1.sh = false := by
      rw [← Bool.not_eq_true]
      intro hreconnect
      have hwants := h.loop.wants (by rw [MainTask.liveDead_of_reconnecting hreconnect]; rfl)
      rw [hprev] at hwants
      cases hwants
    simpa [recordBudget, hreconnect] using h.unsampled hactive' hprev

/-- An attempt begins at the tick of the iteration. -/
theorem BudgetInv.main_started (h : BudgetInv cfg x) {net : Net} {began : ℕ}
    (hbegan : began ∈ (recordBudget x.2 x.1 (.main net)).attempt) :
    (mainStep cfg x.1.us net x.1.sh x.1.main).2.connectStarted = cfg.tickAt began ∧
      began ≤ (recordBudget x.2 x.1 (.main net)).nowUs := by
  have hnowUs : x.2.nowUs ≤ if x.1.main.pc = .top then x.1.us else x.2.nowUs := by
    split
    · exact h.nowUs
    · exact Nat.le_refl _
  simp only [recordBudget, mainStep_connectStarted] at hbegan ⊢
  by_cases hbegin : x.1.main.pc = .connectBegin
  · rw [if_pos hbegin] at hbegan ⊢
    obtain rfl : x.2.nowUs = began := Option.some.inj hbegan
    exact ⟨h.now, hnowUs⟩
  · rw [if_neg hbegin] at hbegan ⊢
    obtain ⟨hstarted, hle⟩ := h.started began hbegan
    exact ⟨hstarted, Nat.le_trans hle hnowUs⟩

theorem BudgetInv.main (h : BudgetInv cfg x) (net : Net) :
    BudgetInv cfg (observe (step cfg) recordBudget x (.main net)) where
  loop := h.loop.main net
  counter := h.main_counter
  unsampled := h.main_unsampled
  unattempted := h.main_unattempted
  carried := by
    intro hcarried
    by_cases hbegin : x.1.main.pc = .connectBegin
    · simp [recordBudget, hbegin] at hcarried
    · simp only [observe_snd, recordBudget, if_neg hbegin] at hcarried ⊢
      exact h.carried hcarried
  now := by
    simp only [observe_fst, observe_snd, recordBudget, step_main_main, mainStep_now]
    split
    · rfl
    · exact h.now
  nowUs := by
    simp only [observe_fst, observe_snd, recordBudget, step_main_us]
    split
    · exact Nat.le_refl _
    · exact h.nowUs
  started := fun _ => h.main_started
  stalled := by
    rintro hstall began hbegan
    obtain ⟨hpc, hticks⟩ := stall_of_mainStep _ _ _ _ _ hstall
    simp only [observe_snd, recordBudget, hpc, reduceCtorEq, if_false] at hbegan ⊢
    obtain ⟨hstarted, hle⟩ := h.started began hbegan
    rw [h.now, hstarted] at hticks
    exact cfg.timeout_of_ticks hle hticks
  offered := by
    intro hpc
    have hcreate := buildOffer_of_mainStep _ _ _ _ _ hpc
    simp [recordBudget, hcreate]

theorem BudgetInv.capture (h : BudgetInv cfg x) (mic : Mic) :
    BudgetInv cfg (observe (step cfg) recordBudget x (.capture mic)) := by
  have hloop : LoopInv (PipecatVoice.step cfg x.1 (.capture mic)) := h.loop.step _
  have hpeer := captureStep_peer cfg x.1.us mic x.1.sh x.1.cap
  have hconv := captureStep_conversationActive cfg x.1.us mic x.1.sh x.1.cap
  rcases hwakes : x.1.wakes mic with _ | _
  · -- no turn begins: the history stays, and an active turn was active before
    have hsame : observe (PipecatVoice.step cfg) recordBudget x (.capture mic) =
        (PipecatVoice.step cfg x.1 (.capture mic), x.2) := by
      simp [observe, recordBudget, hwakes]
    have hold : (captureStep cfg x.1.us mic x.1.sh x.1.cap).1.conversationActive →
        x.1.sh.conversationActive := by
      intro hactive
      rw [hconv] at hactive
      by_cases hfired : x.1.cap.pc = .wake ∧ mic.fired
      · simpa [State.wakes, hfired] using hwakes
      · rw [if_neg hfired] at hactive
        split at hactive
        · cases hactive
        · exact hactive
    rw [hsame]
    refine ⟨hloop, fun ha => h.counter (hold ha), fun ha => h.unsampled (hold ha), ?_, h.carried,
      h.now, h.nowUs, h.started, h.stalled, h.offered⟩
    rintro hactive hattempt hcarried
    rw [step_capture_sh, hpeer]
    exact h.unattempted (hold hactive) hattempt hcarried
  · -- a turn begins: the history starts over
    have hnew : observe (PipecatVoice.step cfg) recordBudget x (.capture mic) =
        (PipecatVoice.step cfg x.1 (.capture mic),
          { x.2 with
            reconnects := 0
            attempt := none
            offered := false
            carriedReconnects := if x.1.main.prevWant then x.1.main.reconnects else 0
            carriedAttempt := x.1.main.prevWant && (x.1.sh.peer.isSome || x.1.main.pc.builds)
            carriedOffer := x.1.main.pc = .buildOffer }) := by
      simp [observe, recordBudget, hwakes]
    rw [hnew]
    refine ⟨hloop, ?_, ?_, ?_, fun _ => rfl, h.now, h.nowUs, nofun, nofun, ?_⟩
    · rintro - hprev
      have hprev : x.1.main.prevWant := hprev
      simp [hprev]
    · rintro - hprev
      have hprev : x.1.main.prevWant = false := hprev
      simp [hprev]
    · rintro - - hcarried
      rw [step_capture_sh, hpeer]
      rcases hprev : x.1.main.prevWant with _ | _
      · exact Or.inl hprev
      · simpa [hprev] using hcarried
    · intro hpc
      have hpc : x.1.main.pc = .buildOffer := hpc
      simp [hpc]

theorem BudgetInv.step (h : BudgetInv cfg x) (a : Action) :
    BudgetInv cfg (observe (step cfg) recordBudget x a) := by
  have hloop : LoopInv (PipecatVoice.step cfg x.1 a) := h.loop.step a
  cases a with
  | main net => exact h.main net
  | capture mic => exact h.capture mic
  | elapse us =>
    exact ⟨hloop, h.counter, h.unsampled, h.unattempted, h.carried, h.now,
      Nat.le_trans h.nowUs (Nat.le_add_right _ _), h.started, h.stalled, h.offered⟩
  | playback muted =>
    exact ⟨hloop, h.counter, h.unsampled, h.unattempted, h.carried, h.now, h.nowUs, h.started,
      h.stalled, h.offered⟩
  | web cmd =>
    exact ⟨hloop, h.counter, h.unsampled, h.unattempted, h.carried, h.now, h.nowUs, h.started,
      h.stalled, h.offered⟩

/-- At the limit, the reconnects of the turn reach it if none were carried. -/
theorem BudgetInv.giveUp_iff (h : BudgetInv cfg x) (hactive : x.1.sh.conversationActive)
    (hpc : x.1.main.pc = .giveUp) :
    maxReconnectsPerTurn ≤ x.2.reconnects ↔ x.2.carriedReconnects = 0 := by
  have hprev := h.loop.wants (by rw [hpc]; rfl)
  have hcount := h.counter hactive hprev
  rw [h.loop.spent hpc] at hcount
  constructor <;> intro <;> omega

/-- An attempt that stalls is of the turn if none was carried. -/
theorem BudgetInv.stall_iff (h : BudgetInv cfg x) (hactive : x.1.sh.conversationActive)
    (hpc : x.1.main.pc = .stall) :
    (∃ began ∈ x.2.attempt, began + connectTimeoutMs * 1000 < x.1.us) ↔
      x.2.carriedAttempt = false := by
  refine ⟨?_, ?_⟩
  · rintro ⟨began, hattempt, -⟩
    rw [← Bool.not_eq_true]
    intro hcarried
    rw [h.carried hcarried] at hattempt
    cases hattempt
  · intro hcarried
    rcases hattempt : x.2.attempt with _ | began
    · have hprev := h.loop.wants (by rw [hpc]; rfl)
      have hsome := h.loop.watched (by rw [hpc]; rfl)
      rcases h.unattempted hactive hattempt hcarried with hno | ⟨hnone, -⟩
      · rw [hno] at hprev
        cases hprev
      · rw [hnone] at hsome
        cases hsome
    · exact ⟨began, rfl, Nat.lt_of_lt_of_le (h.stalled hpc began hattempt) h.nowUs⟩

/-- A turn is ended on its own budget exactly if nothing that was carried into it
ends it. -/
theorem BudgetInv.ownBudget_eq (h : BudgetInv cfg x) (a : Action) :
    ownBudget x a = nothingCarried x a := by
  cases a with
  | main net =>
    rcases hactive : x.1.sh.conversationActive with _ | _
    · simp only [ownBudget, nothingCarried, hactive, Bool.not_false, Bool.true_or]
    · cases hpc : x.1.main.pc <;> simp only [ownBudget, nothingCarried, hpc]
      case giveUp => rw [decide_eq_decide.mpr (h.giveUp_iff hactive hpc)]
      case stall =>
        have hattempt : (x.2.attempt.any fun began => began + connectTimeoutMs * 1000 < x.1.us) =
            !x.2.carriedAttempt := by
          rw [Bool.eq_iff_iff, Option.any_eq_true, Bool.not_eq_true', ← h.stall_iff hactive hpc]
          simp only [decide_eq_true_iff, Option.mem_def]
        rw [hattempt]
      case buildOffer => rw [h.offered hpc]
  | _ => rfl

end

/-- Before the first step there is no turn. -/
def BudgetHistory.start : BudgetHistory := ⟨0, none, false, 0, 0, false, false⟩

theorem budgetInv_start (cfg : Config) (us : ℕ) :
    BudgetInv cfg (start us, BudgetHistory.start) := by
  refine ⟨loopInv_start us, nofun, nofun, nofun, nofun, ?_, Nat.zero_le _, nofun, nofun, nofun⟩
  simp [start, BudgetHistory.start, Config.tickAt]

/-- **A turn is ended on its own budget**, and on no other, in exactly the runs where
the main loop never ends one for what it carried into it: reconnects that its
count did not forget, a peer built or being built for an earlier turn, an offer of
an earlier turn that was still being signaled. -/
theorem ownBudget_iff (cfg : Config) (us : ℕ) (as : List Action) :
    Meets (observe (step cfg) recordBudget) ownBudget (start us, BudgetHistory.start) as ↔
      Meets (observe (step cfg) recordBudget) nothingCarried
        (start us, BudgetHistory.start) as := by
  have hstep : ∀ x a, BudgetInv cfg x → BudgetInv cfg (observe (step cfg) recordBudget x a) :=
    fun _ a h => h.step a
  have hguard : ∀ x a, BudgetInv cfg x → ownBudget x a = nothingCarried x a :=
    fun _ a h => h.ownBudget_eq a
  rw [meets_congr hstep hguard as (budgetInv_start cfg us)]

/-- A turn lapses while its offer is being signaled, and the wake word begins
another; when the request fails, it is the other turn that ends. -/
theorem ownBudget_lateAnswer :
    ¬ Meets (observe (step device) recordBudget) ownBudget
      (start 0, BudgetHistory.start)
      (wakeFrame ++ .capture {} :: List.replicate 4 (.main {}) ++ .main { created := true } ::
        .elapse 20010000 :: List.replicate 8 (.capture {}) ++ wakeFrame ++ [.main {}]) := by
  decide +kernel

end PipecatVoice
