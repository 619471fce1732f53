import PipecatVoice.Lib.Runs
import PipecatVoice.Session
import PipecatVoice.Turn

/-!
# Candidate pairs and the permission in use

`agent.c` pairs every local with every remote candidate, asks the TURN server to
permit all remote addresses, and works through the pairs one after the other;
for a pair with a relay it asks again for the remote address. The client looks
after one permission, that of the last request the server granted.

* `agentUpdateCandidatePairs`, `agentSelectCandidatePair`,
  `agentConnectivityCheck` — the functions of `agent.c`;
* `step` — a remote description, or one pass of `peer_connection_loop`;
* `renewsNominated_iff` — when the keepalive renews the permission in use.

The lists of candidates and of pairs are not bounded here; `agent.h` has ten places
for the remote ones and a hundred for the pairs, and `agent.c` does not check them.
-/

namespace PipecatVoice.TurnPairs

/-- `AGENT_CONNCHECK_MAX` -/
def conncheckMax : ℕ := 1000

/-- `IceCandidateType` -/
inductive CandidateType where
  | host
  | srflx
  | prflx
  | relay
  deriving DecidableEq

/-- `IceCandidate` -/
structure Candidate where
  /-- its type -/
  type : CandidateType
  /-- its address -/
  addr : Address
  /-- its priority -/
  priority : UInt32

/-- `IceCandidateState` -/
inductive PairState where
  | frozen
  | waiting
  | inProgress
  | succeeded
  | failed
  deriving DecidableEq

/-- `IceCandidatePair` -/
structure CandidatePair where
  /-- the state of its checks -/
  state : PairState
  /-- the local candidate -/
  loc : Candidate
  /-- the remote candidate -/
  remote : Candidate
  /-- passes spent on it -/
  conncheck : ℕ
  /-- the sum of the priorities, in 32 bits -/
  priority : UInt32

/-- The agent. -/
structure Agent where
  /-- the TURN client -/
  turn : TurnClient
  /-- `local_candidates` -/
  locals : List Candidate
  /-- a relay comes with an allocation -/
  relay_allocated : ∀ c ∈ locals, c.type = .relay → turn.allocated
  /-- `remote_candidates` -/
  remotes : List Candidate
  /-- `candidate_pairs` -/
  pairs : List CandidatePair
  /-- `nominated_pair` -/
  nominated : Option ℕ
  /-- `selected_pair` -/
  selected : Option ℕ
  /-- the calls of `agent_turn_set_permission` so far, and which succeeded -/
  calls : List (Address × Bool)

/-- `agent_turn_set_permission`, by its outcome: a call that fails leaves the
permission as it was. -/
def agentTurnSetPermission (granted : Bool) (peer : Address) (a : Agent) : Agent :=
  if h : a.turn.allocated then
    { a with
      turn := if granted then a.turn.grant peer else a.turn
      relay_allocated := by
        intro c hc hrelay
        split
        · exact h
        · exact h
      calls := a.calls ++ [(peer, granted)] }
  else a

/-- The pairs of one family. -/
def candidatePairs (locals remotes : List Candidate) : List CandidatePair :=
  locals.flatMap fun l =>
    (remotes.filter fun r => l.addr.sameFamily r.addr).map fun r =>
      { state := .frozen, loc := l, remote := r, conncheck := 0
        priority := l.priority + r.priority }

/-- `agent_update_candidate_pairs`; `granted` are the outcomes of the
registrations, in order. -/
def agentUpdateCandidatePairs (granted : ℕ → Bool) (a : Agent) : Agent :=
  let a := { a with pairs := a.pairs ++ candidatePairs a.locals a.remotes }
  if a.turn.allocated then
    a.remotes.zipIdx.foldl (fun a r => agentTurnSetPermission (granted r.2) r.1.addr a) a
  else a

/-- How the search of `agent_select_candidate_pair` ends. -/
inductive Selection where
  /-- nothing is left -/
  | exhausted
  /-- the pair in progress has time left -/
  | wait
  /-- a pair is taken up -/
  | nominate (i : ℕ)
  /-- a pair works -/
  | select (i : ℕ)

/-- The loop of `agent_select_candidate_pair`, from the pair at `i` on. -/
def selectFrom (i : ℕ) : List CandidatePair → List CandidatePair × Selection
  | [] => ([], .exhausted)
  | p :: rest =>
    match p.state with
    | .frozen => ({ p with conncheck := 0, state := .inProgress } :: rest, .nominate i)
    | .inProgress =>
      if p.conncheck + 1 < conncheckMax then
        ({ p with conncheck := p.conncheck + 1 } :: rest, .wait)
      else
        ({ p with conncheck := p.conncheck + 1, state := .failed } :: (selectFrom (i + 1) rest).1,
          (selectFrom (i + 1) rest).2)
    | .failed | .waiting => (p :: (selectFrom (i + 1) rest).1, (selectFrom (i + 1) rest).2)
    | .succeeded => (p :: rest, .select i)

/-- `agent_select_candidate_pair`: the agent after it, and whether there is a
pair left; `granted` is the outcome of the request for a permission. -/
def agentSelectCandidatePair (granted : Bool) (a : Agent) : Agent × Bool :=
  let found := selectFrom 0 a.pairs
  let a := { a with pairs := found.1 }
  match found.2 with
  | .exhausted => (a, false)
  | .wait => (a, true)
  | .nominate i =>
    let a := { a with nominated := some i }
    match a.pairs[i]? with
    | some p =>
      if p.loc.type = .relay ∧ a.turn.allocated then
        (agentTurnSetPermission granted p.remote.addr a, true)
      else (a, true)
    | none => (a, true)
  | .select i => ({ a with selected := some i }, true)

/-- `agent_connectivity_check`: the agent after it, and whether the nominated
pair works; `answered` if the peer's binding response is received in it. -/
def agentConnectivityCheck (answered : Bool) (a : Agent) : Agent × Bool :=
  match a.nominated with
  | none => (a, false)
  | some k =>
    match a.pairs[k]? with
    | none => (a, false)
    | some p =>
      if p.state = .inProgress ∧ answered then
        ({ a with pairs := a.pairs.set k { p with state := .succeeded }, selected := some k },
          true)
      else (a, false)

/-! ## Runs -/

/-- The connection and its agent. -/
structure State where
  /-- `pc->state` -/
  peer : PeerState
  /-- the agent -/
  agent : Agent

/-- What happens next. -/
inductive Action where
  /-- the remote description arrives, with candidates that are new -/
  | describe (remotes : List Candidate) (granted : ℕ → Bool)
  /-- a pass of the loop in CHECKING -/
  | check (granted answered : Bool)
  /-- a pass of the loop in CONNECTED or COMPLETED -/
  | live (handshake consentLost : Bool)

/-- A pass of `peer_connection_loop` in CHECKING. -/
def checking (granted answered : Bool) (a : Agent) : State :=
  let selected := agentSelectCandidatePair granted a
  if selected.2 then
    let checked := agentConnectivityCheck answered selected.1
    ⟨if checked.2 then .connected else .checking, checked.1⟩
  else ⟨.failed, selected.1⟩

/-- One action. -/
def step (s : State) : Action → State
  | .describe remotes granted =>
    ⟨.checking,
      agentUpdateCandidatePairs granted { s.agent with remotes := s.agent.remotes ++ remotes }⟩
  | .check granted answered =>
    if s.peer = .checking then checking granted answered s.agent else s
  | .live handshake consentLost =>
    match s.peer with
    | .connected => { s with peer := if handshake then .completed else .connected }
    | .completed => { s with peer := if consentLost then .closed else .completed }
    | .new | .checking | .failed | .disconnected | .closed => s

/-- What the gathering leaves. -/
structure Gathered where
  /-- the TURN client -/
  turn : TurnClient
  /-- the local candidates -/
  locals : List Candidate
  /-- a relay comes with an allocation -/
  relay_allocated : ∀ c ∈ locals, c.type = .relay → turn.allocated

/-- A connection whose agent has gathered its candidates. -/
def start (g : Gathered) : State where
  peer := .closed
  agent :=
    { turn := { g.turn with permissionSet := false }
      locals := g.locals
      relay_allocated := g.relay_allocated
      remotes := []
      pairs := []
      nominated := none
      selected := none
      calls := [] }

/-! ## The permission in use -/

/-- The connection is established. -/
def State.established (s : State) : Bool := s.peer = .connected || s.peer = .completed

/-- The nominated pair. -/
def Agent.nominatedPair (a : Agent) : Option CandidatePair := a.nominated.bind (a.pairs[·]?)

/-- The keepalive of an established connection through a relay renews the
permission of the nominated pair's remote address, and no other. -/
def RenewsNominated (s : State) : Prop :=
  s.established → ∀ p ∈ s.agent.nominatedPair, p.loc.type = .relay →
    (agentTurnRefresh s.agent.turn).filterMap TurnRequest.peer? = [p.remote.addr]

/-- It renews no other permission, if any. -/
def RenewsNoOther (s : State) : Prop :=
  s.established → ∀ p ∈ s.agent.nominatedPair, p.loc.type = .relay →
    ∀ peer ∈ (agentTurnRefresh s.agent.turn).filterMap TurnRequest.peer?, peer = p.remote.addr

/-- The address of the last call that succeeded. -/
def lastGranted (calls : List (Address × Bool)) : Option Address :=
  calls.foldl (fun last call => if call.2 then some call.1 else last) none

/-- The last call that succeeded was for the nominated pair's remote address. -/
def GrantedLast (s : State) : Prop :=
  s.established → ∀ p ∈ s.agent.nominatedPair, p.loc.type = .relay →
    lastGranted s.agent.calls = some p.remote.addr

/-- No call succeeded, or the last one that did was for that address. -/
def GrantedNoOther (s : State) : Prop :=
  s.established → ∀ p ∈ s.agent.nominatedPair, p.loc.type = .relay →
    ∀ peer ∈ lastGranted s.agent.calls, peer = p.remote.addr

theorem lastGranted_append (calls : List (Address × Bool)) (peer : Address) (granted : Bool) :
    lastGranted (calls ++ [(peer, granted)]) =
      if granted then some peer else lastGranted calls := by
  rw [lastGranted, List.foldl_append]
  rfl

/-- What the search leaves alone: the candidates of the pairs. -/
theorem selectFrom_candidates (l : List CandidatePair) :
    ∀ i, (selectFrom i l).1.map (fun p => (p.loc, p.remote)) =
      l.map fun p => (p.loc, p.remote) := by
  induction l with
  | nil => exact fun _ => rfl
  | cons p rest ih =>
    intro i
    unfold selectFrom
    cases p.state <;> simp only
    case inProgress => split <;> simp [ih]
    all_goals simp [ih]

/-- What holds of the agent. -/
structure AgentInv (a : Agent) : Prop where
  /-- pairs are made of the local candidates -/
  loc : ∀ p ∈ a.pairs, p.loc ∈ a.locals
  /-- the permission looked after was granted last -/
  permission : a.turn.permission = lastGranted a.calls

theorem AgentInv.allocated {a : Agent} (h : AgentInv a) {p : CandidatePair} (hp : p ∈ a.pairs)
    (hrelay : p.loc.type = .relay) : a.turn.allocated :=
  a.relay_allocated p.loc (h.loc p hp) hrelay

/-- The pairs may change their states. -/
theorem AgentInv.loc_of_candidates {a : Agent} (h : AgentInv a) {pairs : List CandidatePair}
    (hsame : pairs.map (fun p => (p.loc, p.remote)) = a.pairs.map fun p => (p.loc, p.remote)) :
    ∀ p ∈ pairs, p.loc ∈ a.locals := by
  intro p hp
  have hmem : (p.loc, p.remote) ∈ pairs.map fun p => (p.loc, p.remote) :=
    List.mem_map_of_mem hp
  rw [hsame] at hmem
  obtain ⟨q, hq, heq⟩ := List.mem_map.mp hmem
  obtain ⟨hloc, -⟩ := Prod.mk.inj heq
  rw [← hloc]
  exact h.loc q hq

theorem AgentInv.setPermission {a : Agent} (h : AgentInv a) (granted : Bool) (peer : Address) :
    AgentInv (agentTurnSetPermission granted peer a) := by
  unfold agentTurnSetPermission
  split
  · refine ⟨h.loc, ?_⟩
    show (if granted then a.turn.grant peer else a.turn).permission = _
    rw [lastGranted_append]
    split
    · rfl
    · exact h.permission
  · exact h

theorem AgentInv.setPermissions (granted : ℕ → Bool) (rs : List (Candidate × ℕ)) :
    ∀ {a : Agent}, AgentInv a →
      AgentInv (rs.foldl (fun a r => agentTurnSetPermission (granted r.2) r.1.addr a) a) := by
  induction rs with
  | nil => exact fun h => h
  | cons r rest ih => exact fun h => ih (h.setPermission (granted r.2) r.1.addr)

theorem AgentInv.update {a : Agent} (h : AgentInv a) (granted : ℕ → Bool) :
    AgentInv (agentUpdateCandidatePairs granted a) := by
  have hpairs : AgentInv { a with pairs := a.pairs ++ candidatePairs a.locals a.remotes } := by
    refine ⟨?_, h.permission⟩
    intro p hp
    obtain hold | hnew := List.mem_append.mp hp
    · exact h.loc p hold
    · obtain ⟨l, hl, hmap⟩ := List.mem_flatMap.mp hnew
      obtain ⟨r, -, rfl⟩ := List.mem_map.mp hmap
      exact hl
  unfold agentUpdateCandidatePairs
  simp only
  split
  · exact hpairs.setPermissions granted _
  · exact hpairs

theorem AgentInv.select {a : Agent} (h : AgentInv a) (granted : Bool) :
    AgentInv (agentSelectCandidatePair granted a).1 := by
  have hloc := h.loc_of_candidates (selectFrom_candidates a.pairs 0)
  unfold agentSelectCandidatePair
  simp only
  split
  · exact ⟨hloc, h.permission⟩
  · exact ⟨hloc, h.permission⟩
  · split
    · split
      · exact AgentInv.setPermission
          (a := { a with pairs := (selectFrom 0 a.pairs).1, nominated := some _ })
          ⟨hloc, h.permission⟩ granted _
      · exact ⟨hloc, h.permission⟩
    · exact ⟨hloc, h.permission⟩
  · exact ⟨hloc, h.permission⟩

theorem AgentInv.check {a : Agent} (h : AgentInv a) (answered : Bool) :
    AgentInv (agentConnectivityCheck answered a).1 := by
  unfold agentConnectivityCheck
  split
  · exact h
  · split
    · exact h
    · rename_i p hp
      split
      · refine ⟨?_, h.permission⟩
        intro q hq
        obtain hold | rfl := List.mem_or_eq_of_mem_set hq
        · exact h.loc q hold
        · exact h.loc p (List.mem_of_getElem? hp)
      · exact h

theorem AgentInv.step {s : State} (h : AgentInv s.agent) (a : Action) :
    AgentInv (step s a).agent := by
  cases a with
  | describe remotes granted =>
    exact AgentInv.update (a := { s.agent with remotes := s.agent.remotes ++ remotes })
      ⟨h.loc, h.permission⟩ granted
  | check granted answered =>
    simp only [TurnPairs.step]
    split
    · unfold checking
      simp only
      split
      · exact (h.select granted).check answered
      · exact h.select granted
    · exact h
  | live handshake consentLost =>
    simp only [TurnPairs.step]
    split <;> exact h

/-- The permission a keepalive renews is the one granted last. -/
theorem AgentInv.refresh_peers {a : Agent} (h : AgentInv a) {p : CandidatePair}
    (hp : p ∈ a.nominatedPair) (hrelay : p.loc.type = .relay) :
    (agentTurnRefresh a.turn).filterMap TurnRequest.peer? = (lastGranted a.calls).toList := by
  obtain ⟨k, -, hk⟩ := Option.bind_eq_some_iff.mp (Option.mem_def.mp hp)
  rw [agentTurnRefresh_peers _ (h.allocated (List.mem_of_getElem? hk) hrelay), h.permission]

theorem agentInv_start (g : Gathered) : AgentInv (start g).agent :=
  ⟨fun _ hp => absurd hp List.not_mem_nil, rfl⟩

/-- **Renewal, exactly when**: in every reachable state the keepalive of an
established connection through a relay renews the permission of the nominated
pair's remote address, if and only if the last request for a permission that
succeeded was for that address; and it renews no other, if and only if no
request for another address was the last one that succeeded. -/
theorem renewsNominated_iff (g : Gathered) (as : List Action) :
    let s := Runs.run step (start g) as
    (RenewsNominated s ↔ GrantedLast s) ∧ (RenewsNoOther s ↔ GrantedNoOther s) := by
  intro s
  have hinv : AgentInv s.agent :=
    Runs.run_induct (I := fun s => AgentInv (State.agent s)) (fun _ a h => h.step a) as
      (agentInv_start g)
  refine ⟨?_, ?_⟩
  · unfold RenewsNominated GrantedLast
    refine forall_congr' fun _ => forall₂_congr fun p hp => forall_congr' fun hrelay => ?_
    rw [hinv.refresh_peers hp hrelay]
    cases lastGranted s.agent.calls <;> simp
  · unfold RenewsNoOther GrantedNoOther
    refine forall_congr' fun _ => forall₂_congr fun p hp => forall_congr' fun hrelay => ?_
    rw [hinv.refresh_peers hp hrelay]
    simp

/-! ## A connection whose permission is not renewed -/

/-- A connection with one relay. -/
def oneRelay : Gathered where
  turn :=
    { serverAddr := ⟨.v4 0x0A000001, 3478⟩
      username := [0x75]
      credential := [0x70]
      realm := [0x72]
      nonce := [0x6E]
      allocated := true
      permissionAddr := .zero
      permissionSet := false }
  locals := [⟨.relay, ⟨.v4 0x0A000001, 50000⟩, 1⟩]
  relay_allocated := by decide

/-- Two remote candidates. -/
def twoRemotes : List Candidate :=
  [⟨.host, ⟨.v4 0x0A000101, 40000⟩, 1⟩, ⟨.srflx, ⟨.v4 0x0A000202, 40000⟩, 1⟩]

instance : DecidablePred RenewsNominated := fun s =>
  inferInstanceAs (Decidable (s.established → ∀ p ∈ s.agent.nominatedPair, _ → _))

/-- Both registrations succeed; the request at the nomination of the first pair
fails, and the pair works, by the permission registered before. -/
theorem renewsNominated_lateFailure :
    let s := Runs.run step (start oneRelay)
      [.describe twoRemotes fun _ => true, .check false true, .live true false]
    s.established ∧ s.agent.nominatedPair.map (fun p => p.remote.addr) =
        some ⟨.v4 0x0A000101, 40000⟩ ∧
      (agentTurnRefresh s.agent.turn).filterMap TurnRequest.peer? = [⟨.v4 0x0A000202, 40000⟩] ∧
      ¬ RenewsNominated s := by
  decide +kernel

end PipecatVoice.TurnPairs
