import PipecatVoice.TurnCredentials
import PipecatVoice.TurnPairs

/-!
# A permission is recorded when it is granted

`agent_turn_set_permission` sends a CreatePermission request and takes the next
datagram on the socket for the answer, whichever it is. Each request has a
transaction id of its own, but the class and the method of the datagram are all
that is looked at.

* `next` — one step of a call, of the media loop, or of the TURN server;
* `successFor` — a call takes a datagram for a success;
* `OnlyGranted` — what has been acknowledged, the server has granted;
* `onlyGranted_iff` — which runs keep it;
* `permission_lastGranted` — the permission that is kept up is that of the call which `TurnPairs`
  takes for the last granted.
-/

namespace PipecatVoice.TurnPermission

open TurnCredentials (Agent Recv Validity agentRecv challengeOf readMessage renew renewed)

/-- Where a datagram comes from. -/
inductive Origin where
  /-- the success response of the TURN server to a request; it may be late, and
  come more than once -/
  | answer (k : ℕ)
  /-- an error response, a relayed packet, another host -/
  | other

/-- A datagram on the socket. -/
structure Datagram where
  /-- where it comes from -/
  origin : Origin
  /-- the datagram -/
  bytes : List UInt8

/-- Where `agent_turn_set_permission` is. -/
inductive Pc where
  /-- not called -/
  | idle
  /-- before a request -/
  | send (attempt : ℕ) (peer : Address)
  /-- in `agent_socket_recv_attempts` -/
  | wait (attempt : ℕ) (peer : Address)

/-- The agent, the call in progress, and what has happened so far. -/
structure State where
  /-- the agent -/
  agent : Agent
  /-- the call -/
  pc : Pc
  /-- the requests that were sent -/
  requests : List TurnRequest
  /-- the requests the server has answered with a success -/
  granted : List ℕ
  /-- the calls that are over, with what they returned -/
  returns : List (Address × ℤ)

/-- What happens next. -/
inductive Action where
  /-- `agent_turn_set_permission` is called -/
  | call (peer : Address)
  /-- a request is sent, or not -/
  | send (sent : Bool)
  /-- nothing is received any more -/
  | timeout
  /-- the call receives a datagram -/
  | receive (d : Datagram)
  /-- `agent_turn_refresh` -/
  | refresh (sent : Bool)
  /-- `agent_recv` -/
  | recv (r : Recv)
  /-- the server answers a request with a success -/
  | answer (k : ℕ)

/-- The call returns. -/
def State.ret (s : State) (peer : Address) (result : ℤ) : State :=
  { s with pc := .idle, returns := s.returns ++ [(peer, result)] }

/-- The TURN members change. -/
def State.setTurn (s : State) (turn : TurnClient) : State :=
  { s with agent := { s.agent with turn := turn } }

/-- A success response to CreatePermission. -/
def isSuccess (msg : StunMessage) : Bool :=
  msg.stunclass = .response && msg.stunmethod = stunMethodCreatePermission

/-- What a call makes of a datagram it has received. -/
def State.receive (s : State) (attempt : ℕ) (peer : Address) (bytes : List UInt8) :
    Option State := do
  let msg ← readMessage .zero (bytes.take stunAttrBufSize)
  if isSuccess msg then pure ((s.setTurn (s.agent.turn.grant peer)).ret peer 0)
  else
    match ← challengeOf msg with
    | none => pure (s.ret peer (-1))
    | some (nonce, realm) =>
      let s := s.setTurn (renew s.agent.turn nonce realm)
      pure (if attempt + 1 < 2 then { s with pc := .send (attempt + 1) peer }
        else s.ret peer (-1))

/-- An answer is there only after the server has sent it. -/
def State.sent (s : State) (d : Datagram) : Bool :=
  match d.origin with
  | .answer k => k ∈ s.granted
  | .other => true

/-- One step; none where a message is read outside of its buffers. -/
def next (isValid : Validity) (s : State) : Action → Option State
  | .call peer =>
    match s.pc with
    | .idle =>
      some (if s.agent.turn.allocated then { s with pc := .send 0 peer } else s.ret peer (-1))
    | .send _ _ | .wait _ _ => some s
  | .send sent =>
    match s.pc with
    | .send attempt peer =>
      some (if sent then
          { s with
            pc := .wait attempt peer
            requests := s.requests ++ [turnRequest s.agent.turn (.createPermission peer)] }
        else s.ret peer (-1))
    | .idle | .wait _ _ => some s
  | .timeout =>
    match s.pc with
    | .wait _ peer => some (s.ret peer (-1))
    | .idle | .send _ _ => some s
  | .receive d =>
    match s.pc with
    | .wait attempt peer =>
      -- an empty datagram counts as nothing received, and the wait goes on
      if s.sent d ∧ d.bytes ≠ [] then s.receive attempt peer d.bytes else some s
    | .idle | .send _ _ => some s
  | .refresh sent =>
    match s.pc with
    | .idle =>
      some (if sent then { s with requests := s.requests ++ agentTurnRefresh s.agent.turn }
        else s)
    | .send _ _ | .wait _ _ => some s
  | .recv r =>
    match s.pc with
    | .idle => (agentRecv isValid s.agent r).map fun x => { s with agent := x.1 }
    | .send _ _ | .wait _ _ => some s
  | .answer k => some (if k < s.requests.length then { s with granted := s.granted ++ [k] } else s)

/-- One step after the other. -/
def step (isValid : Validity) (s : Option State) (a : Action) : Option State :=
  s.bind fun s => next isValid s a

/-- After Allocate. -/
def start (a : Agent) : State where
  agent := { a with turn := { a.turn with permissionSet := false } }
  pc := .idle
  requests := []
  granted := []
  returns := []

/-! ## What is granted -/

/-- The peers named by the requests that the server has answered with a
success. -/
def State.grantedPeers (s : State) : List Address :=
  s.granted.filterMap fun k => s.requests[k]?.bind TurnRequest.peer?

/-- A call that returned 0 was for a peer the server had granted, and so is the
permission that is set. -/
def OnlyGranted (s : State) : Prop :=
  (∀ peer, (peer, 0) ∈ s.returns → peer ∈ s.grantedPeers) ∧
    ∀ peer ∈ s.agent.turn.permission, peer ∈ s.grantedPeers

/-- The datagram reads as a success response to CreatePermission. -/
def Datagram.success (d : Datagram) : Bool :=
  (readMessage .zero (d.bytes.take stunAttrBufSize)).any isSuccess

/-- The peer of the call that takes what happens next for a success. -/
def successFor (s : State) (a : Action) : Option Address :=
  match a, s.pc with
  | .receive d, .wait _ peer => if s.sent d ∧ d.bytes ≠ [] ∧ d.success then some peer else none
  | _, _ => none

/-- What is received is read inside the buffers. -/
def readable (isValid : Validity) (s : State) (a : Action) : Bool :=
  match a, s.pc with
  | .receive d, .wait _ _ =>
    !s.sent d || d.bytes = [] || (readMessage .zero (d.bytes.take stunAttrBufSize)).any fun msg =>
      isSuccess msg || (challengeOf msg).isSome
  | .recv r, .idle => (agentRecv isValid s.agent r).isSome
  | _, _ => true

/-- A call takes a datagram for a success only after the server has granted a
request for its peer. -/
def successAfterGrant (isValid : Validity) (s : Option State) (a : Action) : Bool :=
  s.all fun s => readable isValid s a && (successFor s a).all fun peer => peer ∈ s.grantedPeers

/-- The datagram is the answer to a request for the peer of the call. -/
def answersCall (s : State) (a : Action) : Bool :=
  match a, s.pc with
  | .receive d, .wait _ peer =>
    match d.origin with
    | .answer k => s.requests[k]?.bind TurnRequest.peer? = some peer
    | .other => false
  | _, _ => true

/-- The same, said of the datagrams alone. -/
def successIsAnswer (isValid : Validity) (s : Option State) (a : Action) : Bool :=
  s.all fun s => readable isValid s a && ((successFor s a).isNone || answersCall s a)

/-- The call returns 0 for the peer. -/
def State.acknowledge (s : State) (peer : Address) : State :=
  (s.setTurn (s.agent.turn.grant peer)).ret peer 0

/-- A step that acknowledges nothing. -/
structure Quiet (s t : State) : Prop where
  /-- the permission stays as it was -/
  permission : t.agent.turn.permission = s.agent.turn.permission
  /-- a call that returns has failed -/
  returns : t.returns = s.returns ∨ ∃ peer, t.returns = s.returns ++ [(peer, -1)]
  /-- what is granted stays granted -/
  granted : ∀ peer ∈ s.grantedPeers, peer ∈ t.grantedPeers

theorem Quiet.refl (s : State) : Quiet s s := ⟨rfl, .inl rfl, fun _ h => h⟩

/-- A step that changes nothing. -/
theorem Quiet.of_some {s t : State} (h : some s = some t) : Quiet s t := by
  obtain rfl := Option.some.inj h
  exact Quiet.refl s

theorem Quiet.ret (s : State) (peer : Address) : Quiet s (s.ret peer (-1)) :=
  ⟨rfl, .inr ⟨peer, rfl⟩, fun _ h => h⟩

/-- A longer list of requests and answers. -/
theorem grantedPeers_append {s t : State} {requests : List TurnRequest} {granted : List ℕ}
    (hrequests : t.requests = s.requests ++ requests)
    (hgranted : t.granted = s.granted ++ granted) :
    ∀ peer ∈ s.grantedPeers, peer ∈ t.grantedPeers := by
  intro peer hpeer
  obtain ⟨k, hk, hnamed⟩ := List.mem_filterMap.mp hpeer
  obtain ⟨request, hrequest, hpeer⟩ := Option.bind_eq_some_iff.mp hnamed
  apply List.mem_filterMap.mpr
  refine ⟨k, ?_, ?_⟩
  · rw [hgranted]
    exact List.mem_append_left granted hk
  · have hlt := (List.getElem?_eq_some_iff.mp hrequest).1
    rw [hrequests, List.getElem?_append_left hlt, hrequest]
    exact hpeer

/-- The renewal of the credentials leaves the permission alone. -/
theorem renewed_permission (t : TurnClient) (c : Option (CString × CString)) :
    (renewed t c).permission = t.permission := by
  rcases c with _ | ⟨nonce, realm⟩ <;> rfl

theorem agentRecv_permission {isValid : Validity} {a : Agent} {r : Recv} {x : Agent × ℤ}
    (h : agentRecv isValid a r = some x) : x.1.turn.permission = a.turn.permission := by
  have hturn := TurnCredentials.agentRecv_turn isValid a r
  rw [h, Option.map_some] at hturn
  obtain ⟨d, -, hd⟩ := Option.bind_eq_some_iff.mp hturn.symm
  split at hd
  · obtain ⟨c, -, hc⟩ := Option.map_eq_some_iff.mp hd
    rw [← hc]
    exact renewed_permission a.turn c
  · cases hd

/-- **A received datagram** is a success, or acknowledges nothing. -/
theorem receive_cases {s t : State} {attempt : ℕ} {peer : Address} {bytes : List UInt8}
    (h : s.receive attempt peer bytes = some t) :
    ∃ msg, readMessage .zero (bytes.take stunAttrBufSize) = some msg ∧
      if isSuccess msg then t = s.acknowledge peer else Quiet s t := by
  simp only [State.receive, Option.bind_eq_bind, Option.bind_eq_some_iff] at h
  obtain ⟨msg, hmsg, h⟩ := h
  refine ⟨msg, hmsg, ?_⟩
  split at h
  · rename_i hsuccess
    rw [if_pos hsuccess]
    exact (Option.some.inj h).symm
  · rename_i hsuccess
    rw [if_neg hsuccess]
    obtain ⟨challenge, -, h⟩ := Option.bind_eq_some_iff.mp h
    rcases challenge with _ | ⟨nonce, realm⟩
    · obtain rfl := Option.some.inj h
      exact Quiet.ret s peer
    · simp only [Option.pure_def, Option.some.injEq] at h
      subst h
      split
      · exact ⟨rfl, .inl rfl, fun _ h => h⟩
      · exact ⟨rfl, .inr ⟨peer, rfl⟩, fun _ h => h⟩

/-- An answer to a permission request acknowledges the peer, or grants nothing. -/
theorem receive_next_cases {isValid : Validity} {s t : State} {d : Datagram}
    (h : next isValid s (.receive d) = some t) :
    (∃ peer, successFor s (.receive d) = some peer ∧ t = s.acknowledge peer) ∨
      successFor s (.receive d) = none ∧ Quiet s t := by
  simp only [next] at h
  split at h
  · rename_i attempt peer hpc
    simp only [successFor, hpc]
    split at h
    · rename_i hthere
      obtain ⟨msg, hmsg, hcases⟩ := receive_cases h
      have hsuccess : d.success = isSuccess msg := by
        rw [Datagram.success, hmsg, Option.any_some]
      rw [hsuccess]
      split at hcases
      · rename_i hyes
        exact .inl ⟨peer, if_pos ⟨hthere.1, hthere.2, hyes⟩, hcases⟩
      · rename_i hno
        exact .inr ⟨if_neg fun h => hno h.2.2, hcases⟩
    · rename_i hthere
      exact .inr ⟨if_neg fun h => hthere ⟨h.1, h.2.1⟩, Quiet.of_some h⟩
  all_goals
    rename_i hpc
    exact .inr ⟨by simp only [successFor, hpc], Quiet.of_some h⟩

/-- **One step**: the call in progress takes a datagram for a success, or
nothing is acknowledged. -/
theorem next_cases {isValid : Validity} {s t : State} {a : Action}
    (h : next isValid s a = some t) :
    (∃ peer, successFor s a = some peer ∧ t = s.acknowledge peer) ∨
      successFor s a = none ∧ Quiet s t := by
  cases a with
  | call peer =>
    refine .inr ⟨rfl, ?_⟩
    simp only [next] at h
    split at h
    · obtain rfl := Option.some.inj h
      split
      · exact ⟨rfl, .inl rfl, fun _ h => h⟩
      · exact Quiet.ret s peer
    all_goals exact Quiet.of_some h
  | send sent =>
    refine .inr ⟨rfl, ?_⟩
    simp only [next] at h
    split at h
    · obtain rfl := Option.some.inj h
      split
      · exact ⟨rfl, .inl rfl, grantedPeers_append rfl (List.append_nil _).symm⟩
      · exact Quiet.ret s _
    all_goals exact Quiet.of_some h
  | timeout =>
    refine .inr ⟨rfl, ?_⟩
    simp only [next] at h
    split at h
    · obtain rfl := Option.some.inj h
      exact Quiet.ret s _
    all_goals exact Quiet.of_some h
  | receive d => exact receive_next_cases h
  | refresh sent =>
    refine .inr ⟨rfl, ?_⟩
    simp only [next] at h
    split at h
    · obtain rfl := Option.some.inj h
      split
      · exact ⟨rfl, .inl rfl, grantedPeers_append rfl (List.append_nil _).symm⟩
      · exact Quiet.refl s
    all_goals exact Quiet.of_some h
  | recv r =>
    refine .inr ⟨rfl, ?_⟩
    simp only [next] at h
    split at h
    · obtain ⟨x, hx, rfl⟩ := Option.map_eq_some_iff.mp h
      exact ⟨agentRecv_permission hx, .inl rfl, fun _ h => h⟩
    all_goals exact Quiet.of_some h
  | answer k =>
    refine .inr ⟨rfl, ?_⟩
    obtain rfl := Option.some.inj h
    split
    · exact ⟨rfl, .inl rfl, grantedPeers_append (List.append_nil _).symm rfl⟩
    · exact Quiet.refl s

/-- A step leaves a state behind if what it receives is read inside the
buffers. -/
theorem receive_isSome (s : State) (attempt : ℕ) (peer : Address) (bytes : List UInt8) :
    (s.receive attempt peer bytes).isSome =
      (readMessage .zero (bytes.take stunAttrBufSize)).any fun msg =>
        isSuccess msg || (challengeOf msg).isSome := by
  unfold State.receive
  cases readMessage .zero (bytes.take stunAttrBufSize) with
  | none => rfl
  | some msg =>
    simp only [Option.bind_eq_bind, Option.bind_some, Option.any_some]
    cases isSuccess msg with
    | true => rfl
    | false => rcases challengeOf msg with _ | _ | ⟨nonce, realm⟩ <;> rfl

theorem next_isSome (isValid : Validity) (s : State) (a : Action) :
    (next isValid s a).isSome = readable isValid s a := by
  cases a with
  | receive d =>
    simp only [next, readable]
    cases s.pc with
    | idle => rfl
    | send attempt peer => rfl
    | wait attempt peer =>
      simp only
      split
      · rename_i hthere
        rw [receive_isSome]
        simp [hthere.1, hthere.2]
      · rename_i hthere
        rw [not_and_or, Bool.not_eq_true, not_not] at hthere
        obtain hsent | hempty := hthere
        · simp [hsent]
        · simp [hempty]
  | recv r =>
    simp only [next, readable]
    cases s.pc <;> simp
  | _ =>
    simp only [next, readable]
    cases s.pc <;> rfl

theorem grantedPeers_acknowledge (s : State) (peer : Address) :
    (s.acknowledge peer).grantedPeers = s.grantedPeers := rfl

/-- A success is taken rightly if the server has granted the peer. -/
theorem OnlyGranted.acknowledge_iff {s : State} (h : OnlyGranted s) (peer : Address) :
    OnlyGranted (s.acknowledge peer) ↔ peer ∈ s.grantedPeers := by
  unfold OnlyGranted
  rw [grantedPeers_acknowledge]
  refine ⟨?_, ?_⟩
  · exact fun hnext => hnext.2 peer rfl
  · intro hpeer
    refine ⟨?_, ?_⟩
    · intro p hp
      obtain hold | hnew := List.mem_append.mp hp
      · exact h.1 p hold
      · obtain ⟨rfl, -⟩ := Prod.mk.inj (List.mem_singleton.mp hnew)
        exact hpeer
    · rintro p ⟨⟩
      exact hpeer

theorem OnlyGranted.quiet {s t : State} (h : OnlyGranted s) (hquiet : Quiet s t) :
    OnlyGranted t := by
  refine ⟨?_, ?_⟩
  · intro p hp
    apply hquiet.granted p
    obtain hreturns | ⟨peer, hreturns⟩ := hquiet.returns
    · exact h.1 p (hreturns ▸ hp)
    · rw [hreturns, List.mem_append, List.mem_singleton] at hp
      obtain hold | hnew := hp
      · exact h.1 p hold
      · cases hnew
  · intro p hp
    exact hquiet.granted p (h.2 p (hquiet.permission ▸ hp))

/-- There is a state, and in it what has been acknowledged was granted. -/
def OnlyGrantedIn (s : Option State) : Prop := ∃ t ∈ s, OnlyGranted t

theorem onlyGrantedIn_step (isValid : Validity) (s : Option State) (a : Action)
    (h : OnlyGrantedIn s) :
    OnlyGrantedIn (step isValid s a) ↔ successAfterGrant isValid s a := by
  obtain ⟨s, rfl, hs⟩ := h
  rw [successAfterGrant, Option.all_some, ← next_isSome, step, Option.bind_some, OnlyGrantedIn]
  cases hnext : next isValid s a with
  | none => exact iff_of_false (fun ⟨_, ht, _⟩ => Option.not_mem_none _ ht) Bool.false_ne_true
  | some t =>
    simp only [Option.mem_some_iff, exists_eq_left', Option.isSome_some, Bool.true_and]
    obtain ⟨peer, hfor, rfl⟩ | ⟨hfor, hquiet⟩ := next_cases hnext
    · rw [hs.acknowledge_iff, hfor, Option.all_some, decide_eq_true_eq]
    · rw [hfor]
      exact iff_of_true (hs.quiet hquiet) rfl

/-- An answer that the call receives was sent by the server. -/
theorem successAfterGrant_of_isAnswer {isValid : Validity} {s : Option State} {a : Action}
    (h : successIsAnswer isValid s a) : successAfterGrant isValid s a := by
  cases s with
  | none => rfl
  | some s =>
    simp only [successIsAnswer, successAfterGrant, Option.all_some, Bool.and_eq_true] at h ⊢
    refine ⟨h.1, ?_⟩
    have hanswers := h.2
    cases hfor : successFor s a with
    | none => rfl
    | some peer =>
      rw [hfor, Option.isNone_some, Bool.false_or] at hanswers
      unfold successFor at hfor
      split at hfor
      · rename_i d attempt p hpc
        split at hfor
        · rename_i hthere
          obtain rfl := Option.some.inj hfor
          simp only [answersCall, hpc] at hanswers
          have hsent := hthere.1
          unfold State.sent at hsent
          split at hanswers
          · rename_i k horigin
            rw [horigin, decide_eq_true_eq] at hsent
            rw [decide_eq_true_eq] at hanswers
            rw [Option.all_some, decide_eq_true_eq]
            exact List.mem_filterMap.mpr ⟨k, hsent, hanswers⟩
          · cases hanswers
        · cases hfor
      · cases hfor

/-- **Recorded when granted, exactly when**: all along a run every call that
returned 0, and the permission that is set, is for a peer that the server has
granted, if and only if no call takes a datagram for a success before the server
has granted a request for its peer. It is enough that what a call takes for a
success is the server's answer to a request for its peer. -/
theorem onlyGranted_iff (isValid : Validity) (a : Agent) (as : List Action) :
    (Runs.Always (step isValid) OnlyGrantedIn (some (start a)) as ↔
      Runs.Meets (step isValid) (successAfterGrant isValid) (some (start a)) as) ∧
    (Runs.Meets (step isValid) (successIsAnswer isValid) (some (start a)) as →
      Runs.Always (step isValid) OnlyGrantedIn (some (start a)) as) := by
  have hstart : OnlyGrantedIn (some (start a)) := ⟨_, rfl, nofun, nofun⟩
  have hiff := Runs.always_iff_meets (I := fun _ => True) (fun _ _ _ => trivial)
    (fun s a _ => onlyGrantedIn_step isValid s a) as trivial hstart
  refine ⟨hiff, ?_⟩
  rw [hiff]
  exact Runs.Meets.imp fun _ _ => successAfterGrant_of_isAnswer

/-! ## A late answer -/

/-- An agent with an allocation on the TURN server at 10.0.0.1. -/
def allocatedAgent : Agent where
  turn :=
    { serverAddr := ⟨.v4 0x0A000001, 3478⟩
      username := [0x75]
      credential := [0x70]
      realm := [0x72]
      nonce := [0x6E]
      allocated := true
      permissionAddr := .zero
      permissionSet := false }
  localUpwd := [0x6C]
  remoteUpwd := [0x72]
  transactionId := []
  bindingRequestTime := 0
  succeeded := false

/-- Two peers. -/
def peerQ : Address := ⟨.v4 0x0A000101, 40000⟩

@[inherit_doc peerQ]
def peerP : Address := ⟨.v4 0x0A000202, 40000⟩

/-- A success response to CreatePermission. -/
def successBytes : List UInt8 := [1, 0x08, 0, 0] ++ magicCookie ++ List.replicate 12 0

/-- The call for one peer times out; its answer arrives in the call for the
other, before the server has looked at that request. -/
def lateAnswer : List Action :=
  [.call peerQ, .send true, .timeout, .answer 0, .call peerP, .send true,
    .receive ⟨.answer 0, successBytes⟩]

/-- The second call returns 0, and its peer was never granted. -/
theorem onlyGranted_lateAnswer :
    let isValid : Validity := fun _ _ => some false
    (Runs.run (step isValid) (some (start allocatedAgent)) lateAnswer).map
        (fun s => (s.returns, s.agent.turn.permission, s.grantedPeers)) =
      some ([(peerQ, -1), (peerP, 0)], some peerP, [peerQ]) ∧
    ¬ Runs.Always (step isValid) OnlyGrantedIn (some (start allocatedAgent)) lateAnswer := by
  intro isValid
  refine ⟨rfl, ?_⟩
  have hstart : OnlyGrantedIn (some (start allocatedAgent)) := ⟨_, rfl, nofun, nofun⟩
  rw [Runs.always_iff_meets (I := fun _ => True) (fun _ _ _ => trivial)
    (fun s a _ => onlyGrantedIn_step isValid s a) lateAnswer trivial hstart]
  decide +kernel

/-! ## The calls, by their outcomes -/

/-- The permission looked after is that of the last call that succeeded. -/
def LooksAfterLast (s : Option State) : Prop :=
  ∀ t ∈ s, t.agent.turn.permission =
    TurnPairs.lastGranted (t.returns.map fun call => (call.1, call.2 = 0))

theorem looksAfterLast_step (isValid : Validity) (s : Option State) (a : Action)
    (h : LooksAfterLast s) : LooksAfterLast (step isValid s a) := by
  intro t ht
  obtain ⟨s', hs, hnext⟩ := Option.bind_eq_some_iff.mp ht
  have hlast := h s' hs
  obtain ⟨peer, -, rfl⟩ | ⟨-, hquiet⟩ := next_cases hnext
  · show some peer = _
    simp only [State.acknowledge, State.ret, State.setTurn, List.map_append, List.map_cons,
      List.map_nil, decide_true, TurnPairs.lastGranted_append, if_true]
  · rw [hquiet.permission, hlast]
    obtain hreturns | ⟨peer, hreturns⟩ := hquiet.returns
    · rw [hreturns]
    · rw [hreturns, List.map_append]
      exact (TurnPairs.lastGranted_append _ peer false).symm

/-- The client looks after the permission of the last call that returned 0, as
the pairs are told. -/
theorem permission_lastGranted (isValid : Validity) (a : Agent) (as : List Action) :
    ∀ t ∈ Runs.run (step isValid) (some (start a)) as,
      t.agent.turn.permission =
        TurnPairs.lastGranted (t.returns.map fun call => (call.1, call.2 = 0)) := by
  apply Runs.run_induct (I := LooksAfterLast) (looksAfterLast_step isValid) as
  rintro t ⟨⟩
  rfl

end PipecatVoice.TurnPermission
