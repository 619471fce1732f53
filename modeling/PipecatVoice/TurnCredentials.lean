import PipecatVoice.Lib.Unwinding
import PipecatVoice.Stun

/-!
# Who may change the TURN credentials

`agent_recv` takes one datagram off the socket, whoever sent it. A Data
indication is replaced by its payload, and what is then a STUN message is acted
on: an error response with the code 401 or 438 brings a new nonce and realm for
the next keepalive. Neither the sender nor the wrapping is asked for.

* `demux`, `agentRecv` — `agent_recv`;
* `genuine` — an error response of the TURN server itself;
* `harmless` — a datagram that is none, and changes nothing;
* `credentials_iff` — which runs keep the credentials to the server.
-/

namespace PipecatVoice.TurnCredentials

/-- One datagram, and the memory it is read with. -/
structure Recv where
  /-- who sent it -/
  src : Address
  /-- the datagram -/
  datagram : List UInt8
  /-- the caller's buffer -/
  len : ℕ
  /-- what `stun_msg` holds before -/
  stale : StunMessage
  /-- `ports_get_epoch_time` -/
  now : ℕ

/-- What fits into the caller's buffer. -/
def Recv.payload (r : Recv) : List UInt8 := r.datagram.take r.len

/-- The message in a buffer, read over what `msg` held. -/
def readMessage (msg : StunMessage) (buf : List UInt8) : Option StunMessage := do
  let copied ← msg.buf.memcpy? buf
  stunParse { msg with buf := copied }

theorem stunProbe_length {buf : List UInt8} (h : stunProbe buf) : stunHeaderSize ≤ buf.length := by
  simp only [stunProbe, Bool.and_eq_true, decide_eq_true_eq] at h
  exact h.1

/-- The class of a message is in its first two bytes. -/
theorem readMessage_class {msg msg' : StunMessage} {buf : List UInt8} (hprobe : stunProbe buf)
    (h : readMessage msg buf = some msg') :
    msg'.stunclass = stunClassOf (CArray.beNat (buf.take 2)) := by
  have hlen := stunProbe_length hprobe
  simp only [readMessage, Option.bind_eq_bind, Option.bind_eq_some_iff] at h
  obtain ⟨copied, hcopy, hparse⟩ := h
  obtain ⟨raw, hraw, hclass⟩ := stunParse_class hparse
  rw [hclass]
  congr 1
  simp only [CArray.memcpy?] at hcopy
  split at hcopy
  · obtain rfl := Option.some.inj hcopy
    simp only [CArray.be16?, CArray.slice?, stunAttrBufSize, List.drop_zero] at hraw
    have htwo : (buf ++ msg.buf.bytes.drop buf.length).take 2 = buf.take 2 :=
      List.take_append_of_le_length (Nat.le_trans (by decide) hlen)
    simpa [htwo] using hraw.symm
  · cases hcopy

/-- What `agent_recv` makes of a datagram. -/
inductive Demux where
  /-- a Data indication without a payload, or with one that is too long -/
  | drop
  /-- no STUN message: passed on to the caller -/
  | media (payload : List UInt8) (src : Address)
  /-- a STUN message -/
  | stun (msg : StunMessage) (payload : List UInt8) (src : Address)

/-- The demultiplexer behind the unwrapping. -/
def dispatch (msg : StunMessage) (payload : List UInt8) (src : Address) : Option Demux :=
  if stunProbe payload then do
    let msg ← readMessage msg payload
    pure (.stun msg payload src)
  else some (.media payload src)

/-- `agent_recv`, up to the handling of a STUN message. -/
def demux (r : Recv) : Option Demux :=
  if stunProbe r.payload then do
    let msg ← readMessage r.stale r.payload
    if msg.stunclass = .indication ∧ msg.stunmethod = stunMethodData then
      match msg.data with
      | none => some .drop
      | some (off, len) =>
        if len = 0 ∨ r.len < len then some .drop
        else do
          let inner ← msg.buf.slice? off len
          dispatch msg inner msg.peerAddr
    else dispatch msg r.payload r.src
  else some (.media r.payload r.src)

/-- An error that asks for new credentials. -/
def isChallenge (msg : StunMessage) : Bool :=
  msg.stunclass = .error && (msg.errorCode = 438 || msg.errorCode = 401)

/-- The nonce and the realm an error brings; an empty realm stands for none. -/
def challengeOf (msg : StunMessage) : Option (Option (CString × CString)) :=
  if isChallenge msg then do
    let nonce ← msg.nonce.string?
    if nonce = [] then pure none
    else do
      let realm ← msg.realm.string?
      pure (some (nonce, realm))
  else some none

/-- `strncpy` of a nonce and a realm into the client. -/
def renew (t : TurnClient) (nonce realm : CString) : TurnClient :=
  { t with
    nonce := nonce.take 63
    realm := if realm = [] then t.realm else realm.take 63 }

/-- The agent, as far as `agent_recv` is concerned. -/
structure Agent where
  /-- the TURN members -/
  turn : TurnClient
  /-- `local_upwd` -/
  localUpwd : CString
  /-- `remote_upwd` -/
  remoteUpwd : CString
  /-- `transaction_id` -/
  transactionId : List UInt8
  /-- `binding_request_time` -/
  bindingRequestTime : ℕ
  /-- the nominated pair has succeeded -/
  succeeded : Bool

/-- `stun_msg_is_valid` of a message and a password; `none` where it leaves its
buffers. -/
abbrev Validity := List UInt8 → CString → Option Bool

/-- `agent_process_stun_request` -/
def processRequest (isValid : Validity) (now : ℕ) (msg : StunMessage) (payload : List UInt8)
    (a : Agent) : Option Agent :=
  if msg.stunmethod = stunMethodBinding then do
    let valid ← isValid payload a.localUpwd
    pure (if valid then
        { a with
          transactionId := (msg.buf.bytes.drop 8).take 12
          bindingRequestTime := now }
      else a)
  else some a

/-- `agent_process_stun_response` -/
def processResponse (isValid : Validity) (msg : StunMessage) (payload : List UInt8) (a : Agent) :
    Option Agent :=
  if msg.stunmethod = stunMethodBinding then do
    let valid ← isValid payload a.remoteUpwd
    pure (if valid then { a with succeeded := true } else a)
  else some a

/-- The handling of what was received: the agent after it, and what
`agent_recv` returns. -/
def handle (isValid : Validity) (now : ℕ) (a : Agent) : Demux → Option (Agent × ℤ)
  | .drop => some (a, -1)
  | .media payload _ => some (a, payload.length)
  | .stun msg payload _ =>
    match msg.stunclass with
    | .request => do
      let a ← processRequest isValid now msg payload a
      pure (a, 0)
    | .response => do
      let a ← processResponse isValid msg payload a
      pure (a, 0)
    | .error => do
      match ← challengeOf msg with
      | none => pure (a, 0)
      | some (nonce, realm) => pure ({ a with turn := renew a.turn nonce realm }, 0)
    | .indication => some (a, 0)

/-- `agent_recv` -/
def agentRecv (isValid : Validity) (a : Agent) (r : Recv) : Option (Agent × ℤ) := do
  let d ← demux r
  handle isValid r.now a d

/-! ## What changes the credentials -/

/-- The credentials a datagram brings. -/
def challengeIn : Demux → Option (Option (CString × CString))
  | .stun msg _ _ => challengeOf msg
  | .drop | .media _ _ => some none

/-- The client after the credentials a datagram brings. -/
def renewed (t : TurnClient) : Option (CString × CString) → TurnClient
  | none => t
  | some (nonce, realm) => renew t nonce realm

/-- The datagram comes from the TURN server and is itself an error response
that asks for new credentials. -/
def genuine (server : Address) (r : Recv) : Bool :=
  r.src = server && stunProbe r.payload && (readMessage r.stale r.payload).any isChallenge

/-- Checking a binding request or response stays inside the buffers. -/
def checkable (isValid : Validity) (a : Agent) : Demux → Bool
  | .stun msg payload _ =>
    match msg.stunclass with
    | .request => msg.stunmethod != stunMethodBinding || (isValid payload a.localUpwd).isSome
    | .response => msg.stunmethod != stunMethodBinding || (isValid payload a.remoteUpwd).isSome
    | .error | .indication => true
  | .drop | .media _ _ => true

/-- The datagram is read inside the buffers, and does not come out as an error
with the code 401 or 438 whose nonce or realm are not the stored ones. -/
def harmless (isValid : Validity) (a : Agent) (r : Recv) : Bool :=
  (demux r).any fun d =>
    checkable isValid a d && (challengeIn d).any fun c => renewed a.turn c = a.turn

/-- A renewal changes the nonce and the realm, and nothing else. -/
theorem renewed_eq_iff (t : TurnClient) (c : Option (CString × CString)) :
    renewed t c = t ↔ (renewed t c).realm = t.realm ∧ (renewed t c).nonce = t.nonce := by
  refine ⟨?_, ?_⟩
  · intro h
    rw [h]
    exact ⟨rfl, rfl⟩
  · rintro ⟨hrealm, hnonce⟩
    cases c with
    | none => rfl
    | some c =>
      obtain ⟨server, user, cred, realm, nonce, alloc, addr, set⟩ := t
      simp only [renewed, renew] at hrealm hnonce ⊢
      rw [hrealm, hnonce]

/-- **The handling of a message**, as far as the TURN members are concerned. -/
theorem handle_turn (isValid : Validity) (now : ℕ) (a : Agent) (d : Demux) :
    (handle isValid now a d).map (fun x => x.1.turn) =
      if checkable isValid a d then (challengeIn d).map (renewed a.turn) else none := by
  cases d with
  | drop => rfl
  | media payload src => rfl
  | stun msg payload src =>
    have hchallenge : msg.stunclass ≠ .error → challengeOf msg = some none := by
      intro hclass
      simp [challengeOf, isChallenge, hclass]
    cases hclass : msg.stunclass with
    | request =>
      have hnone := hchallenge (by rw [hclass]; decide)
      simp only [handle, checkable, challengeIn, hclass, hnone, processRequest]
      by_cases hmethod : msg.stunmethod = stunMethodBinding
      · cases hvalid : isValid payload a.localUpwd with
        | none => simp [hmethod]
        | some valid => cases valid <;> simp [hmethod, renewed]
      · simp [hmethod, renewed]
    | response =>
      have hnone := hchallenge (by rw [hclass]; decide)
      simp only [handle, checkable, challengeIn, hclass, hnone, processResponse]
      by_cases hmethod : msg.stunmethod = stunMethodBinding
      · cases hvalid : isValid payload a.remoteUpwd with
        | none => simp [hmethod]
        | some valid => cases valid <;> simp [hmethod, renewed]
      · simp [hmethod, renewed]
    | error =>
      simp only [handle, checkable, challengeIn, hclass, if_true]
      rcases challengeOf msg with _ | _ | ⟨nonce, realm⟩ <;> rfl
    | indication =>
      have hnone := hchallenge (by rw [hclass]; decide)
      simp only [handle, checkable, challengeIn, hclass, hnone, if_true]
      rfl

/-- What one datagram leaves of the TURN members. -/
theorem agentRecv_turn (isValid : Validity) (a : Agent) (r : Recv) :
    (agentRecv isValid a r).map (fun x => x.1.turn) =
      (demux r).bind fun d =>
        if checkable isValid a d then (challengeIn d).map (renewed a.turn) else none := by
  unfold agentRecv
  cases demux r with
  | none => rfl
  | some d => exact handle_turn isValid r.now a d

/-! ## Runs -/

/-- One datagram after the other; there is no state after one that is read
outside of the buffers. -/
def step (isValid : Validity) (s : Option Agent) (r : Recv) : Option Agent :=
  s.bind fun a => (agentRecv isValid a r).map Prod.fst

/-- The TURN members of a state. -/
def turnOf (s : Option Agent) : Option TurnClient := s.map Agent.turn

theorem turnOf_step (isValid : Validity) (a : Agent) (r : Recv) :
    turnOf (step isValid (some a) r) =
      (demux r).bind fun d =>
        if checkable isValid a d then (challengeIn d).map (renewed a.turn) else none := by
  rw [← agentRecv_turn, turnOf, step, Option.bind_some, Option.map_map]
  rfl

/-- After one datagram the realm and the nonce are those before it, unless it is a
genuine one. -/
def keepsCredentials (isValid : Validity) (s : Option Agent) (r : Recv) : Bool :=
  s.all fun a => genuine a.turn.serverAddr r ||
    (step isValid s r).any fun a' =>
      a'.turn.realm = a.turn.realm && a'.turn.nonce = a.turn.nonce

/-- The condition on one datagram. -/
def genuineOrHarmless (isValid : Validity) (s : Option Agent) (r : Recv) : Bool :=
  s.all fun a => genuine a.turn.serverAddr r || harmless isValid a r

theorem keepsCredentials_eq (isValid : Validity) (s : Option Agent) (r : Recv) :
    keepsCredentials isValid s r = genuineOrHarmless isValid s r := by
  cases s with
  | none => rfl
  | some a =>
    have hturn := turnOf_step isValid a r
    have hany : ((step isValid (some a) r).any fun a' =>
        a'.turn.realm = a.turn.realm && a'.turn.nonce = a.turn.nonce) =
        (turnOf (step isValid (some a) r)).any fun t =>
          t.realm = a.turn.realm && t.nonce = a.turn.nonce := by
      cases step isValid (some a) r <;> rfl
    simp only [keepsCredentials, genuineOrHarmless, Option.all_some, hany, hturn, harmless]
    congr 1
    cases demux r with
    | none => rfl
    | some d =>
      cases hcheck : checkable isValid a d with
      | false => simp [hcheck]
      | true =>
        cases hchallenge : challengeIn d with
        | none => simp [hcheck, hchallenge]
        | some c =>
          have hiff := renewed_eq_iff a.turn c
          simp [hcheck, hchallenge, hiff]

/-! ## Two runs -/

/-- What a genuine datagram brings: credentials, none, or an end of the run. -/
def serverChallenge (server : Address) (r : Recv) :
    Option (Option (Option (CString × CString))) :=
  if genuine server r then some ((demux r).bind challengeIn) else none

/-- The TURN members after what a genuine datagram brings. -/
def follow (t : Option TurnClient) (c : Option (Option (CString × CString))) :
    Option TurnClient :=
  t.bind fun t => c.map (renewed t)

/-- A genuine datagram is an error all along. -/
theorem genuine_error {server : Address} {r : Recv} (h : genuine server r) :
    ∃ msg, stunProbe r.payload ∧ readMessage r.stale r.payload = some msg ∧
      msg.stunclass = .error := by
  simp only [genuine, Bool.and_eq_true] at h
  obtain ⟨⟨-, hprobe⟩, hany⟩ := h
  cases hmsg : readMessage r.stale r.payload with
  | none =>
    rw [hmsg] at hany
    cases hany
  | some msg =>
    rw [hmsg, Option.any_some, isChallenge, Bool.and_eq_true, decide_eq_true_eq] at hany
    exact ⟨msg, hprobe, rfl, hany.1⟩

/-- Checking is for requests and responses only. -/
theorem checkable_of_genuine {server : Address} {r : Recv} (h : genuine server r)
    (isValid : Validity) (a : Agent) {d : Demux} (hd : d ∈ demux r) :
    checkable isValid a d := by
  obtain ⟨msg, hprobe, hmsg, herror⟩ := genuine_error h
  have hplain : ¬ (msg.stunclass = .indication ∧ msg.stunmethod = stunMethodData) := by
    rintro ⟨hindication, -⟩
    rw [herror] at hindication
    cases hindication
  simp only [Option.mem_def, demux, if_pos hprobe, hmsg, Option.bind_eq_bind, Option.bind_some,
    if_neg hplain, dispatch, Option.bind_eq_some_iff] at hd
  obtain ⟨msg', hmsg', hd⟩ := hd
  obtain rfl := Option.some.inj hd
  have hclass : msg'.stunclass = .error := by
    rw [readMessage_class hprobe hmsg', ← readMessage_class hprobe hmsg, herror]
  simp [checkable, hclass]

/-- The TURN server does not change. -/
def ServerIs (server : Address) (s : Option Agent) : Prop :=
  ∀ t ∈ turnOf s, t.serverAddr = server

theorem renewed_serverAddr (t : TurnClient) (c : Option (CString × CString)) :
    (renewed t c).serverAddr = t.serverAddr := by
  rcases c with _ | ⟨nonce, realm⟩ <;> rfl

theorem serverIs_step {server : Address} (isValid : Validity) (s : Option Agent) (r : Recv)
    (h : ServerIs server s) : ServerIs server (step isValid s r) := by
  cases s with
  | none => exact h
  | some a =>
    intro t ht
    rw [turnOf_step, Option.mem_def, Option.bind_eq_some_iff] at ht
    obtain ⟨d, -, ht⟩ := ht
    split at ht
    · obtain ⟨c, -, rfl⟩ := Option.map_eq_some_iff.mp ht
      rw [renewed_serverAddr]
      exact h a.turn rfl
    · cases ht

/-- Along a run that meets the condition the TURN members follow the genuine
datagrams, and nothing else. -/
theorem turnOf_step_follow {server : Address} (isValid : Validity) (s : Option Agent) (r : Recv)
    (hserver : ServerIs server s) (hguard : genuineOrHarmless isValid s r) :
    turnOf (step isValid s r) = (serverChallenge server r).elim (turnOf s) (follow (turnOf s)) := by
  cases s with
  | none => cases serverChallenge server r <;> rfl
  | some a =>
    have haddr : a.turn.serverAddr = server := hserver a.turn rfl
    rw [turnOf_step]
    simp only [genuineOrHarmless, Option.all_some, haddr] at hguard
    cases hgenuine : genuine server r with
    | true =>
      rw [serverChallenge, if_pos hgenuine, Option.elim_some]
      show _ = ((demux r).bind challengeIn).map (renewed a.turn)
      cases hd : demux r with
      | none => rfl
      | some d => simp [checkable_of_genuine hgenuine isValid a hd]
    | false =>
      rw [serverChallenge, hgenuine, if_neg Bool.false_ne_true, Option.elim_none]
      rw [hgenuine, Bool.false_or, harmless] at hguard
      cases hd : demux r with
      | none =>
        rw [hd] at hguard
        cases hguard
      | some d =>
        rw [hd, Option.any_some, Bool.and_eq_true] at hguard
        obtain ⟨hcheck, hsame⟩ := hguard
        cases hc : challengeIn d with
        | none =>
          rw [hc] at hsame
          cases hsame
        | some c =>
          rw [hc, Option.any_some, decide_eq_true_eq] at hsame
          simp [hcheck, hc, hsame, turnOf]

/-- **The credentials are the server's, exactly when**: in a run the realm and
the nonce change on genuine datagrams only, if and only if every other datagram
is harmless. Two runs of this kind that the server sends the same error
responses end with the same TURN members, and their keepalives are signed with
the same credentials. -/
theorem credentials_iff (isValid : Validity) (a : Agent) :
    (∀ rs, Runs.Meets (step isValid) (keepsCredentials isValid) (some a) rs ↔
      Runs.Meets (step isValid) (genuineOrHarmless isValid) (some a) rs) ∧
    ∀ rs rs', Runs.Meets (step isValid) (genuineOrHarmless isValid) (some a) rs →
      Runs.Meets (step isValid) (genuineOrHarmless isValid) (some a) rs' →
      rs.filterMap (serverChallenge a.turn.serverAddr) =
        rs'.filterMap (serverChallenge a.turn.serverAddr) →
      let t := turnOf (Runs.run (step isValid) (some a) rs)
      let t' := turnOf (Runs.run (step isValid) (some a) rs')
      t.map (fun t => (t.realm, t.nonce)) = t'.map (fun t => (t.realm, t.nonce)) ∧
        t.map agentTurnRefresh = t'.map agentTurnRefresh := by
  refine ⟨?_, ?_⟩
  · intro rs
    rw [Runs.meets_congr (I := fun _ => True) (fun _ _ _ => trivial)
      (fun s r _ => keepsCredentials_eq isValid s r) rs trivial]
  · intro rs rs' hrs hrs' hsame t t'
    have hserver : ServerIs a.turn.serverAddr (some a) := by
      intro t ht
      rw [← Option.some.inj ht]
    have hfollow := fun rs => Unwinding.view_run_labels turnOf (I := ServerIs a.turn.serverAddr)
      (fun s r => serverIs_step isValid s r)
      (fun s r => turnOf_step_follow isValid s r) rs hserver
    have heq : t = t' := by
      rw [show t = _ from hfollow rs hrs, show t' = _ from hfollow rs' hrs', hsame]
    rw [heq]
    exact ⟨rfl, rfl⟩

/-! ## A relayed packet that changes the credentials -/

/-- A connection through the TURN server at 10.0.0.1. -/
def relayedAgent : Agent where
  turn :=
    { serverAddr := ⟨.v4 0x0A000001, 3478⟩
      username := [0x75]
      credential := [0x70]
      realm := [0x72]
      nonce := [0x6E]
      allocated := true
      permissionAddr := ⟨.v4 0x0A000101, 40000⟩
      permissionSet := true }
  localUpwd := [0x6C]
  remoteUpwd := [0x72]
  transactionId := []
  bindingRequestTime := 0
  succeeded := true

/-- A header without a transaction id to speak of. -/
def header (type length : UInt8) : List UInt8 :=
  [0, type, 0, length] ++ magicCookie ++ List.replicate 12 0

/-- A binding error 401 with the nonce `evil`. -/
def forgedError : List UInt8 :=
  [1, 0x11, 0, 16] ++ magicCookie ++ List.replicate 12 0 ++
  [0x00, 0x09, 0, 4, 0, 0, 4, 1] ++ [0x00, 0x15, 0, 4, 0x65, 0x76, 0x69, 0x6C]

/-- The server relays it from a peer, in a Data indication. -/
def relayedError : Recv where
  src := ⟨.v4 0x0A000001, 3478⟩
  datagram := header 0x17 52 ++
    [0x00, 0x12, 0, 8, 0, 1, 0, 0, 0, 0, 0, 0] ++ [0x00, 0x13, 0, 36] ++ forgedError
  len := 1300
  stale := .zero
  now := 0

/-- The packet is not a genuine error, and the nonce becomes `evil`. No binding
request of the peer's passes a check here. -/
theorem credentials_relayedError :
    let isValid : Validity := fun _ _ => some false
    genuine relayedAgent.turn.serverAddr relayedError = false ∧
      (turnOf (step isValid (some relayedAgent) relayedError)).map TurnClient.nonce =
        some [0x65, 0x76, 0x69, 0x6C] ∧
      ¬ Runs.Meets (step isValid) (keepsCredentials isValid) (some relayedAgent)
        [relayedError] := by
  decide +kernel

end PipecatVoice.TurnCredentials
