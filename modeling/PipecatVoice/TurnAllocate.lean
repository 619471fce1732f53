import PipecatVoice.SendIndication
import PipecatVoice.TurnPairs

/-!
# What an allocation rests on

`agent_create_turn_addr` asks the TURN server for an allocation, is asked for
credentials, and asks again. Both answers are received into one message; what the
second receive returns is not looked at.

* `agentSocketRecv`, `agentSocketRecvAttempts`, `agentCreateTurnAddr` — the functions of
  `agent.c`;
* `AllocatedMeans` — an allocation is recorded only when the server has granted one;
* `allocatedMeans_iff` — which exchanges keep it.
-/

namespace PipecatVoice.TurnAllocate

open TurnPairs (CandidateType)

/-- `AGENT_STUN_RECV_MAXTIMES` -/
def recvMaxtimes : ℕ := 1000

/-- `AGENT_MAX_CANDIDATES` -/
def maxCandidates : ℕ := 10

/-- `STUN_METHOD_ALLOCATE` -/
def stunMethodAllocate : ℕ := 3

/-! ## Receiving -/

/-- One attempt to receive. -/
inductive Attempt where
  /-- `select` times out -/
  | idle
  /-- `select` fails -/
  | selectError
  /-- `recvfrom` fails -/
  | recvError
  /-- a datagram, from anywhere -/
  | datagram (bytes : List UInt8)

theorem length_received (n : ℕ) (bytes : List UInt8) :
    (CArray.padded n (bytes.take n)).length = n := by
  rw [CArray.padded, List.length_append, List.length_replicate, List.length_take]
  omega

/-- A buffer that was cleared and then received into. -/
def received (n : ℕ) (bytes : List UInt8) : CArray n where
  bytes := CArray.padded n (bytes.take n)
  length_eq := length_received n bytes

variable {n : ℕ}

/-- `agent_socket_recv`: the buffer, and what is returned. -/
def agentSocketRecv (buf : CArray n) : Attempt → CArray n × ℤ
  | .idle => (buf, 0)
  | .selectError => (buf, -1)
  | .recvError => (received n [], -1)
  | .datagram bytes => (received n bytes, (bytes.take n).length)

/-- `agent_socket_recv_attempts`; behind the attempts that are listed, nothing arrives. -/
def agentSocketRecvAttempts (buf : CArray n) : ℕ → List Attempt → CArray n × ℤ
  | 0, _ => (buf, 0)
  | _ + 1, [] => (buf, 0)
  | maxtimes + 1, attempt :: attempts =>
    let recv := agentSocketRecv buf attempt
    if recv.2 ≠ 0 then recv else agentSocketRecvAttempts recv.1 maxtimes attempts

/-! ## The exchange -/

/-- `IceCandidate` -/
structure IceCandidate where
  /-- `foundation`, in digits -/
  foundation : ℕ
  /-- `component` -/
  component : ℕ
  /-- `priority` -/
  priority : UInt32
  /-- `transport` -/
  transport : String
  /-- `type` -/
  type : CandidateType
  /-- `addr` -/
  addr : Address

/-- `ice_candidate_type_preference` -/
def iceCandidateTypePreference : CandidateType → ℕ
  | .host => 126
  | .srflx => 100
  | .relay | .prflx => 0

/-- `ice_candidate_create` -/
def iceCandidateCreate (foundation : ℕ) (type : CandidateType) (addr : Address) :
    IceCandidate where
  foundation := foundation
  component := 1
  priority := UInt32.ofNat
    ((1 <<< 24) * iceCandidateTypePreference type + (1 <<< 8) * addr.port.toNat + (256 - 1))
  transport := "UDP"
  type := type
  addr := addr

/-- The agent. -/
structure Agent where
  /-- the TURN members -/
  turn : TurnClient
  /-- `local_candidates` -/
  candidates : List IceCandidate

/-- An Allocate request. -/
structure AllocateRequest where
  /-- USERNAME -/
  username : CString
  /-- NONCE, REALM and `user:realm:password`, whose MD5 is the key of MESSAGE-INTEGRITY -/
  auth : Option (CString × CString × CString)

/-- The arguments of a call, and what the socket does meanwhile. -/
structure Call where
  /-- `serv_addr` -/
  servAddr : Address
  /-- `username` -/
  username : CString
  /-- `credential` -/
  credential : CString
  /-- how much the first `sendto` sends, if it does -/
  firstSend : Option ℕ
  /-- the first receive -/
  first : List Attempt
  /-- how much the second `sendto` sends, if it does -/
  secondSend : Option ℕ
  /-- the second receive -/
  second : List Attempt

/-- How a call ends. -/
structure Outcome where
  /-- the agent -/
  agent : Agent
  /-- what is returned -/
  ret : ℤ
  /-- the requests that were handed to the socket -/
  requests : List AllocateRequest

/-- `udp_socket_sendto` -/
def udpSocketSendto : Option ℕ → ℤ
  | none => -1
  | some sent => sent

/-- The server asks for credentials, or refuses. -/
def isAllocateError (msg : StunMessage) : Bool :=
  msg.stunclass = .error && msg.stunmethod = stunMethodAllocate

/-- The requests of a call: the bare one, and the one with credentials. -/
def bareRequest (c : Call) : AllocateRequest := ⟨c.username, none⟩

def signedRequest (c : Call) (nonce realm : CString) : AllocateRequest where
  username := c.username
  auth := some (nonce, realm, c.username ++ [0x3A] ++ realm ++ [0x3A] ++ c.credential)

/-- What `strncpy` finds in an array. -/
def stringIn (a : CArray n) : CString := a.bytes.takeWhile (· ≠ 0)

/-- A relay candidate and the credentials are recorded; there is no room for an eleventh
candidate. -/
def recordAllocation (a : Agent) (c : Call) (recvMsg : StunMessage) : Option Agent :=
  if a.candidates.length < maxCandidates then
    some {
      turn := { a.turn with
        serverAddr := c.servAddr
        username := c.username.take 127
        credential := c.credential.take 63
        realm := (stringIn recvMsg.realm).take 63
        nonce := (stringIn recvMsg.nonce).take 63
        allocated := true
        permissionSet := false }
      candidates := a.candidates ++
        [iceCandidateCreate (a.candidates.length + 1) .relay recvMsg.relayedAddr] }
  else none

/-- The rest of the call, once the server has asked for credentials. -/
def authenticate (a : Agent) (c : Call) (recvMsg : StunMessage) : Option Outcome := do
  let nonce ← recvMsg.nonce.string?
  let realm ← recvMsg.realm.string?
  let requests := [bareRequest c, signedRequest c nonce realm]
  let ret := udpSocketSendto c.secondSend
  if ret < 0 then pure ⟨a, -1, requests⟩
  else
    -- what the second receive returns is dropped, and `ret` is still that of `sendto`
    let (buf, _) := agentSocketRecvAttempts recvMsg.buf recvMaxtimes c.second
    if ret ≤ 0 then pure ⟨a, ret, requests⟩
    else do
      let recvMsg ← stunParse { recvMsg with buf := buf }
      let a ← recordAllocation a c recvMsg
      pure ⟨a, ret, requests⟩

/-- `agent_create_turn_addr`; none where it leaves its arrays. -/
def agentCreateTurnAddr (a : Agent) (c : Call) : Option Outcome :=
  if udpSocketSendto c.firstSend = -1 then some ⟨a, -1, [bareRequest c]⟩
  else
    let (buf, ret) := agentSocketRecvAttempts (.zero stunAttrBufSize) recvMaxtimes c.first
    if ret ≤ 0 then some ⟨a, ret, [bareRequest c]⟩
    else do
      let recvMsg ← stunParse { StunMessage.zero with buf := buf }
      if isAllocateError recvMsg then authenticate a c recvMsg
      else pure ⟨a, -1, [bareRequest c]⟩

/-! ## What is received -/

/-- The attempt brings nothing. -/
def Attempt.isIdle : Attempt → Bool
  | .idle | .datagram [] => true
  | .selectError | .recvError | .datagram (_ :: _) => false

/-- What an attempt brings. -/
def Attempt.bytes? : Attempt → Option (List UInt8)
  | .datagram bytes => some bytes
  | .idle | .selectError | .recvError => none

/-- What is received in at most so many attempts. -/
def replyWithin (maxtimes : ℕ) (attempts : List Attempt) : Option (List UInt8) :=
  ((attempts.take maxtimes).dropWhile Attempt.isIdle).head?.bind Attempt.bytes?

/-- The datagram that a receive ends with. -/
def reply (attempts : List Attempt) : Option (List UInt8) := replyWithin recvMaxtimes attempts

/-- A datagram, read over what the message held. -/
def readReply (msg : StunMessage) (bytes : List UInt8) : Option StunMessage :=
  stunParse { msg with buf := received _ bytes }

/-- The types of the attributes, as the reader goes through them. -/
def attrTypes (buf : CArray stunAttrBufSize) (length : ℕ) : ℕ → ℕ → List ℕ
  | 0, _ => []
  | fuel + 1, pos =>
    if pos < length then
      match buf.be16? pos, buf.be16? (pos + 2) with
      | some type, some len => type :: attrTypes buf length fuel (pos + 4 * ((len + 3) / 4) + 4)
      | _, _ => []
    else []

/-- The message carries an attribute. -/
def carries (msg : StunMessage) (type : ℕ) : Bool :=
  (msg.buf.be16? 2).any fun length =>
    type ∈ attrTypes msg.buf (length + stunHeaderSize) maxAttrs stunHeaderSize

/-- An Allocate success response with an XOR-RELAYED-ADDRESS. -/
def isAllocateSuccess (msg : StunMessage) : Bool :=
  msg.stunclass = .response && msg.stunmethod = stunMethodAllocate && carries msg 0x0016

/-- The first answer, if the server asks for credentials in it. -/
def challenge (c : Call) : Option StunMessage :=
  ((reply c.first).bind (readReply .zero)).filter isAllocateError

/-- The second answer grants the allocation. -/
def granted (c : Call) (recvMsg : StunMessage) : Bool :=
  ((reply c.second).bind (readReply recvMsg)).any isAllocateSuccess

/-- **An allocation is recorded only when it was granted**, in answer to the second request; in
every other case all is as it was. -/
def AllocatedMeans (a : Agent) (c : Call) : Prop :=
  ∃ o, agentCreateTurnAddr a c = some o ∧
    (¬ (challenge c).any (granted c) → o.agent.turn = a.turn ∧
      o.agent.candidates = a.candidates)

/-- The call ends before the second receive, or the second answer grants the allocation; what
is received is read inside the arrays, and there is room for a candidate. -/
def Sound (a : Agent) (c : Call) : Prop :=
  c.firstSend = none ∨ reply c.first = none ∨
    ∃ msg, (reply c.first).bind (readReply .zero) = some msg ∧
      (¬ isAllocateError msg ∨
        (msg.nonce.string?.isSome ∧ msg.realm.string?.isSome ∧
          (c.secondSend = none ∨ c.secondSend = some 0 ∨
            (granted c msg ∧ a.candidates.length < maxCandidates))))

theorem replyWithin_cons_idle (maxtimes : ℕ) {attempt : Attempt} (attempts : List Attempt)
    (h : attempt.isIdle) :
    replyWithin (maxtimes + 1) (attempt :: attempts) = replyWithin maxtimes attempts := by
  rw [replyWithin, List.take_succ_cons, List.dropWhile_cons_of_pos h]
  rfl

theorem replyWithin_cons (maxtimes : ℕ) {attempt : Attempt} (attempts : List Attempt)
    (h : ¬ attempt.isIdle) :
    replyWithin (maxtimes + 1) (attempt :: attempts) = attempt.bytes? := by
  rw [replyWithin, List.take_succ_cons, List.dropWhile_cons_of_neg h]
  rfl

/-- What an attempt that brings nothing does: the wait goes on. -/
theorem agentSocketRecv_idle (buf : CArray n) {attempt : Attempt} (h : attempt.isIdle) :
    (agentSocketRecv buf attempt).2 = 0 := by
  cases attempt with
  | idle => rfl
  | selectError => cases h
  | recvError => cases h
  | datagram bytes =>
    cases bytes with
    | nil =>
      rw [agentSocketRecv, List.take_nil]
      rfl
    | cons b bytes => cases h

theorem agentSocketRecvAttempts_cons_idle (buf : CArray n) (maxtimes : ℕ) {attempt : Attempt}
    (attempts : List Attempt) (h : attempt.isIdle) :
    agentSocketRecvAttempts buf (maxtimes + 1) (attempt :: attempts) =
      agentSocketRecvAttempts (agentSocketRecv buf attempt).1 maxtimes attempts := by
  rw [agentSocketRecvAttempts, if_neg (not_not.mpr (agentSocketRecv_idle buf h))]

/-- **A receive that ends with a datagram** has it in the buffer, with zeros behind it. -/
theorem agentSocketRecvAttempts_some (hn : 0 < n) {maxtimes : ℕ} :
    ∀ {attempts : List Attempt} {buf : CArray n} {bytes : List UInt8},
      replyWithin maxtimes attempts = some bytes →
      agentSocketRecvAttempts buf maxtimes attempts =
          (received n bytes, ((bytes.take n).length : ℤ)) ∧
        0 < (bytes.take n).length := by
  induction maxtimes with
  | zero => exact nofun
  | succ maxtimes ih =>
    intro attempts buf bytes h
    cases attempts with
    | nil => cases h
    | cons attempt attempts =>
      by_cases hidle : attempt.isIdle
      · rw [replyWithin_cons_idle maxtimes attempts hidle] at h
        rw [agentSocketRecvAttempts_cons_idle buf maxtimes attempts hidle]
        exact ih h
      · rw [replyWithin_cons maxtimes attempts hidle] at h
        cases attempt with
        | idle => cases h
        | selectError => cases h
        | recvError => cases h
        | datagram ds =>
          obtain rfl := Option.some.inj h
          cases ds with
          | nil => exact absurd rfl hidle
          | cons d ds =>
            have hpos : 0 < ((d :: ds).take n).length := by
              rw [List.length_take, List.length_cons]
              omega
            have hret : (agentSocketRecv buf (.datagram (d :: ds))).2 ≠ 0 := by
              show (((d :: ds).take n).length : ℤ) ≠ 0
              omega
            rw [agentSocketRecvAttempts, if_pos hret]
            exact ⟨rfl, hpos⟩

/-- A receive that ends without one returns no length. -/
theorem agentSocketRecvAttempts_none {maxtimes : ℕ} :
    ∀ {attempts : List Attempt} {buf : CArray n}, replyWithin maxtimes attempts = none →
      (agentSocketRecvAttempts buf maxtimes attempts).2 ≤ 0 := by
  induction maxtimes with
  | zero => exact fun _ => le_refl _
  | succ maxtimes ih =>
    intro attempts buf h
    cases attempts with
    | nil => exact le_refl _
    | cons attempt attempts =>
      by_cases hidle : attempt.isIdle
      · rw [replyWithin_cons_idle maxtimes attempts hidle] at h
        rw [agentSocketRecvAttempts_cons_idle buf maxtimes attempts hidle]
        exact ih h
      · rw [replyWithin_cons maxtimes attempts hidle] at h
        cases attempt with
        | idle => exact absurd rfl hidle
        | selectError => exact Int.neg_nonpos_of_nonneg Int.one_nonneg
        | recvError => exact Int.neg_nonpos_of_nonneg Int.one_nonneg
        | datagram ds => cases h

/-! ## The stages of a call -/

theorem reply_some {attempts : List Attempt} {bytes : List UInt8}
    (buf : CArray stunAttrBufSize) (h : reply attempts = some bytes) :
    agentSocketRecvAttempts buf recvMaxtimes attempts =
      (received _ bytes, ((bytes.take stunAttrBufSize).length : ℤ)) ∧
      0 < (bytes.take stunAttrBufSize).length :=
  agentSocketRecvAttempts_some (by decide) h

/-- The call up to the first answer. -/
theorem agentCreateTurnAddr_of_reply {a : Agent} {c : Call} {bytes : List UInt8}
    (hsend : c.firstSend ≠ none) (h : reply c.first = some bytes) :
    agentCreateTurnAddr a c = (readReply .zero bytes).bind fun recvMsg =>
      if isAllocateError recvMsg then authenticate a c recvMsg
      else pure ⟨a, -1, [bareRequest c]⟩ := by
  obtain ⟨sent, hsent⟩ := Option.ne_none_iff_exists'.mp hsend
  have hret : udpSocketSendto c.firstSend ≠ -1 := by
    rw [hsent]
    exact fun h => absurd h (by show (sent : ℤ) ≠ -1; omega)
  obtain ⟨hrecv, hpos⟩ := reply_some (.zero stunAttrBufSize) h
  rw [agentCreateTurnAddr, if_neg hret, hrecv]
  exact if_neg (by omega)

/-- The call that ends before the first answer. -/
theorem agentCreateTurnAddr_unanswered {a : Agent} {c : Call}
    (h : c.firstSend = none ∨ reply c.first = none) :
    ∃ ret, agentCreateTurnAddr a c = some ⟨a, ret, [bareRequest c]⟩ := by
  by_cases hret : udpSocketSendto c.firstSend = -1
  · exact ⟨-1, if_pos hret⟩
  · have hfirst : reply c.first = none := by
      refine h.resolve_left fun hnone => hret ?_
      rw [hnone]
      rfl
    refine ⟨(agentSocketRecvAttempts (.zero stunAttrBufSize) recvMaxtimes c.first).2, ?_⟩
    rw [agentCreateTurnAddr, if_neg hret]
    exact if_pos (agentSocketRecvAttempts_none hfirst)

/-- The signed request that is not sent leaves the agent alone. -/
theorem authenticate_unsent {a : Agent} {c : Call} {recvMsg : StunMessage}
    (hnonce : recvMsg.nonce.string?.isSome) (hrealm : recvMsg.realm.string?.isSome)
    (h : c.secondSend = none ∨ c.secondSend = some 0) :
    ∃ o, authenticate a c recvMsg = some o ∧ o.agent = a := by
  obtain ⟨nonce, hn⟩ := Option.isSome_iff_exists.mp hnonce
  obtain ⟨realm, hr⟩ := Option.isSome_iff_exists.mp hrealm
  obtain h | h := h
  · refine ⟨⟨a, -1, [bareRequest c, signedRequest c nonce realm]⟩, ?_, rfl⟩
    simp only [authenticate, hn, hr, h, udpSocketSendto, Option.bind_eq_bind, Option.bind_some]
    rfl
  · refine ⟨⟨a, 0, [bareRequest c, signedRequest c nonce realm]⟩, ?_, rfl⟩
    simp only [authenticate, hn, hr, h, udpSocketSendto, Option.bind_eq_bind, Option.bind_some]
    rfl

/-- **The signed request that is sent** is taken for granted, whatever the second receive
returns: only its buffer is looked at. -/
theorem authenticate_sent {a : Agent} {c : Call} {recvMsg : StunMessage} {nonce realm : CString}
    {sent : ℕ} (hnonce : recvMsg.nonce.string? = some nonce)
    (hrealm : recvMsg.realm.string? = some realm) (h : c.secondSend = some (sent + 1)) :
    authenticate a c recvMsg =
      (stunParse { recvMsg with
        buf := (agentSocketRecvAttempts recvMsg.buf recvMaxtimes c.second).1 }).bind fun msg =>
          (recordAllocation a c msg).map fun a =>
            ⟨a, sent + 1, [bareRequest c, signedRequest c nonce realm]⟩ := by
  have hret : udpSocketSendto (some (sent + 1)) = (sent : ℤ) + 1 := rfl
  have hpos : ¬ (sent : ℤ) + 1 < 0 := by omega
  have hmore : ¬ (sent : ℤ) + 1 ≤ 0 := by omega
  simp only [authenticate, hnonce, hrealm, h, hret, if_neg hpos, if_neg hmore,
    Option.bind_eq_bind, Option.bind_some]
  refine congrArg _ (funext fun msg => ?_)
  cases recordAllocation a c msg with
  | none => rfl
  | some a => rfl

/-- A recorded allocation adds a candidate. -/
theorem recordAllocation_some {a a' : Agent} {c : Call} {msg : StunMessage}
    (h : recordAllocation a c msg = some a') :
    a.candidates.length < maxCandidates ∧
      a'.candidates.length = a.candidates.length + 1 := by
  rw [recordAllocation] at h
  split at h
  · next hroom =>
    obtain rfl := Option.some.inj h
    exact ⟨hroom, List.length_append⟩
  · cases h

theorem challenge_eq {c : Call} {msg : StunMessage}
    (h : (reply c.first).bind (readReply .zero) = some msg) (herror : isAllocateError msg) :
    challenge c = some msg := by
  rw [challenge, h, Option.filter_some, if_pos herror]

/-- A signed request needs the strings of the challenge. -/
theorem strings_of_authenticate {a : Agent} {c : Call} {msg : StunMessage} {o : Outcome}
    (h : authenticate a c msg = some o) :
    msg.nonce.string?.isSome ∧ msg.realm.string?.isSome := by
  simp only [authenticate, Option.bind_eq_bind, Option.bind_eq_some_iff] at h
  obtain ⟨nonce, hnonce, realm, hrealm, -⟩ := h
  exact ⟨Option.isSome_of_eq_some hnonce, Option.isSome_of_eq_some hrealm⟩

/-- A call that goes on to the second receive keeps its promise only if that receive brings the
success response. -/
theorem granted_of_allocatedMeans {a : Agent} {c : Call} {msg : StunMessage} {o : Outcome}
    {sent : ℕ} (hauth : authenticate a c msg = some o) (hsent : c.secondSend = some (sent + 1))
    (h : ¬ granted c msg → o.agent.turn = a.turn ∧ o.agent.candidates = a.candidates) :
    granted c msg ∧ a.candidates.length < maxCandidates := by
  obtain ⟨hsomeNonce, hsomeRealm⟩ := strings_of_authenticate hauth
  obtain ⟨nonce, hnonce⟩ := Option.isSome_iff_exists.mp hsomeNonce
  obtain ⟨realm, hrealm⟩ := Option.isSome_iff_exists.mp hsomeRealm
  rw [authenticate_sent hnonce hrealm hsent, Option.bind_eq_some_iff] at hauth
  obtain ⟨msg', -, hrecord⟩ := hauth
  obtain ⟨a', hadded, rfl⟩ := Option.map_eq_some_iff.mp hrecord
  obtain ⟨hroom, hlength⟩ := recordAllocation_some hadded
  refine ⟨?_, hroom⟩
  by_contra hnot
  have hsame := congrArg List.length (h hnot).2
  exact absurd (hlength.symm.trans hsame) (Nat.succ_ne_self _)

/-- A success response, for which there is room, is recorded. -/
theorem authenticate_granted {a : Agent} {c : Call} {msg : StunMessage} {sent : ℕ}
    (hnonce : msg.nonce.string?.isSome) (hrealm : msg.realm.string?.isSome)
    (hsent : c.secondSend = some (sent + 1)) (hgranted : granted c msg)
    (hroom : a.candidates.length < maxCandidates) : ∃ o, authenticate a c msg = some o := by
  obtain ⟨nonce, hn⟩ := Option.isSome_iff_exists.mp hnonce
  obtain ⟨realm, hr⟩ := Option.isSome_iff_exists.mp hrealm
  obtain ⟨msg', hread, -⟩ := (Option.any_eq_true _ _).mp hgranted
  obtain ⟨bytes, hreply, hparse⟩ := Option.bind_eq_some_iff.mp hread
  obtain ⟨hrecv, -⟩ := reply_some msg.buf hreply
  obtain ⟨a', hrecord⟩ : ∃ a', recordAllocation a c msg' = some a' := ⟨_, if_pos hroom⟩
  refine ⟨⟨a', sent + 1, [bareRequest c, signedRequest c nonce realm]⟩, ?_⟩
  rw [authenticate_sent hn hr hsent, hrecv]
  exact Option.bind_eq_some_iff.mpr ⟨msg', hparse, by rw [hrecord, Option.map_some]⟩

/-- The call from the challenge on. -/
theorem authenticate_means_iff (a : Agent) (c : Call) (msg : StunMessage) :
    (∃ o, authenticate a c msg = some o ∧ (¬ granted c msg →
      o.agent.turn = a.turn ∧ o.agent.candidates = a.candidates)) ↔
      msg.nonce.string?.isSome ∧ msg.realm.string?.isSome ∧
        (c.secondSend = none ∨ c.secondSend = some 0 ∨
          (granted c msg ∧ a.candidates.length < maxCandidates)) := by
  refine ⟨?_, ?_⟩
  · rintro ⟨o, hauth, hsame⟩
    obtain ⟨hnonce, hrealm⟩ := strings_of_authenticate hauth
    refine ⟨hnonce, hrealm, ?_⟩
    cases hsecond : c.secondSend with
    | none => exact .inl rfl
    | some sent =>
      cases sent with
      | zero => exact .inr (.inl rfl)
      | succ sent => exact .inr (.inr (granted_of_allocatedMeans hauth hsecond hsame))
  · rintro ⟨hnonce, hrealm, hrest⟩
    by_cases hunsent : c.secondSend = none ∨ c.secondSend = some 0
    · obtain ⟨o, hauth, hagent⟩ := authenticate_unsent (a := a) hnonce hrealm hunsent
      exact ⟨o, hauth, fun _ => ⟨congrArg _ hagent, congrArg _ hagent⟩⟩
    · obtain ⟨hnone, hzero⟩ := not_or.mp hunsent
      obtain ⟨hgranted, hroom⟩ := (hrest.resolve_left hnone).resolve_left hzero
      obtain ⟨sent, hsecond⟩ := Option.ne_none_iff_exists'.mp hnone
      cases sent with
      | zero => exact absurd hsecond hzero
      | succ sent =>
        obtain ⟨o, hauth⟩ := authenticate_granted hnonce hrealm hsecond hgranted hroom
        exact ⟨o, hauth, fun h => absurd hgranted h⟩

/-- **An allocation is recorded only when it was granted exactly if** the call ends before the
second receive, or that receive brings the success response. -/
theorem allocatedMeans_iff (a : Agent) (c : Call) : AllocatedMeans a c ↔ Sound a c := by
  by_cases hearly : c.firstSend = none ∨ reply c.first = none
  · obtain ⟨ret, hcall⟩ := agentCreateTurnAddr_unanswered (a := a) hearly
    refine ⟨fun _ => ?_, fun _ => ⟨_, hcall, fun _ => ⟨rfl, rfl⟩⟩⟩
    exact hearly.imp_right .inl
  obtain ⟨hsend, hnone⟩ := not_or.mp hearly
  obtain ⟨bytes, hreply⟩ := Option.ne_none_iff_exists'.mp hnone
  have hcall := agentCreateTurnAddr_of_reply (a := a) hsend hreply
  have hfirst : (reply c.first).bind (readReply .zero) = readReply .zero bytes := by
    rw [hreply, Option.bind_some]
  rw [Sound, hfirst, or_iff_right hsend, or_iff_right hnone, AllocatedMeans, hcall]
  cases hread : readReply .zero bytes with
  | none =>
    refine ⟨?_, ?_⟩
    · rintro ⟨_, h, -⟩
      cases h
    · rintro ⟨_, h, -⟩
      cases h
  | some msg =>
    rw [Option.bind_some]
    by_cases herror : isAllocateError msg
    · have hchallenge := challenge_eq (hfirst.trans hread) herror
      rw [if_pos herror, hchallenge, Option.any_some, authenticate_means_iff]
      refine ⟨fun h => ⟨msg, rfl, .inr h⟩, ?_⟩
      rintro ⟨_, hmsg, hcond⟩
      obtain rfl := Option.some.inj hmsg
      exact hcond.resolve_left (not_not.mpr herror)
    · rw [if_neg herror]
      refine ⟨fun _ => ⟨msg, rfl, .inl herror⟩, fun _ => ⟨_, rfl, fun _ => ⟨rfl, rfl⟩⟩⟩

/-! ## The second receive times out -/

/-- An error response to Allocate: 401, with a nonce and a realm. -/
def unauthorized : List UInt8 :=
  packet 0x0113 (Vector.replicate 12 7)
    (attrBytes 0x0009 [0, 0, 4, 1] ++ attrBytes 0x0015 [0x61, 0x62, 0x63] ++
      attrBytes 0x0014 [0x74, 0x75, 0x72, 0x6E])

/-- The server asks for credentials, and then does not answer. -/
def lostReply : Call where
  servAddr := ⟨.v4 0x0A000001, 3478⟩
  username := [0x75, 0x73, 0x65, 0x72]
  credential := [0x73, 0x65, 0x63]
  firstSend := some 40
  first := [.idle, .datagram unauthorized]
  secondSend := some 100
  second := []

/-- An agent without an allocation. -/
def unallocated : Agent where
  turn := {
    serverAddr := .zero
    username := []
    credential := []
    realm := []
    nonce := []
    allocated := false
    permissionAddr := .zero
    permissionSet := false }
  candidates := []

/-- The second receive times out, and a relay candidate is added all the same. -/
theorem allocatedMeans_lostReply : ¬ AllocatedMeans unallocated lostReply := by
  rintro ⟨o, hcall, hsame⟩
  have hrun : (agentCreateTurnAddr unallocated lostReply).map (·.agent.candidates.length) =
      some 1 := by
    decide +kernel
  rw [hcall, Option.map_some, Option.some.injEq] at hrun
  have hnot : ¬ (challenge lostReply).any (granted lostReply) := by
    cases challenge lostReply with
    | none => exact Bool.false_ne_true
    | some msg => exact Bool.false_ne_true
  rw [(hsame hnot).2] at hrun
  cases hrun

end PipecatVoice.TurnAllocate
