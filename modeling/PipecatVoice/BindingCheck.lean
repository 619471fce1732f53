import PipecatVoice.StunAuth

/-!
# A connectivity check between two agents

Each agent signs its binding requests with the password of the other, which it
has from the session description, and the other answers what it can verify with a
response that it signs with the same password. The names and passwords of two
agents that have exchanged their descriptions belong together.

* `Ice` — an agent and the names it goes by;
* `agentCreateBindingRequest`, `agentCreateBindingResponse` — the functions of
  `agent.c`;
* `bindingCheck_succeeds` — the check between two agents.
-/

namespace PipecatVoice.BindingCheck

open CArray TurnCredentials

/-! ## The messages -/

/-- An agent, its name and that of its peer. -/
structure Ice where
  /-- the agent -/
  agent : TurnCredentials.Agent
  /-- `local_ufrag` -/
  localUfrag : CString
  /-- `remote_ufrag` -/
  remoteUfrag : CString
  /-- `mode` is AGENT_MODE_CONTROLLING -/
  controlling : Bool
  /-- names are strings -/
  ufrags_text : 0 ∉ localUfrag ∧ 0 ∉ remoteUfrag

/-- `snprintf` of a text into an array: what fits, and a zero behind it. -/
def snprintf {n : ℕ} (a : CArray (n + 1)) (text : List UInt8) : CArray (n + 1) where
  bytes := text.take n ++ 0 :: a.bytes.drop (min text.length n + 1)
  length_eq := by
    rw [List.length_append, List.length_cons, List.length_take, List.length_drop, a.length_eq]
    omega

/-- `strlen` -/
def strlen {n : ℕ} (a : CArray n) : ℕ := (a.bytes.takeWhile (· ≠ 0)).length

/-- The user name of a message to an agent, with its name first. -/
def usernameText (receiver sender : CString) : List UInt8 := receiver ++ [58] ++ sender

/-- A number of 32 bits as it lies in memory. -/
def littleEndian (v : UInt32) : List UInt8 := (beBytes 4 v.toNat).reverse

/-- `STUN_CLASS_REQUEST | STUN_METHOD_BINDING` -/
def bindingRequestType : ℕ := 0x0000 ||| 0x0001

/-- `STUN_CLASS_RESPONSE | STUN_METHOD_BINDING` -/
def bindingResponseType : ℕ := 0x0100 ||| 0x0001

/-- What the request says of the role: USE-CANDIDATE and ICE-CONTROLLING, or
ICE-CONTROLLED, with a tie-breaker of zero. -/
def writeRole (m : OutMessage) (controlling : Bool) : Option OutMessage :=
  if controlling then do
    let m ← stunMsgWriteAttr? m 0x0025 0 []
    stunMsgWriteAttr? m 0x802a 8 (List.replicate 8 0)
  else stunMsgWriteAttr? m 0x8029 8 (List.replicate 8 0)

/-- `agent_create_binding_request`, for a pair of this priority -/
def agentCreateBindingRequest (hashes : Hashes) (i : Ice) (priority : UInt32)
    (tid : Vector UInt8 12) : Option OutMessage := do
  let m ← stunMsgCreate .zero bindingRequestType tid
  let username := snprintf (.zero 584) (usernameText i.remoteUfrag i.localUfrag)
  let m ← stunMsgWriteAttr? m 0x0006 (strlen username) username.bytes
  let m ← stunMsgWriteAttr? m 0x0024 4 (littleEndian priority)
  let m ← writeRole m i.controlling
  stunMsgFinish? hashes m .shortTerm i.agent.remoteUpwd

/-- What the variables of `agent_create_binding_response` and its caller hold before. -/
structure Scratch where
  /-- `msg` -/
  msg : StunMessage
  /-- `username` -/
  username : CArray 584
  /-- `mapped_address` -/
  mappedAddress : CArray 32
  /-- the transaction id that `stun_msg_create` draws -/
  drawn : Vector UInt8 12

/-- `agent_create_binding_response` -/
def agentCreateBindingResponse (hashes : Hashes) (i : Ice) (scratch : Scratch) (addr : Address) :
    Option OutMessage := do
  let m ← stunMsgCreate scratch.msg bindingResponseType scratch.drawn
  let buf ← m.msg.buf.write? 8 i.agent.transactionId
  let m : OutMessage := ⟨{ m.msg with buf := buf }, m.size⟩
  let username := snprintf scratch.username (usernameText i.localUfrag i.remoteUfrag)
  let (mapped, size) := stunSetMappedAddress scratch.mappedAddress.bytes
    (magicCookie ++ i.agent.transactionId) addr
  let m ← stunMsgWriteAttr? m 0x0020 size mapped
  let m ← stunMsgWriteAttr? m 0x0006 (strlen username) username.bytes
  stunMsgFinish? hashes m .shortTerm i.agent.localUpwd

/-- What is sent of a message. -/
def OutMessage.sent (m : OutMessage) : List UInt8 := m.msg.buf.bytes.take m.size

/-! ## Attributes that can be read -/

/-- There is room for the value, and an address is whole. -/
def Readable (a : RawAttr) : Prop :=
  match valueKind a.type with
  | .address _ => (if a.value[1]? = some 2 then 20 else 8) ≤ a.value.length
  | .copied room => a.value.length ≤ room
  | .errorCode | .skipped => True

/-- It is found where it lies. -/
theorem Readable.fits {bytes pre post : List UInt8} {a : RawAttr} (h : Readable a)
    (hbytes : bytes = pre ++ a.bytes ++ post) :
    valueFits bytes a.type (pre.length + 4) a.value.length := by
  have hlength : bytes.length = pre.length + (4 + padded a.value.length) + post.length := by
    rw [hbytes, List.length_append, List.length_append, a.length_bytes]
  have hle := le_padded a.value.length
  simp only [valueFits, Readable] at h ⊢
  cases hkind : valueKind a.type with
  | skipped => rfl
  | errorCode =>
    rw [hkind] at h
    simp only [Bool.or_eq_true, decide_eq_true_eq]
    omega
  | copied room =>
    rw [hkind] at h
    simp only [Bool.and_eq_true, decide_eq_true_eq]
    exact ⟨by omega, h⟩
  | address xored =>
    rw [hkind] at h
    have htwo : 1 < a.value.length := by
      simp only at h
      split at h <;> omega
    have hfamily : bytes[pre.length + 4 + 1]? = a.value[1]? := by
      have hsplit : bytes = (pre ++ beBytes 2 a.type ++ beBytes 2 a.value.length) ++
          (a.value ++ (a.pad ++ post)) := by
        rw [hbytes, RawAttr.bytes]
        simp only [List.append_assoc]
      have hheader : (pre ++ beBytes 2 a.type ++ beBytes 2 a.value.length).length =
          pre.length + 4 := by
        simp only [List.length_append, length_beBytes, Nat.add_assoc]
      rw [hsplit, ← hheader, List.getElem?_append_right (Nat.le_add_right _ _),
        Nat.add_sub_cancel_left, List.getElem?_append_left htwo]
    simp only [hfamily, decide_eq_true_eq] at h ⊢
    omega

/-- Attributes that can be read are read. -/
theorem readAttrs_isSome (as : List RawAttr) (h : ∀ a ∈ as, Readable a) :
    ∀ {msg : StunMessage} {pre post : List UInt8},
      msg.buf.bytes = pre ++ attrsBytes as ++ post → (readAttrs msg pre.length as).isSome := by
  induction as with
  | nil => exact fun _ => rfl
  | cons a as ih =>
    intro msg pre post hbuf
    have hfirst : msg.buf.bytes = pre ++ a.bytes ++ (attrsBytes as ++ post) := by
      rw [hbuf, attrsBytes_cons]
      simp only [List.append_assoc]
    have hvalue := (parseValue_isSome msg a.type (pre.length + 4) a.value.length).mpr
      ((h a List.mem_cons_self).fits hfirst)
    obtain ⟨msg', hmsg⟩ := Option.isSome_iff_exists.mp hvalue
    have hnext : msg'.buf.bytes = (pre ++ a.bytes) ++ attrsBytes as ++ post := by
      rw [(parseValue_eq hmsg).1, hfirst]
      simp only [List.append_assoc]
    have hrest := ih (fun b hb => h b (List.mem_cons_of_mem a hb)) hnext
    rw [List.length_append] at hrest
    rw [readAttrs, hmsg]
    exact hrest

/-- Attributes leave the type of the message alone. -/
theorem readAttrs_type (as : List RawAttr) : ∀ {msg msg' : StunMessage} {pos : ℕ},
    readAttrs msg pos as = some msg' →
      msg'.stunclass = msg.stunclass ∧ msg'.stunmethod = msg.stunmethod := by
  induction as with
  | nil =>
    intro msg msg' pos h
    rw [← Option.some.inj h]
    exact ⟨rfl, rfl⟩
  | cons a as ih =>
    intro msg msg' pos h
    obtain ⟨m, hvalue, hrest⟩ := Option.bind_eq_some_iff.mp h
    obtain ⟨-, hclass, hmethod, -⟩ := parseValue_eq hvalue
    obtain ⟨hclass', hmethod'⟩ := ih hrest
    exact ⟨hclass'.trans hclass, hmethod'.trans hmethod⟩

/-! ## Receiving a signed message -/

section Signed

variable (hashes : Hashes) (password : CString) (type : ℕ) (tid : Vector UInt8 12)
  (as : List RawAttr)

/-- A signed message. -/
def signedMessage : List UInt8 :=
  packet type tid (signed hashes password type tid (attrsBytes as))

theorem length_signedMessage :
    (signedMessage hashes password type tid as).length = 20 + ((attrsBytes as).length + 32) := by
  rw [signedMessage, length_packet, length_signed]

/-- It looks like a STUN message. -/
theorem stunProbe_signedMessage : stunProbe (signedMessage hashes password type tid as) := by
  have hlength := length_signedMessage hashes password type tid as
  have hcookie : ((signedMessage hashes password type tid as).drop 4).take 4 = magicCookie := by
    rw [signedMessage, packet, List.append_assoc magicCookie, List.drop_left' (by
      rw [List.length_append, length_beBytes, length_beBytes])]
    exact List.take_left' rfl
  rw [stunProbe, hcookie, hlength, Bool.and_eq_true, decide_eq_true_eq, stunHeaderSize]
  exact ⟨by omega, rfl⟩

variable {type} {as}

/-- It is read, whatever was in the reader's message before. -/
theorem readMessage_signedMessage (stale : StunMessage) (htype : type < 65536)
    (hfits : 20 + (attrsBytes as).length + 32 ≤ stunAttrBufSize) (hread : ∀ a ∈ as, Readable a) :
    ∃ msg rest, readMessage stale (signedMessage hashes password type tid as) = some msg ∧
      msg.buf.bytes = signedMessage hashes password type tid as ++ rest ∧
      msg.stunclass = stunClassOf type ∧ msg.stunmethod = stunMethodOf type := by
  obtain ⟨msg, rest, hbuf, hclass, hmethod, hmsg⟩ :=
    readMessage_signed hashes password stale htype tid as hfits
  have hheader : (beBytes 2 type ++
      beBytes 2 (signed hashes password type tid (attrsBytes as)).length ++
        (magicCookie ++ tid.toList)).length = stunHeaderSize := by
    simp only [List.length_append, length_beBytes, Vector.length_toList, length_magicCookie]
    rfl
  have hsplit : msg.buf.bytes = (beBytes 2 type ++
      beBytes 2 (signed hashes password type tid (attrsBytes as)).length ++
        (magicCookie ++ tid.toList)) ++ attrsBytes as ++
          (integrityBytes (integrity hashes password type tid (attrsBytes as)) ++
            fingerprintBytes (fingerprintOf type tid (attrsBytes as ++
              integrityBytes (integrity hashes password type tid (attrsBytes as)))) ++ rest) := by
    rw [hbuf, packet, signed]
    simp only [List.append_assoc]
  have hsome := readAttrs_isSome as hread hsplit
  rw [hheader] at hsome
  obtain ⟨m, hm⟩ := Option.isSome_iff_exists.mp hsome
  obtain ⟨hclass', hmethod'⟩ := readAttrs_type as hm
  rw [hm] at hmsg
  refine ⟨_, rest, hmsg, ?_, hclass'.trans hclass, hmethod'.trans hmethod⟩
  show m.buf.bytes = _
  rw [readAttrs_buf as hm]
  exact hbuf

/-- **The receiver has the message before it**, unless it is an indication. -/
theorem demux_signedMessage {r : Recv} (htype : type < 65536)
    (hclass : stunClassOf type ≠ .indication)
    (hfits : 20 + (attrsBytes as).length + 32 ≤ stunAttrBufSize) (hread : ∀ a ∈ as, Readable a)
    (hpayload : r.payload = signedMessage hashes password type tid as) :
    ∃ msg rest, demux r = some (.stun msg (signedMessage hashes password type tid as) r.src) ∧
      msg.buf.bytes = signedMessage hashes password type tid as ++ rest ∧
      msg.stunclass = stunClassOf type ∧ msg.stunmethod = stunMethodOf type := by
  have hprobe := stunProbe_signedMessage hashes password type tid as
  obtain ⟨first, rest, hfirst, -, hclassFirst, -⟩ :=
    readMessage_signedMessage hashes password tid r.stale htype hfits hread
  obtain ⟨msg, rest', hmsg, hbuf, hclassMsg, hmethod⟩ :=
    readMessage_signedMessage hashes password tid first htype hfits hread
  refine ⟨msg, rest', ?_, hbuf, hclassMsg, hmethod⟩
  have hplain : ¬ (first.stunclass = .indication ∧ first.stunmethod = stunMethodData) :=
    fun h => hclass (hclassFirst.symm.trans h.1)
  rw [demux, hpayload, if_pos hprobe, hfirst]
  show (if _ then _ else _) = _
  rw [if_neg hplain, dispatch, if_pos hprobe, hmsg]
  rfl

variable {password tid}

theorem isValid_signedMessage (stale : StunMessage) (htype : type < 65536)
    (hfits : 20 + (attrsBytes as).length + 32 ≤ stunAttrBufSize) (hread : ∀ a ∈ as, Readable a) :
    stunMsgIsValid hashes stale (signedMessage hashes password type tid as) password =
      some true := by
  obtain ⟨msg, rest, hmsg, -⟩ :=
    readMessage_signedMessage hashes password tid stale htype hfits hread
  exact isValid_signed hashes password stale htype tid as hfits (by
    rw [← signedMessage, hmsg]
    rfl)

/-- A binding request that is signed with the agent's own password is taken. -/
theorem agentRecv_request {a : TurnCredentials.Agent} {r : Recv} (stale : StunMessage)
    (hfits : 20 + (attrsBytes as).length + 32 ≤ stunAttrBufSize) (hread : ∀ b ∈ as, Readable b)
    (hpayload : r.payload = signedMessage hashes a.localUpwd bindingRequestType tid as) :
    agentRecv (stunMsgIsValid hashes stale) a r =
      some ({ a with transactionId := tid.toList, bindingRequestTime := r.now }, 0) := by
  have htype : bindingRequestType < 65536 := by decide
  obtain ⟨msg, rest, hdemux, hbuf, hclass, hmethod⟩ := demux_signedMessage hashes a.localUpwd tid
    htype (by decide) hfits hread hpayload
  have hclass : msg.stunclass = .request := hclass
  have hmethod : msg.stunmethod = stunMethodBinding := hmethod
  have hvalid : stunMsgIsValid hashes stale
      (signedMessage hashes a.localUpwd bindingRequestType tid as) a.localUpwd = some true :=
    isValid_signedMessage hashes stale htype hfits hread
  have htid : (msg.buf.bytes.drop 8).take 12 = tid.toList := by
    have hsplit : msg.buf.bytes = (beBytes 2 bindingRequestType ++
        beBytes 2 (signed hashes a.localUpwd bindingRequestType tid (attrsBytes as)).length ++
          magicCookie) ++ (tid.toList ++
            (signed hashes a.localUpwd bindingRequestType tid (attrsBytes as) ++ rest)) := by
      rw [hbuf, signedMessage, packet]
      simp only [List.append_assoc]
    rw [hsplit, List.drop_left' (by
      simp only [List.length_append, length_beBytes, length_magicCookie]),
      List.take_left' Vector.length_toList]
  simp only [agentRecv, hdemux, handle, hclass, processRequest, hmethod, hvalid, htid,
    Option.bind_eq_bind, Option.bind_some, if_true, Option.pure_def]

/-- A binding response that is signed with the peer's password is taken. -/
theorem agentRecv_response {a : TurnCredentials.Agent} {r : Recv} (stale : StunMessage)
    (hfits : 20 + (attrsBytes as).length + 32 ≤ stunAttrBufSize) (hread : ∀ b ∈ as, Readable b)
    (hpayload : r.payload = signedMessage hashes a.remoteUpwd bindingResponseType tid as) :
    agentRecv (stunMsgIsValid hashes stale) a r = some ({ a with succeeded := true }, 0) := by
  have htype : bindingResponseType < 65536 := by decide
  obtain ⟨msg, rest, hdemux, -, hclass, hmethod⟩ := demux_signedMessage hashes a.remoteUpwd tid
    htype (by decide) hfits hread hpayload
  have hclass : msg.stunclass = .response := hclass
  have hmethod : msg.stunmethod = stunMethodBinding := hmethod
  have hvalid : stunMsgIsValid hashes stale
      (signedMessage hashes a.remoteUpwd bindingResponseType tid as) a.remoteUpwd = some true :=
    isValid_signedMessage hashes stale htype hfits hread
  simp only [agentRecv, hdemux, handle, hclass, processResponse, hmethod, hvalid,
    Option.bind_eq_bind, Option.bind_some, if_true, Option.pure_def]

end Signed

/-! ## What the writers make -/

/-- A text that fits is in the array whole, and ends there. -/
theorem snprintf_bytes {n : ℕ} (a : CArray (n + 1)) {text : List UInt8} (htext : 0 ∉ text)
    (hfits : text.length ≤ n) :
    strlen (snprintf a text) = text.length ∧
      ∃ rest, (snprintf a text).bytes = text ++ rest ∧ text.length + rest.length = n + 1 := by
  have hbytes : (snprintf a text).bytes = text ++ 0 :: a.bytes.drop (text.length + 1) := by
    show text.take n ++ 0 :: a.bytes.drop (min text.length n + 1) = _
    rw [Nat.min_eq_left hfits, List.take_of_length_le hfits]
  refine ⟨?_, _, hbytes, ?_⟩
  · have hwhole : ∀ b ∈ text, decide (b ≠ 0) = true := fun b hb =>
      decide_eq_true fun hzero => htext (hzero ▸ hb)
    rw [strlen, hbytes, List.takeWhile_append_of_pos hwhole]
    simp
  · have hlength := congrArg List.length hbytes
    rw [(snprintf a text).length_eq, List.length_append] at hlength
    exact hlength.symm

/-- The user name is kept in the message, with the bytes behind it. -/
theorem mirrorAttr_username (msg : StunMessage) (buf : CArray stunAttrBufSize) {n : ℕ}
    {value : List UInt8} (hvalue : n ≤ value.length) (hroom : n ≤ 128) :
    ∃ msg', mirrorAttr { msg with buf := buf } 0x0006 n value = some msg' ∧ msg'.buf = buf := by
  have htaken : (value.take n).length ≤ 128 := (List.length_take_le n value).trans hroom
  obtain ⟨username, hcopy, -⟩ := exists_memcpy? msg.username htaken
  refine ⟨{ msg with buf := buf, username := username }, ?_, rfl⟩
  simp only [mirrorAttr, bytesAt?, if_pos hvalue, hcopy, Option.bind_eq_bind, Option.bind_some,
    Option.pure_def]

section Writers

variable {m : OutMessage} {type : ℕ} {tid : Vector UInt8 12} {attrs : List UInt8}

/-- An attribute of fixed length that the message does not keep. -/
theorem writeAttr_plain (h : Composed m type tid attrs) {t : ℕ} (ht : t < 65536)
    (value rest : List UInt8)
    (hplain : ∀ msg length value, mirrorAttr msg t length value = some msg)
    (hskipped : ∀ a : RawAttr, a.type = t → a.value = value → Readable a)
    (hfits : 20 + attrs.length + (4 + padded value.length) ≤ stunAttrBufSize) :
    ∃ (m' : OutMessage) (a : RawAttr),
      stunMsgWriteAttr? m t value.length (value ++ rest) = some m' ∧ a.type = t ∧
        a.value = value ∧ Readable a ∧ Composed m' type tid (attrs ++ a.bytes) := by
  obtain ⟨m', a, hwrite, htype, hvalue, hwritten⟩ := h.writeAttr ht value rest
    (fun buf => ⟨_, hplain _ _ _, rfl⟩) hfits
  exact ⟨m', a, hwrite, htype, hvalue, hskipped a htype hvalue, hwritten⟩

/-- USERNAME -/
theorem writeAttr_username (h : Composed m type tid attrs) (text rest : List UInt8)
    (hroom : padded text.length ≤ 128) (hrest : 128 ≤ text.length + rest.length)
    (hfits : 20 + attrs.length + (4 + padded text.length) ≤ stunAttrBufSize) :
    ∃ (m' : OutMessage) (a : RawAttr),
      stunMsgWriteAttr? m 0x0006 text.length (text ++ rest) = some m' ∧ a.type = 0x0006 ∧
        a.value = text ∧ Readable a ∧ Composed m' type tid (attrs ++ a.bytes) := by
  have hle := le_padded text.length
  obtain ⟨m', a, hwrite, htype, hvalue, hwritten⟩ := h.writeAttr (t := 0x0006) (by decide) text rest
    (fun buf => mirrorAttr_username m.msg buf (by rw [List.length_append]; omega) hroom) hfits
  refine ⟨m', a, hwrite, htype, hvalue, ?_, hwritten⟩
  rw [Readable, htype, hvalue]
  exact hle.trans hroom

end Writers

/-- What is sent of a message that is written. -/
theorem sent_of_written {m : OutMessage} {type : ℕ} {tid : Vector UInt8 12} {attrs : List UInt8}
    (h : Composed m type tid attrs) : OutMessage.sent m = packet type tid attrs := by
  obtain ⟨rest, hbytes⟩ := h.bytes
  rw [OutMessage.sent, hbytes]
  exact List.take_left' ((length_packet _ _ _).trans h.size.symm)

/-- An attribute that is not read can be read. -/
theorem readable_of_skipped {a : RawAttr} (h : valueKind a.type = .skipped) : Readable a := by
  rw [Readable, h]
  trivial

/-- The attributes of the role. -/
theorem exists_writeRole {m : OutMessage} {type : ℕ} {tid : Vector UInt8 12} {attrs : List UInt8}
    (h : Composed m type tid attrs) (controlling : Bool)
    (hfits : 20 + attrs.length + 16 ≤ stunAttrBufSize) :
    ∃ m' as, writeRole m controlling = some m' ∧ (∀ a ∈ as, Readable a) ∧
      (attrsBytes as).length ≤ 16 ∧ Composed m' type tid (attrs ++ attrsBytes as) := by
  have height : (List.replicate 8 (0 : UInt8)).length = 8 := List.length_replicate
  have hskipped : ∀ t, valueKind t = .skipped →
      ∀ (value : List UInt8) (a : RawAttr), a.type = t → a.value = value → Readable a :=
    fun t hkind _ a ht _ => readable_of_skipped (ht ▸ hkind)
  cases controlling with
  | false =>
    obtain ⟨m₁, a₁, hw₁, -, hv₁, hr₁, h₁⟩ := writeAttr_plain h (t := 0x8029) (by decide)
      (List.replicate 8 0) [] (fun _ _ _ => rfl) (hskipped 0x8029 rfl _) (by
        rw [height]
        show _ + (4 + 8) ≤ _
        omega)
    have hbytes : attrsBytes [a₁] = a₁.bytes := List.flatMap_singleton ..
    refine ⟨m₁, [a₁], hw₁, fun a ha => List.mem_singleton.mp ha ▸ hr₁, ?_, hbytes ▸ h₁⟩
    rw [hbytes, a₁.length_bytes, hv₁]
    decide
  | true =>
    obtain ⟨m₁, a₁, hw₁, -, hv₁, hr₁, h₁⟩ := writeAttr_plain h (t := 0x0025) (by decide)
      [] [] (fun _ _ _ => rfl) (hskipped 0x0025 rfl _) (by
        show _ + (4 + 0) ≤ _
        omega)
    have hl₁ : a₁.bytes.length = 4 := by
      rw [a₁.length_bytes, hv₁]
      rfl
    obtain ⟨m₂, a₂, hw₂, -, hv₂, hr₂, h₂⟩ := writeAttr_plain h₁ (t := 0x802a) (by decide)
      (List.replicate 8 0) [] (fun _ _ _ => rfl) (hskipped 0x802a rfl _) (by
        rw [List.length_append, height]
        show _ + (4 + 8) ≤ _
        omega)
    have hbytes : attrsBytes [a₁, a₂] = a₁.bytes ++ a₂.bytes := by
      rw [attrsBytes_cons, attrsBytes, List.flatMap_singleton]
    refine ⟨m₂, [a₁, a₂], (congrArg (Option.bind · _) hw₁).trans hw₂, ?_, ?_, ?_⟩
    · intro a ha
      obtain rfl | ha := List.mem_cons.mp ha
      · exact hr₁
      · exact List.mem_singleton.mp ha ▸ hr₂
    · rw [hbytes, List.length_append, hl₁, a₂.length_bytes, hv₂]
      decide
    · rw [hbytes, ← List.append_assoc]
      exact h₂

/-- The names of two agents fit into USERNAME. -/
def NamesFit (i : Ice) : Prop := padded (usernameText i.localUfrag i.remoteUfrag).length ≤ 128

theorem length_usernameText (a b : CString) :
    (usernameText a b).length = a.length + 1 + b.length := by
  rw [usernameText, List.length_append, List.length_append, List.length_singleton]

theorem usernameText_text {a b : CString} (ha : 0 ∉ a) (hb : 0 ∉ b) : 0 ∉ usernameText a b := by
  simp [usernameText, ha, hb]

/-- **The request** is a signed message whose attributes can be read. -/
theorem exists_request (hashes : Hashes) (i : Ice) (hfit : NamesFit i) (priority : UInt32)
    (tid : Vector UInt8 12) :
    ∃ m as, agentCreateBindingRequest hashes i priority tid = some m ∧
      (∀ a ∈ as, Readable a) ∧ 20 + (attrsBytes as).length + 32 ≤ 1300 ∧
      OutMessage.sent m =
        signedMessage hashes i.agent.remoteUpwd bindingRequestType tid as := by
  have hsize : stunAttrBufSize = 1600 := rfl
  have hroom : padded (usernameText i.remoteUfrag i.localUfrag).length ≤ 128 := by
    rw [NamesFit, length_usernameText] at hfit
    rw [length_usernameText]
    rwa [show i.remoteUfrag.length + 1 + i.localUfrag.length =
      i.localUfrag.length + 1 + i.remoteUfrag.length by omega]
  have hle := le_padded (usernameText i.remoteUfrag i.localUfrag).length
  obtain ⟨hstrlen, rest, hname, hrest⟩ := snprintf_bytes (n := 583) (.zero 584)
    (usernameText_text i.ufrags_text.2 i.ufrags_text.1) (by omega)
  obtain ⟨m₀, hcreate, h₀, -⟩ := exists_stunMsgCreate_written .zero bindingRequestType tid
  obtain ⟨m₁, a₁, hw₁, -, hv₁, hr₁, h₁⟩ := writeAttr_username h₀ _ rest hroom (by omega) (by
    rw [List.length_nil]
    omega)
  rw [← hname, ← hstrlen] at hw₁
  have hl₁ : a₁.bytes.length ≤ 132 := by
    rw [a₁.length_bytes, hv₁]
    omega
  have hpriority : (littleEndian priority).length = 4 := by
    rw [littleEndian, List.length_reverse, length_beBytes]
  obtain ⟨m₂, a₂, hw₂, -, hv₂, hr₂, h₂⟩ := writeAttr_plain h₁ (t := 0x0024) (by decide)
    (littleEndian priority) [] (fun _ _ _ => rfl)
    (fun a ht _ => readable_of_skipped (by rw [ht]; rfl)) (by
      rw [List.nil_append, hpriority]
      show _ + (4 + 4) ≤ _
      omega)
  rw [List.append_nil, hpriority] at hw₂
  have hl₂ : a₂.bytes.length = 8 := by
    rw [a₂.length_bytes, hv₂, hpriority]
    rfl
  obtain ⟨m₃, last, hw₃, hreadable, hlast, h₃⟩ := exists_writeRole h₂ i.controlling (by
    rw [List.nil_append, List.length_append]
    omega)
  have hattrs : [] ++ a₁.bytes ++ a₂.bytes ++ attrsBytes last =
      attrsBytes (a₁ :: a₂ :: last) := by
    rw [attrsBytes_cons, attrsBytes_cons, List.nil_append, List.append_assoc]
  have htotal : (attrsBytes (a₁ :: a₂ :: last)).length ≤ 156 := by
    rw [attrsBytes_cons, attrsBytes_cons, List.length_append, List.length_append]
    omega
  rw [hattrs] at h₃
  have hkey : signingKey hashes m₃.msg .shortTerm i.agent.remoteUpwd =
      some i.agent.remoteUpwd := rfl
  obtain ⟨m₄, hfinish, h₄⟩ := h₃.finish hashes hkey (by omega)
  refine ⟨m₄, a₁ :: a₂ :: last, ?_, ?_, by omega, sent_of_written h₄⟩
  · simp only [agentCreateBindingRequest, hcreate, hw₁, hw₂, hw₃, hfinish, Option.bind_eq_bind,
      Option.bind_some]
  · intro a ha
    obtain rfl | ha := List.mem_cons.mp ha
    · exact hr₁
    · obtain rfl | ha := List.mem_cons.mp ha
      · exact hr₂
      · exact hreadable a ha

/-! ## The response -/

section Mapped

variable {mask : List UInt8} (h : mask.length = 16) {bytes : List UInt8} (hbytes : bytes ≠ [])
include h hbytes

/-- An address is written whole, over whatever the first byte was. -/
theorem stunSetMappedAddress_over (addr : Address) :
    ∃ value rest, stunSetMappedAddress bytes mask addr = (value ++ rest, value.length) ∧
      value.length = (if addr.ip.family = 2 then 20 else 8) ∧
        value[1]? = some addr.ip.family := by
  obtain ⟨first, more, rfl⟩ := List.exists_cons_of_ne_nil hbytes
  obtain ⟨ip, port⟩ := addr
  have hlength : ([first, ip.family] ++ unmask mask (beBytes 2 port.toNat) ++
      unmask mask ip.bytes).length = 4 + ip.bytes.length := by
    rw [List.length_append, List.length_append, length_unmask (port_le_mask h _),
      length_unmask (ip_le_mask h _), length_beBytes]
    rfl
  cases ip with
  | v4 a =>
    refine ⟨_, (first :: more).drop 8, congrArg (Prod.mk _) hlength.symm, hlength, rfl⟩
  | v6 a =>
    have hv6 : 4 + (IpAddr.v6 a).bytes.length = 20 := by
      rw [length_v6_bytes]
    exact ⟨_, (first :: more).drop 20, congrArg (Prod.mk _) (hv6.symm.trans hlength.symm),
      hlength.trans hv6, rfl⟩

end Mapped

/-- The transaction id of a message is replaced. -/
theorem setTransactionId {m : OutMessage} {type : ℕ} {tid : Vector UInt8 12}
    {attrs : List UInt8} (h : Composed m type tid attrs) (tid' : Vector UInt8 12) :
    ∃ buf, m.msg.buf.write? 8 tid'.toList = some buf ∧
      Composed ⟨{ m.msg with buf := buf }, m.size⟩ type tid' attrs := by
  obtain ⟨rest, hbytes⟩ := h.bytes
  have hsplit : m.msg.buf.bytes = (beBytes 2 type ++ beBytes 2 attrs.length ++ magicCookie) ++
      tid.toList ++ (attrs ++ rest) := by
    rw [hbytes, packet]
    simp only [List.append_assoc]
  have hoff : 8 = (beBytes 2 type ++ beBytes 2 attrs.length ++ magicCookie).length := by
    simp only [List.length_append, length_beBytes, length_magicCookie]
  obtain ⟨buf, hwrite, hbuf⟩ := write?_append tid'.toList hsplit hoff
    (Vector.length_toList.trans Vector.length_toList.symm)
  refine ⟨buf, hwrite, ⟨⟨rest, ?_⟩, h.size⟩⟩
  show buf.bytes = _
  rw [hbuf, packet]
  simp only [List.append_assoc]

/-- **The response** is a signed message with the id of the request, and its
attributes can be read. -/
theorem exists_response (hashes : Hashes) (i : Ice) (hfit : NamesFit i) (scratch : Scratch)
    (addr : Address) {tid : Vector UInt8 12} (htid : i.agent.transactionId = tid.toList) :
    ∃ m as, agentCreateBindingResponse hashes i scratch addr = some m ∧
      (∀ a ∈ as, Readable a) ∧ 20 + (attrsBytes as).length + 32 ≤ 1300 ∧
      OutMessage.sent m =
        signedMessage hashes i.agent.localUpwd bindingResponseType tid as := by
  have hsize : stunAttrBufSize = 1600 := rfl
  have hroom : padded (usernameText i.localUfrag i.remoteUfrag).length ≤ 128 := hfit
  have hle := le_padded (usernameText i.localUfrag i.remoteUfrag).length
  have hmask : (magicCookie ++ tid.toList).length = 16 := by
    rw [List.length_append, Vector.length_toList, length_magicCookie]
  have hscratch : scratch.mappedAddress.bytes ≠ [] := fun hnil =>
    absurd scratch.mappedAddress.length_eq (by rw [hnil]; decide)
  obtain ⟨m₀, hcreate, h₀, -⟩ :=
    exists_stunMsgCreate_written scratch.msg bindingResponseType scratch.drawn
  obtain ⟨buf, hwrite, h₁⟩ := setTransactionId h₀ tid
  obtain ⟨value, rest, hset, hlength, hfamily⟩ := stunSetMappedAddress_over hmask hscratch addr
  have hvalue : value.length ≤ 20 := by
    rw [hlength]
    split <;> decide
  have hwhole : ∀ a : RawAttr, a.type = 0x0020 → a.value = value → Readable a := by
    intro a ht hv
    have hkind : valueKind a.type = .address true := by rw [ht]; rfl
    rw [Readable, hkind, hv, hfamily]
    simp only [Option.some.injEq]
    rw [hlength]
  have hpad : padded value.length ≤ 20 := by
    rw [hlength]
    split <;> decide
  obtain ⟨m₂, a₂, hw₂, -, hv₂, hr₂, h₂⟩ := writeAttr_plain h₁ (t := 0x0020) (by decide) value rest
    (fun _ _ _ => rfl) hwhole (by
      rw [List.length_nil]
      omega)
  have hl₂ : a₂.bytes.length ≤ 24 := by
    rw [a₂.length_bytes, hv₂]
    omega
  obtain ⟨hstrlen, behind, hname, hbehind⟩ := snprintf_bytes (n := 583) scratch.username
    (usernameText_text i.ufrags_text.1 i.ufrags_text.2) (by omega)
  obtain ⟨m₃, a₃, hw₃, -, hv₃, hr₃, h₃⟩ := writeAttr_username h₂ _ behind hroom (by omega) (by
    rw [List.nil_append]
    omega)
  rw [← hname, ← hstrlen] at hw₃
  have hl₃ : a₃.bytes.length ≤ 132 := by
    rw [a₃.length_bytes, hv₃]
    omega
  have hattrs : [] ++ a₂.bytes ++ a₃.bytes = attrsBytes [a₂, a₃] := by
    rw [attrsBytes_cons, attrsBytes, List.flatMap_singleton, List.nil_append]
  have htotal : (attrsBytes [a₂, a₃]).length ≤ 156 := by
    rw [← hattrs, List.nil_append, List.length_append]
    omega
  rw [hattrs] at h₃
  have hkey : signingKey hashes m₃.msg .shortTerm i.agent.localUpwd =
      some i.agent.localUpwd := rfl
  obtain ⟨m₄, hfinish, h₄⟩ := h₃.finish hashes hkey (by omega)
  refine ⟨m₄, [a₂, a₃], ?_, ?_, by omega, sent_of_written h₄⟩
  · simp only [agentCreateBindingResponse, hcreate, htid, hwrite, hset, hw₂, hw₃, hfinish,
      Option.bind_eq_bind, Option.bind_some]
  · intro a ha
    obtain rfl | ha := List.mem_cons.mp ha
    · exact hr₂
    · exact List.mem_singleton.mp ha ▸ hr₃

/-! ## The check -/

/-- Each of two agents has the description of the other. -/
structure Paired (a b : Ice) : Prop where
  /-- the name of one -/
  localUfrag : a.localUfrag = b.remoteUfrag
  /-- the name of the other -/
  remoteUfrag : a.remoteUfrag = b.localUfrag
  /-- its password -/
  password : a.agent.remoteUpwd = b.agent.localUpwd

theorem Paired.namesFit {a b : Ice} (h : Paired a b) (hfit : NamesFit a) : NamesFit b := by
  rw [NamesFit, length_usernameText, h.localUfrag, h.remoteUfrag] at hfit
  rw [NamesFit, length_usernameText]
  rwa [show b.localUfrag.length + 1 + b.remoteUfrag.length =
    b.remoteUfrag.length + 1 + b.localUfrag.length by omega]

/-- **A connectivity check succeeds**: what an agent sends, its peer takes for a
request of its own; the peer's answer to the address that the request came from is
taken for an answer, whatever has happened to the agent since. -/
theorem bindingCheck_succeeds (hashes : Hashes) {a b : Ice} (h : Paired a b) (hfit : NamesFit a)
    (priority : UInt32) (tid : Vector UInt8 12) (scratch : Scratch) (stale stale' : StunMessage) :
    ∃ request, agentCreateBindingRequest hashes a priority tid = some request ∧
      ∀ r : Recv, r.payload = OutMessage.sent request →
        ∃ taken, agentRecv (stunMsgIsValid hashes stale) b.agent r = some (taken, 0) ∧
          taken.bindingRequestTime = r.now ∧
          ∃ response, agentCreateBindingResponse hashes { b with agent := taken } scratch r.src =
              some response ∧
            ∀ (agent : TurnCredentials.Agent) (r' : Recv),
              agent.remoteUpwd = a.agent.remoteUpwd → r'.payload = OutMessage.sent response →
                agentRecv (stunMsgIsValid hashes stale') agent r' =
                  some ({ agent with succeeded := true }, 0) := by
  have hsize : stunAttrBufSize = 1600 := rfl
  obtain ⟨request, as, hrequest, hread, hroom, hsent⟩ :=
    exists_request hashes a hfit priority tid
  refine ⟨request, hrequest, fun r hr => ?_⟩
  rw [hsent, h.password] at hr
  have hrecv := agentRecv_request hashes stale (by omega) hread hr
  refine ⟨_, hrecv, rfl, ?_⟩
  obtain ⟨response, bs, hresponse, hread', hroom', hsent'⟩ := exists_response hashes
    { b with agent := { b.agent with transactionId := tid.toList, bindingRequestTime := r.now } }
    (h.namesFit hfit) scratch r.src (show _ = tid.toList from rfl)
  refine ⟨response, hresponse, fun agent r' hpassword hr' => ?_⟩
  rw [hsent'] at hr'
  have hpayload : r'.payload =
      signedMessage hashes agent.remoteUpwd bindingResponseType tid bs := by
    rw [hr', hpassword, h.password]
  exact agentRecv_response hashes stale' (by omega) hread' hpayload

/-- An agent that goes by these names. -/
def named (localUfrag remoteUfrag localUpwd remoteUpwd : CString)
    (h : 0 ∉ localUfrag ∧ 0 ∉ remoteUfrag) : Ice where
  agent := { relayedAgent with localUpwd := localUpwd, remoteUpwd := remoteUpwd }
  localUfrag := localUfrag
  remoteUfrag := remoteUfrag
  controlling := true
  ufrags_text := h

/-- Two agents that go by letters. -/
theorem bindingCheck_succeeds_letters :
    ∃ request, agentCreateBindingRequest zeroHashes (named [97] [98] [99] [100] (by decide)) 0
        (Vector.replicate 12 7) = some request ∧
      ∀ r : Recv, r.payload = OutMessage.sent request →
        ∃ taken, agentRecv (stunMsgIsValid zeroHashes .zero)
            (named [98] [97] [100] [99] (by decide)).agent r = some (taken, 0) ∧
          taken.bindingRequestTime = r.now ∧
          ∃ response, agentCreateBindingResponse zeroHashes
              { named [98] [97] [100] [99] (by decide) with agent := taken }
              ⟨.zero, .zero 584, .zero 32, Vector.replicate 12 0⟩ r.src = some response ∧
            ∀ (agent : TurnCredentials.Agent) (r' : Recv),
              agent.remoteUpwd = [100] → r'.payload = OutMessage.sent response →
                agentRecv (stunMsgIsValid zeroHashes .zero) agent r' =
                  some ({ agent with succeeded := true }, 0) :=
  bindingCheck_succeeds zeroHashes ⟨rfl, rfl, rfl⟩ (by show padded _ ≤ 128; decide) 0
    (Vector.replicate 12 7) ⟨.zero, .zero 584, .zero 32, Vector.replicate 12 0⟩ .zero .zero

end PipecatVoice.BindingCheck
