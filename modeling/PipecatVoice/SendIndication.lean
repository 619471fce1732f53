import PipecatVoice.TurnCredentials

/-!
# Send indications

What goes to the peer by way of the TURN server is wrapped in a Send indication:
a header, the peer's address under the XOR mask, and the payload, each attribute
padded to four bytes.

* `stunMsgCreate`, `stunMsgWriteAttr?` — the writer of `stun.c`;
* `agentTurnWrapSendIndication` — the wrapping in `agent.c`;
* `sendIndication_read` — the reader finds in it what was wrapped.
-/

namespace PipecatVoice

open CArray

/-! ## The writer -/

/-- A message being written. -/
structure OutMessage where
  /-- the message -/
  msg : StunMessage
  /-- `size` -/
  size : ℕ

/-- `stun_msg_create`, with the transaction id it draws. -/
def stunMsgCreate (msg : StunMessage) (type : ℕ) (tid : Vector UInt8 12) : Option OutMessage := do
  let buf ← msg.buf.memcpy? (beBytes 2 type ++ beBytes 2 0 ++ magicCookie ++ tid.toList)
  pure ⟨{ msg with buf := buf }, stunHeaderSize⟩

/-- A length up to the next multiple of four, in 16 bits. -/
def padded16 (length : ℕ) : ℕ := 4 * ((length + 3) / 4) % 65536

/-- The first `n` bytes at a pointer, if there are as many. -/
def bytesAt? (value : List UInt8) (n : ℕ) : Option (List UInt8) :=
  if n ≤ value.length then some (value.take n) else none

/-- The strings that `stun_msg_write_attr` keeps in the message, with the bytes that
stand in for their padding. -/
def mirrorAttr (msg : StunMessage) (type length : ℕ) (value : List UInt8) : Option StunMessage :=
  match type with
  -- REALM
  | 0x0014 => do
    let realm ← msg.realm.memcpy? (← bytesAt? value length)
    pure { msg with realm := realm }
  -- NONCE
  | 0x0015 => do
    let nonce ← msg.nonce.memcpy? (← bytesAt? value length)
    pure { msg with nonce := nonce }
  -- USERNAME
  | 0x0006 => do
    let username ← msg.username.memcpy? (← bytesAt? value length)
    pure { msg with username := username }
  | _ => some msg

/-- `stun_msg_write_attr`, with what lies at `value`. -/
def stunMsgWriteAttr? (m : OutMessage) (type length : ℕ) (value : List UInt8) :
    Option OutMessage := do
  let bytes ← bytesAt? value length
  let buf ← m.msg.buf.write? m.size (beBytes 2 type ++ beBytes 2 length ++ bytes)
  let total ← buf.be16? 2
  let buf ← buf.write? 2 (beBytes 2 (total + 4 + padded16 length))
  let msg ← mirrorAttr { m.msg with buf := buf } type (padded16 length) value
  pure ⟨msg, m.size + (padded16 length + 4)⟩

/-- The bytes of an address, in network order. -/
def IpAddr.bytes : IpAddr → List UInt8
  | .v4 a => beBytes 4 a.toNat
  | .v6 a => a.toList.flatMap fun group => beBytes 2 group.toNat

/-- The family byte of an address (`STUN_FAMILY_IPV4`, `STUN_FAMILY_IPV6`). -/
def IpAddr.family : IpAddr → UInt8
  | .v4 _ => 1
  | .v6 _ => 2

/-- `stun_set_mapped_address`, over the bytes of `value`; how much of it counts. -/
def stunSetMappedAddress (value mask : List UInt8) (addr : Address) : List UInt8 × ℕ :=
  let ret := match addr.ip with
    | .v6 _ => 20
    | .v4 _ => 8
  (value.take 1 ++ [addr.ip.family] ++ unmask mask (beBytes 2 addr.port.toNat) ++
    unmask mask addr.ip.bytes ++ value.drop ret, ret)

/-- `agent_turn_encode_peer_address` -/
def agentTurnEncodePeerAddress (msg : StunMessage) (peer : Address) : List UInt8 × ℕ :=
  stunSetMappedAddress (List.replicate 20 0) (xorMask msg.buf) peer

/-- `STUN_CLASS_INDICATION | STUN_METHOD_SEND` -/
def sendIndicationType : ℕ := 0x0010 ||| 0x0006

/-- `agent_turn_wrap_send_indication`: what is copied into `out_buf`, or nothing if it does
not fit. -/
def agentTurnWrapSendIndication (peer : Address) (tid : Vector UInt8 12) (data : List UInt8)
    (outCap : ℤ) : Option (Option (List UInt8)) := do
  let m ← stunMsgCreate .zero sendIndicationType tid
  -- XOR-PEER-ADDRESS
  let (peerAttr, peerAttrLen) := agentTurnEncodePeerAddress m.msg peer
  let m ← stunMsgWriteAttr? m 0x0012 peerAttrLen peerAttr
  -- DATA, whose length is cut to 16 bits
  let m ← stunMsgWriteAttr? m 0x0013 (data.length % 65536) data
  if m.size > outCap then pure none
  else pure (some (m.msg.buf.bytes.take m.size))

/-! ## Messages as they lie in the buffer -/

/-- A length up to the next multiple of four. -/
def padded (length : ℕ) : ℕ := 4 * ((length + 3) / 4)

/-- An attribute, with its padding. -/
def attrBytes (type : ℕ) (value : List UInt8) : List UInt8 :=
  beBytes 2 type ++ beBytes 2 value.length ++ value ++
    List.replicate (padded value.length - value.length) 0

/-- A message with its attributes. -/
def packet (type : ℕ) (tid : Vector UInt8 12) (attrs : List UInt8) : List UInt8 :=
  beBytes 2 type ++ beBytes 2 attrs.length ++ (magicCookie ++ tid.toList ++ attrs)

theorem le_padded (length : ℕ) : length ≤ padded length := by
  rw [padded]
  omega

theorem length_attrBytes (type : ℕ) (value : List UInt8) :
    (attrBytes type value).length = 4 + padded value.length := by
  have hle := le_padded value.length
  simp only [attrBytes, List.length_append, length_beBytes, List.length_replicate]
  omega

theorem length_packet (type : ℕ) (tid : Vector UInt8 12) (attrs : List UInt8) :
    (packet type tid attrs).length = 20 + attrs.length := by
  simp only [packet, List.length_append, length_beBytes, Vector.length_toList, magicCookie,
    List.length_cons, List.length_nil]
  omega

/-- A message that is written as far as its attributes `attrs`. -/
structure Holds (m : OutMessage) (type : ℕ) (tid : Vector UInt8 12) (attrs : List UInt8) :
    Prop where
  /-- the buffer, zero behind the message -/
  bytes : m.msg.buf.bytes =
    packet type tid attrs ++ List.replicate (stunAttrBufSize - (20 + attrs.length)) 0
  /-- the size -/
  size : m.size = 20 + attrs.length

/-- A message without attributes. -/
theorem exists_stunMsgCreate (type : ℕ) (tid : Vector UInt8 12) :
    ∃ m, stunMsgCreate .zero type tid = some m ∧ Holds m type tid [] := by
  have hlength := length_packet type tid []
  have hheader : beBytes 2 type ++ beBytes 2 0 ++ magicCookie ++ tid.toList =
      packet type tid [] := by
    rw [packet, List.append_nil, List.length_nil, List.append_assoc]
  have hfits : (packet type tid []).length ≤ stunAttrBufSize := by
    rw [hlength]
    decide
  obtain ⟨buf, hcopy, hbuf⟩ := exists_memcpy? (CArray.zero stunAttrBufSize) hfits
  refine ⟨⟨{ StunMessage.zero with buf := buf }, stunHeaderSize⟩, ?_, ?_, rfl⟩
  · rw [stunMsgCreate, hheader]
    exact congrArg (Option.bind · _) hcopy
  · rw [hbuf, CArray.zero, List.drop_replicate, hlength]

theorem padded16_eq {length : ℕ} (h : padded length < 65536) : padded16 length = padded length :=
  Nat.mod_eq_of_lt h

/-- **One attribute** is written. -/
theorem Holds.writeAttr {m : OutMessage} {type : ℕ} {tid : Vector UInt8 12} {attrs : List UInt8}
    (h : Holds m type tid attrs) {t : ℕ} (value rest : List UInt8)
    (hplain : ∀ msg length value, mirrorAttr msg t length value = some msg)
    (hfits : 20 + attrs.length + (4 + padded value.length) ≤ stunAttrBufSize) :
    ∃ m', stunMsgWriteAttr? m t value.length (value ++ rest) = some m' ∧
      Holds m' type tid (attrs ++ attrBytes t value) := by
  have hle := le_padded value.length
  have hsize : stunAttrBufSize = 1600 := rfl
  have hat : bytesAt? (value ++ rest) value.length = some value := by
    rw [bytesAt?, if_pos (by rw [List.length_append]; omega), List.take_left]
  -- the zeros the attribute is written over, and the ones behind it
  have hzeros : m.msg.buf.bytes = packet type tid attrs ++
      List.replicate (4 + value.length) 0 ++
      List.replicate (stunAttrBufSize - (20 + attrs.length) - (4 + value.length)) 0 := by
    rw [h.bytes, List.append_assoc, List.replicate_append_replicate]
    congr 2
    omega
  obtain ⟨buf, hwrite, hwritten⟩ := write?_append
    (beBytes 2 t ++ beBytes 2 value.length ++ value) hzeros
    (h.size.trans (length_packet type tid attrs).symm)
    (by simp only [List.length_append, length_beBytes, List.length_replicate])
  have hbuf : buf.bytes = beBytes 2 type ++ beBytes 2 attrs.length ++
      (magicCookie ++ tid.toList ++ attrs ++ (beBytes 2 t ++ beBytes 2 value.length ++ value) ++
        List.replicate (stunAttrBufSize - (20 + attrs.length) - (4 + value.length)) 0) := by
    rw [hwritten, packet]
    simp only [List.append_assoc]
  have hlen : buf.be16? 2 = some attrs.length :=
    be16?_append _ _ hbuf (length_beBytes 2 type).symm (by omega)
  have hpadded : padded16 value.length = padded value.length := padded16_eq (by omega)
  obtain ⟨buf', hwrite', hbuf'⟩ := write?_append
    (beBytes 2 (attrs.length + 4 + padded value.length)) hbuf (length_beBytes 2 type).symm
    ((length_beBytes 2 _).trans (length_beBytes 2 _).symm)
  refine ⟨⟨{ m.msg with buf := buf' }, m.size + (padded value.length + 4)⟩, ?_, ?_, ?_⟩
  · simp only [stunMsgWriteAttr?, hat, hwrite, hlen, hpadded, hwrite', hplain,
      Option.bind_eq_bind, Option.bind_some, Option.pure_def]
  · have htotal : (attrs ++ attrBytes t value).length = attrs.length + 4 + padded value.length := by
      rw [List.length_append, length_attrBytes, Nat.add_assoc]
    have hrest : List.replicate (stunAttrBufSize - (20 + attrs.length) - (4 + value.length)) 0 =
        List.replicate (padded value.length - value.length) (0 : UInt8) ++
          List.replicate (stunAttrBufSize - (20 + (attrs.length + 4 + padded value.length))) 0 := by
      rw [List.replicate_append_replicate]
      congr 1
      omega
    rw [hbuf', hrest, packet, htotal, attrBytes]
    simp only [List.append_assoc]
  · show m.size + (padded value.length + 4) = _
    rw [h.size, List.length_append, length_attrBytes]
    omega

/-! ## Addresses under the mask -/

theorem unmask_unmask : ∀ {mask value : List UInt8}, value.length ≤ mask.length →
    unmask mask (unmask mask value) = value
  | _, [], _ => rfl
  | [], _ :: _, h => absurd h (Nat.not_succ_le_zero _)
  | m :: mask, b :: value, h => by
    have hhead : b ^^^ m ^^^ m = b := by rw [UInt8.xor_assoc, UInt8.xor_self, UInt8.xor_zero]
    have htail := unmask_unmask (Nat.le_of_succ_le_succ h)
    exact congrArg₂ List.cons hhead htail

theorem length_unmask {mask value : List UInt8} (h : value.length ≤ mask.length) :
    (unmask mask value).length = value.length := by
  rw [unmask, List.length_zipWith, Nat.min_eq_left h]

/-- The groups of an address, one after the other. -/
theorem group_flatMap : ∀ (groups : List UInt16) (i : ℕ) (h : i < groups.length),
    ((groups.flatMap fun g => beBytes 2 g.toNat).drop (2 * i)).take 2 = beBytes 2 groups[i].toNat
  | g :: groups, 0, _ => by
    rw [List.flatMap_cons, Nat.mul_zero, List.drop_zero]
    exact List.take_left' (length_beBytes 2 g.toNat)
  | g :: groups, i + 1, h => by
    have hdrop : (beBytes 2 g.toNat ++ groups.flatMap fun g => beBytes 2 g.toNat).drop
        (2 * (i + 1)) = (groups.flatMap fun g => beBytes 2 g.toNat).drop (2 * i) := by
      rw [Nat.mul_succ, Nat.add_comm, ← List.drop_drop]
      congr 1
    rw [List.flatMap_cons, hdrop, group_flatMap groups i (Nat.lt_of_succ_lt_succ h)]
    rfl

theorem length_flatMap_groups (groups : List UInt16) :
    (groups.flatMap fun g => beBytes 2 g.toNat).length = 2 * groups.length := by
  induction groups with
  | nil => rfl
  | cons g groups ih =>
    rw [List.flatMap_cons, List.length_append, ih, length_beBytes, List.length_cons]
    omega

theorem uint16_beNat (v : UInt16) : UInt16.ofNat (beNat (beBytes 2 v.toNat)) = v := by
  have hlt : v.toNat < 256 ^ 2 := v.toNat_lt
  rw [beNat_beBytes, Nat.mod_eq_of_lt hlt, UInt16.ofNat_toNat]

theorem uint32_beNat (v : UInt32) : UInt32.ofNat (beNat (beBytes 4 v.toNat)) = v := by
  have hlt : v.toNat < 256 ^ 4 := v.toNat_lt
  rw [beNat_beBytes, Nat.mod_eq_of_lt hlt, UInt32.ofNat_toNat]

/-- What an address takes under the mask. -/
def masked (mask : List UInt8) (addr : Address) : List UInt8 :=
  [0, addr.ip.family] ++ unmask mask (beBytes 2 addr.port.toNat) ++ unmask mask addr.ip.bytes

theorem length_v6_bytes (a : Vector UInt16 8) : (IpAddr.v6 a).bytes.length = 16 :=
  (length_flatMap_groups a.toList).trans (by rw [Vector.length_toList])

theorem length_ip_bytes (ip : IpAddr) : ip.bytes.length = 4 ∨ ip.bytes.length = 16 := by
  cases ip with
  | v4 a => exact .inl rfl
  | v6 a => exact .inr (length_v6_bytes a)

section Masked

variable {mask : List UInt8}

theorem port_le_mask (h : mask.length = 16) (port : UInt16) :
    (beBytes 2 port.toNat).length ≤ mask.length := by
  rw [length_beBytes, h]
  decide

theorem ip_le_mask (h : mask.length = 16) (ip : IpAddr) : ip.bytes.length ≤ mask.length := by
  have hlen := length_ip_bytes ip
  omega

theorem length_masked (h : mask.length = 16) (addr : Address) :
    (masked mask addr).length = 4 + addr.ip.bytes.length := by
  rw [masked, List.length_append, List.length_append, length_unmask (port_le_mask h _),
    length_unmask (ip_le_mask h _), length_beBytes]
  rfl

theorem stunSetMappedAddress_eq (h : mask.length = 16) (addr : Address) :
    ∃ rest, stunSetMappedAddress (List.replicate 20 0) mask addr =
      (masked mask addr ++ rest, (masked mask addr).length) := by
  rw [length_masked h]
  obtain ⟨ip, port⟩ := addr
  cases ip with
  | v4 a => exact ⟨List.replicate 12 0, rfl⟩
  | v6 a =>
    refine ⟨[], ?_⟩
    rw [length_v6_bytes]
    rfl

variable {buf : CArray stunAttrBufSize} {pre post : List UInt8} {addr : Address}

/-- The family of an address in the buffer. -/
theorem family_masked (hbuf : buf.bytes = pre ++ masked mask addr ++ post) :
    buf.byte? (pre.length + 1) = some addr.ip.family.toNat := by
  rw [CArray.byte?, hbuf, List.append_assoc, List.getElem?_append_right (Nat.le_add_right _ _),
    Nat.add_sub_cancel_left]
  rfl

/-- Its port, under the mask. -/
theorem port_masked (h : mask.length = 16) (hbuf : buf.bytes = pre ++ masked mask addr ++ post) :
    buf.slice? (pre.length + 2) 2 = some (unmask mask (beBytes 2 addr.port.toNat)) := by
  refine slice?_append (pre ++ [0, addr.ip.family]) (unmask mask addr.ip.bytes ++ post) ?_ ?_ ?_
  · rw [hbuf, masked]
    simp only [List.append_assoc]
  · rw [List.length_append]
    rfl
  · rw [length_unmask (port_le_mask h _), length_beBytes]

/-- Its bytes, under the mask. -/
theorem ip_masked (h : mask.length = 16) (hbuf : buf.bytes = pre ++ masked mask addr ++ post) :
    buf.slice? (pre.length + 4) addr.ip.bytes.length = some (unmask mask addr.ip.bytes) := by
  refine slice?_append
    (pre ++ ([0, addr.ip.family] ++ unmask mask (beBytes 2 addr.port.toNat))) post ?_ ?_ ?_
  · rw [hbuf, masked]
    simp only [List.append_assoc]
  · rw [List.length_append, List.length_append, length_unmask (port_le_mask h _),
      length_beBytes]
    rfl
  · rw [length_unmask (ip_le_mask h _)]

/-- **An address is read back** from under the mask. -/
theorem stunGetMappedAddress_masked (h : mask.length = 16)
    (hbuf : buf.bytes = pre ++ masked mask addr ++ post) :
    stunGetMappedAddress buf pre.length mask = some addr := by
  obtain ⟨ip, port⟩ := addr
  have hfamily := family_masked hbuf
  have hport := port_masked h hbuf
  have hip := ip_masked h hbuf
  have hback := unmask_unmask (ip_le_mask h ip)
  cases ip with
  | v4 a =>
    have hval : buf.slice? (pre.length + 4) 4 = some (unmask mask (beBytes 4 a.toNat)) := hip
    have hback : unmask mask (unmask mask (beBytes 4 a.toNat)) = beBytes 4 a.toNat := hback
    simp only [stunGetMappedAddress, hfamily, hport, hval, Option.bind_eq_bind, Option.bind_some]
    rw [unmask_unmask (port_le_mask h port), hback, uint16_beNat, uint32_beNat]
    rfl
  | v6 a =>
    rw [length_v6_bytes] at hip
    simp only [stunGetMappedAddress, hfamily, hport, hip, Option.bind_eq_bind,
      Option.bind_some]
    rw [unmask_unmask (port_le_mask h port), hback, uint16_beNat]
    refine congrArg (fun groups => some (Address.mk (.v6 groups) port)) ?_
    apply Vector.ext
    intro i hi
    have hgroup := group_flatMap a.toList i (by rwa [Vector.length_toList])
    rw [Vector.getElem_toList] at hgroup
    rw [Vector.getElem_ofFn]
    exact (congrArg (fun g => UInt16.ofNat (beNat g)) hgroup).trans (uint16_beNat a[i])

end Masked

/-! ## Reading a message with attributes -/

/-- An attribute is read, and the next one begins behind it. -/
theorem parseAttr_attrBytes {msg msg' : StunMessage} {pre post value : List UInt8} {type : ℕ}
    (hbuf : msg.buf.bytes = pre ++ attrBytes type value ++ post) (htype : type < 65536)
    (hlen : value.length < 65536)
    (hvalue : parseValue msg type (pre.length + 4) value.length = some msg') :
    parseAttr msg pre.length = some (msg', pre.length + (attrBytes type value).length) := by
  have htypeAt : msg.buf.be16? pre.length = some type := by
    refine be16?_append (pre) (beBytes 2 value.length ++ value ++
      List.replicate (padded value.length - value.length) 0 ++ post) ?_ rfl htype
    rw [hbuf, attrBytes]
    simp only [List.append_assoc]
  have hlenAt : msg.buf.be16? (pre.length + 2) = some value.length := by
    refine be16?_append (pre ++ beBytes 2 type) (value ++
      List.replicate (padded value.length - value.length) 0 ++ post) ?_ ?_ hlen
    · rw [hbuf, attrBytes]
      simp only [List.append_assoc]
    · rw [List.length_append, length_beBytes]
  simp only [parseAttr, htypeAt, hlenAt, hvalue, Option.bind_eq_bind, Option.bind_some,
    Option.pure_def, length_attrBytes, padded, Nat.add_comm 4, Nat.add_assoc]

/-- The value of an attribute in the buffer. -/
theorem attrBytes_split {bytes pre post value : List UInt8} {type : ℕ}
    (hbuf : bytes = pre ++ attrBytes type value ++ post) :
    ∃ before after, bytes = before ++ value ++ after ∧ before.length = pre.length + 4 := by
  refine ⟨pre ++ beBytes 2 type ++ beBytes 2 value.length,
    List.replicate (padded value.length - value.length) 0 ++ post, ?_, ?_⟩
  · rw [hbuf, attrBytes]
    simp only [List.append_assoc]
  · simp only [List.length_append, length_beBytes, Nat.add_assoc]

theorem parseAttr_peer {msg : StunMessage} {pre post mask : List UInt8} {peer : Address}
    (hmask : xorMask msg.buf = mask) (hlength : mask.length = 16)
    (hbuf : msg.buf.bytes = pre ++ attrBytes 0x0012 (masked mask peer) ++ post) :
    parseAttr msg pre.length = some ({ msg with peerAddr := peer },
      pre.length + (attrBytes 0x0012 (masked mask peer)).length) := by
  have hlen : (masked mask peer).length < 65536 := by
    have hmasked := length_masked hlength peer
    have hip := length_ip_bytes peer.ip
    omega
  refine parseAttr_attrBytes hbuf (by decide) hlen ?_
  obtain ⟨before, after, hsplit, hbefore⟩ := attrBytes_split hbuf
  have hget := stunGetMappedAddress_masked hlength hsplit
  rw [hbefore] at hget
  simp only [parseValue, hmask, hget, Option.bind_eq_bind, Option.bind_some, Option.pure_def]

theorem parseAttr_data (msg : StunMessage) {pre post payload : List UInt8}
    (hlen : payload.length < 65536)
    (hbuf : msg.buf.bytes = pre ++ attrBytes 0x0013 payload ++ post) :
    parseAttr msg pre.length = some ({ msg with data := some (pre.length + 4, payload.length) },
      pre.length + (attrBytes 0x0013 payload).length) :=
  parseAttr_attrBytes hbuf (by decide) hlen rfl

theorem parseAttrs_cons {length fuel pos pos' : ℕ} {msg msg' : StunMessage} (hpos : pos < length)
    (h : parseAttr msg pos = some (msg', pos')) :
    parseAttrs length (fuel + 1) msg pos = parseAttrs length fuel msg' pos' := by
  rw [parseAttrs, if_pos hpos, h]
  rfl

theorem parseAttrs_end {length fuel : ℕ} (msg : StunMessage) :
    parseAttrs length (fuel + 1) msg length = some msg := by
  rw [parseAttrs, if_neg (Nat.lt_irrefl length)]

theorem length_magicCookie : magicCookie.length = 4 := rfl

/-- The mask of a message. -/
theorem xorMask_packet {buf : CArray stunAttrBufSize} {type : ℕ} {tid : Vector UInt8 12}
    {attrs rest : List UInt8} (h : buf.bytes = packet type tid attrs ++ rest) :
    xorMask buf = magicCookie ++ tid.toList := by
  have hsplit : buf.bytes = (beBytes 2 type ++ beBytes 2 attrs.length ++ magicCookie) ++
      (tid.toList ++ (attrs ++ rest)) := by
    rw [h, packet]
    simp only [List.append_assoc]
  have height : (beBytes 2 type ++ beBytes 2 attrs.length ++ magicCookie).length = 8 := by
    simp only [List.length_append, length_beBytes, length_magicCookie]
  rw [xorMask, hsplit, List.drop_left' height, List.take_left' Vector.length_toList]

/-- A message is read by reading its attributes. -/
theorem readMessage_packet (stale : StunMessage) (type : ℕ) (tid : Vector UInt8 12)
    (attrs : List UInt8) (htype : type < 65536)
    (hfits : (packet type tid attrs).length ≤ stunAttrBufSize) :
    ∃ msg rest, msg.buf.bytes = packet type tid attrs ++ rest ∧
      msg.stunclass = stunClassOf type ∧ msg.stunmethod = stunMethodOf type ∧
      TurnCredentials.readMessage stale (packet type tid attrs) =
        parseAttrs (attrs.length + stunHeaderSize) maxAttrs msg stunHeaderSize := by
  obtain ⟨buf, hcopy, hbuf⟩ := exists_memcpy? stale.buf hfits
  have hsize : stunAttrBufSize = 1600 := rfl
  rw [length_packet] at hfits
  have htypeAt : buf.be16? 0 = some type := by
    refine be16?_append ([]) (beBytes 2 attrs.length ++
      (magicCookie ++ tid.toList ++ attrs) ++
        stale.buf.bytes.drop (packet type tid attrs).length) ?_ rfl htype
    rw [hbuf, packet]
    simp only [List.nil_append, List.append_assoc]
  have hlenAt : buf.be16? 2 = some attrs.length := by
    refine be16?_append (beBytes 2 type) (magicCookie ++ tid.toList ++ attrs ++
      stale.buf.bytes.drop (packet type tid attrs).length) ?_ (length_beBytes 2 type).symm
      (by omega)
    rw [hbuf, packet]
    simp only [List.append_assoc]
  refine ⟨{ stale with
      buf := buf
      stunclass := stunClassOf type
      stunmethod := stunMethodOf type
      data := none
      errorCode := 0
      peerAddr := .zero }, _, hbuf, rfl, rfl, ?_⟩
  rw [TurnCredentials.readMessage, hcopy]
  simp only [Option.bind_eq_bind, Option.bind_some, stunParse, htypeAt, hlenAt]

/-! ## Send indications -/

/-- `STUN_METHOD_SEND` -/
def stunMethodSend : ℕ := 6

/-- The attributes of a Send indication. -/
def sendAttrs (peer : Address) (tid : Vector UInt8 12) (payload : List UInt8) : List UInt8 :=
  attrBytes 0x0012 (masked (magicCookie ++ tid.toList) peer) ++ attrBytes 0x0013 payload

/-- The header, the address and the payload of a Send indication, each padded. -/
def sendSize (peer : Address) (payload : List UInt8) : ℕ :=
  20 + (4 + padded (4 + peer.ip.bytes.length)) + (4 + padded payload.length)

theorem length_mask (tid : Vector UInt8 12) : (magicCookie ++ tid.toList).length = 16 := by
  rw [List.length_append, Vector.length_toList]
  rfl

theorem length_sendAttrs (peer : Address) (tid : Vector UInt8 12) (payload : List UInt8) :
    20 + (sendAttrs peer tid payload).length = sendSize peer payload := by
  rw [sendAttrs, List.length_append, length_attrBytes, length_attrBytes,
    length_masked (length_mask tid), sendSize, Nat.add_assoc 20]

/-- What the wrapping produces. -/
theorem agentTurnWrapSendIndication_eq {peer : Address} {tid : Vector UInt8 12}
    {payload : List UInt8} {outCap : ℤ} (hbuf : sendSize peer payload ≤ stunAttrBufSize)
    (hcap : sendSize peer payload ≤ outCap) :
    agentTurnWrapSendIndication peer tid payload outCap =
      some (some (packet sendIndicationType tid (sendAttrs peer tid payload))) := by
  have hsize : stunAttrBufSize = 1600 := rfl
  have hle := le_padded payload.length
  have hmask := length_mask tid
  obtain ⟨m, hcreate, hm⟩ := exists_stunMsgCreate sendIndicationType tid
  obtain ⟨rest, hset⟩ := stunSetMappedAddress_eq hmask peer
  have hencode : agentTurnEncodePeerAddress m.msg peer =
      (masked (magicCookie ++ tid.toList) peer ++ rest,
        (masked (magicCookie ++ tid.toList) peer).length) := by
    rw [agentTurnEncodePeerAddress, xorMask_packet hm.bytes, hset]
  have hlen := length_masked hmask peer
  obtain ⟨m₁, hfirst, hm₁⟩ := hm.writeAttr (t := 0x0012) (masked (magicCookie ++ tid.toList) peer)
    rest (fun _ _ _ => rfl) (by
      rw [hlen, List.length_nil]
      rw [sendSize] at hbuf
      omega)
  obtain ⟨m₂, hsecond, hm₂⟩ := hm₁.writeAttr (t := 0x0013) payload [] (fun _ _ _ => rfl) (by
      rw [List.nil_append, length_attrBytes, hlen]
      rw [sendSize] at hbuf
      omega)
  have hdata : payload.length % 65536 = payload.length := by
    rw [sendSize] at hbuf
    exact Nat.mod_eq_of_lt (by omega)
  rw [List.append_nil] at hsecond
  rw [List.nil_append] at hm₂
  have htotal : m₂.size = sendSize peer payload :=
    hm₂.size.trans (length_sendAttrs peer tid payload)
  have hbytes : m₂.msg.buf.bytes.take m₂.size =
      packet sendIndicationType tid (sendAttrs peer tid payload) := by
    rw [hm₂.bytes]
    exact List.take_left' ((length_packet _ _ _).trans hm₂.size.symm)
  have hroom : ¬ (m₂.size : ℤ) > outCap := by
    rw [htotal]
    exact Int.not_lt.mpr hcap
  simp only [agentTurnWrapSendIndication, hcreate, hencode, hfirst, hdata, hsecond,
    Option.bind_eq_bind, Option.bind_some, if_neg hroom, Option.pure_def, hbytes]

/-- The two attributes are read one after the other. -/
theorem parseAttrs_sendAttrs {msg : StunMessage} {header payload : List UInt8}
    (rest : List UInt8) (peer : Address) {tid : Vector UInt8 12}
    (hmask : xorMask msg.buf = magicCookie ++ tid.toList)
    (hheader : header.length = stunHeaderSize)
    (hbuf : msg.buf.bytes = header ++ sendAttrs peer tid payload ++ rest)
    (hpayload : payload.length < 65536) :
    ∃ off, parseAttrs ((sendAttrs peer tid payload).length + stunHeaderSize) maxAttrs msg
        stunHeaderSize =
      some { msg with peerAddr := peer, data := some (off, payload.length) } ∧
      msg.buf.slice? off payload.length = some payload := by
  have hmaskLength := length_mask tid
  have hpeerLength := length_attrBytes 0x0012 (masked (magicCookie ++ tid.toList) peer)
  have hdataLength := length_attrBytes 0x0013 payload
  have htotal : (sendAttrs peer tid payload).length + stunHeaderSize =
      header.length + (attrBytes 0x0012 (masked (magicCookie ++ tid.toList) peer)).length +
        (attrBytes 0x0013 payload).length := by
    rw [sendAttrs, List.length_append, hheader]
    omega
  have hfirst : msg.buf.bytes = header ++ attrBytes 0x0012 (masked (magicCookie ++ tid.toList)
      peer) ++ (attrBytes 0x0013 payload ++ rest) := by
    rw [hbuf, sendAttrs]
    simp only [List.append_assoc]
  have hsecond : msg.buf.bytes = header ++ attrBytes 0x0012 (masked (magicCookie ++ tid.toList)
      peer) ++ attrBytes 0x0013 payload ++ rest := by
    rw [hfirst]
    simp only [List.append_assoc]
  have hpeer := parseAttr_peer hmask hmaskLength hfirst
  have hdata := parseAttr_data { msg with peerAddr := peer } hpayload hsecond
  rw [List.length_append] at hdata
  obtain ⟨before, after, hsplit, hbefore⟩ := attrBytes_split hsecond
  refine ⟨_, ?_, slice?_append _ _ hsplit hbefore.symm rfl⟩
  have hfuel : maxAttrs = 398 + 1 + 1 + 1 := rfl
  rw [htotal, hfuel, ← hheader, parseAttrs_cons (by omega) hpeer,
    parseAttrs_cons (by omega) hdata, parseAttrs_end, List.length_append]

/-- **The reader finds what was wrapped**: the class, the method, the peer and the payload, and
a length that counts what follows the header. -/
theorem sendIndication_read (peer : Address) (tid : Vector UInt8 12) (payload : List UInt8)
    (outCap : ℤ) (stale : StunMessage) (hbuf : sendSize peer payload ≤ stunAttrBufSize)
    (hcap : sendSize peer payload ≤ outCap) :
    ∃ out msg off, agentTurnWrapSendIndication peer tid payload outCap = some (some out) ∧
      TurnCredentials.readMessage stale out = some msg ∧
      msg.stunclass = .indication ∧ msg.stunmethod = stunMethodSend ∧ msg.peerAddr = peer ∧
      msg.data = some (off, payload.length) ∧
      msg.buf.slice? off payload.length = some payload ∧
      stunHeaderSize ≤ out.length ∧
      beNat ((out.drop 2).take 2) = out.length - stunHeaderSize ∧
      4 ∣ out.length - stunHeaderSize := by
  have hmaskLength := length_mask tid
  have hattrs := length_sendAttrs peer tid payload
  have hsize : stunAttrBufSize = 1600 := rfl
  have hle := le_padded payload.length
  have hfits : 20 + (sendAttrs peer tid payload).length ≤ stunAttrBufSize := hattrs ▸ hbuf
  obtain ⟨msg, rest, hbytes, hclass, hmethod, hread⟩ := readMessage_packet stale
    sendIndicationType tid (sendAttrs peer tid payload) (by decide)
    ((length_packet _ _ _).le.trans hfits)
  have hmask := xorMask_packet hbytes
  have hheader : (beBytes 2 sendIndicationType ++ beBytes 2 (sendAttrs peer tid payload).length ++
      (magicCookie ++ tid.toList)).length = stunHeaderSize := by
    rw [List.length_append, List.length_append, hmaskLength, length_beBytes, length_beBytes]
    rfl
  obtain ⟨off, hparse, hpayload⟩ := parseAttrs_sendAttrs rest peer hmask hheader
    (by
      rw [hbytes, packet]
      simp only [List.append_assoc]) (by
      rw [sendSize] at hbuf
      omega : payload.length < 65536)
  have hlength := length_packet sendIndicationType tid (sendAttrs peer tid payload)
  have hsub : (packet sendIndicationType tid (sendAttrs peer tid payload)).length -
      stunHeaderSize = (sendAttrs peer tid payload).length := by
    rw [hlength]
    exact Nat.add_sub_cancel_left ..
  refine ⟨_, _, off, agentTurnWrapSendIndication_eq hbuf hcap, hread.trans hparse, hclass,
    hmethod, rfl, rfl, hpayload, ?_, ?_, ?_⟩
  · rw [hlength]
    exact Nat.le_add_right _ _
  · rw [hsub, packet, List.append_assoc, List.drop_left' (length_beBytes 2 _),
      List.take_left' (length_beBytes 2 _), beNat_beBytes]
    exact Nat.mod_eq_of_lt (by omega)
  · rw [hsub, sendAttrs, List.length_append, length_attrBytes, length_attrBytes, padded, padded]
    omega

/-- The smallest message that carries something to a peer over IPv4. -/
theorem sendIndication_read_one :
    ∃ out msg off, agentTurnWrapSendIndication ⟨.v4 0x0A000001, 4242⟩ (Vector.replicate 12 7) [9]
        1400 = some (some out) ∧
      TurnCredentials.readMessage .zero out = some msg ∧
      msg.stunclass = .indication ∧ msg.stunmethod = stunMethodSend ∧
      msg.peerAddr = ⟨.v4 0x0A000001, 4242⟩ ∧ msg.data = some (off, 1) ∧
      msg.buf.slice? off 1 = some [9] ∧ stunHeaderSize ≤ out.length ∧
      beNat ((out.drop 2).take 2) = out.length - stunHeaderSize ∧
      4 ∣ out.length - stunHeaderSize :=
  sendIndication_read ⟨.v4 0x0A000001, 4242⟩ (Vector.replicate 12 7) [9] 1400 .zero (by decide)
    (by decide)

end PipecatVoice
