import PipecatVoice.Lib.CArray
import PipecatVoice.Turn

/-!
# STUN messages

The reader of `stun.c`. It trusts the lengths in the message: an attribute is
copied whole into the array meant for it, and the attributes are followed up to
the length in the header, whatever was received. Where it would leave an array
it has no result here.

* `stunProbe`, `stunParse` — the functions of `stun.c`;
* `parseAttr` — one attribute;
* `parseAttrs_fuel` — the loop over them ends before its turns do.
-/

namespace PipecatVoice

/-- `STUN_ATTR_BUF_SIZE` -/
def stunAttrBufSize : ℕ := 1600

/-- `sizeof(StunHeader)` -/
def stunHeaderSize : ℕ := 20

/-- `MAGIC_COOKIE`, in network order. -/
def magicCookie : List UInt8 := [0x21, 0x12, 0xA4, 0x42]

/-- `StunClass` -/
inductive StunClass where
  | request
  | indication
  | response
  | error
  deriving DecidableEq

/-- `STUN_METHOD_BINDING` -/
def stunMethodBinding : ℕ := 1

/-- `STUN_METHOD_DATA` -/
def stunMethodData : ℕ := 7

/-- `STUN_METHOD_CREATE_PERMISSION` -/
def stunMethodCreatePermission : ℕ := 8

/-- `StunMessage` -/
structure StunMessage where
  /-- `stunclass` -/
  stunclass : StunClass
  /-- `stunmethod` -/
  stunmethod : ℕ
  /-- `fingerprint` -/
  fingerprint : CArray 4
  /-- `message_integrity` -/
  messageIntegrity : CArray 20
  /-- `username` -/
  username : CArray 128
  /-- `realm` -/
  realm : CArray 64
  /-- `nonce` -/
  nonce : CArray 64
  /-- `mapped_addr` -/
  mappedAddr : Address
  /-- `relayed_addr` -/
  relayedAddr : Address
  /-- `peer_addr` -/
  peerAddr : Address
  /-- `data_ptr` as an offset into `buf`, and `data_len` -/
  data : Option (ℕ × ℕ)
  /-- `error_code` -/
  errorCode : ℕ
  /-- `buf` -/
  buf : CArray stunAttrBufSize

/-- A message after `memset`. -/
def StunMessage.zero : StunMessage where
  stunclass := .request
  stunmethod := 0
  fingerprint := .zero 4
  messageIntegrity := .zero 20
  username := .zero 128
  realm := .zero 64
  nonce := .zero 64
  mappedAddr := .zero
  relayedAddr := .zero
  peerAddr := .zero
  data := none
  errorCode := 0
  buf := .zero _

/-- `stun_probe`: it looks like a STUN message. -/
def stunProbe (buf : List UInt8) : Bool :=
  stunHeaderSize ≤ buf.length && (buf.drop 4).take 4 == magicCookie

/-- The class bits of a message type. -/
def stunClassOf (raw : ℕ) : StunClass :=
  if raw &&& 0x0110 = 0x0110 then .error
  else if raw &&& 0x0010 = 0x0010 then .indication
  else if raw &&& 0x0100 = 0x0100 then .response
  else .request

/-- The method bits of a message type. -/
def stunMethodOf (raw : ℕ) : ℕ :=
  (raw &&& 0x000F) ||| ((raw &&& 0x00E0) >>> 1) ||| ((raw &&& 0x3E00) >>> 2)

/-- A value with the mask taken off. -/
def unmask (mask value : List UInt8) : List UInt8 := List.zipWith (· ^^^ ·) value mask

/-- `stun_get_mapped_address`, of the value at `off`. -/
def stunGetMappedAddress (buf : CArray stunAttrBufSize) (off : ℕ) (mask : List UInt8) :
    Option Address := do
  let family ← buf.byte? (off + 1)
  let port ← buf.slice? (off + 2) 2
  let port := UInt16.ofNat (CArray.beNat (unmask mask port))
  if family = 2 then do
    let value ← buf.slice? (off + 4) 16
    let group := fun i : Fin 8 => ((unmask mask value).drop (2 * i)).take 2
    pure ⟨.v6 (Vector.ofFn fun i => UInt16.ofNat (CArray.beNat (group i))), port⟩
  else do
    let value ← buf.slice? (off + 4) 4
    pure ⟨.v4 (UInt32.ofNat (CArray.beNat (unmask mask value))), port⟩

/-- `MAGIC_COOKIE` and the transaction id, with which addresses are masked. -/
def xorMask (buf : CArray stunAttrBufSize) : List UInt8 :=
  magicCookie ++ (buf.bytes.drop 8).take 12

/-- The numeric code of ERROR-CODE at `off`; a short one leaves it alone. -/
def errorCodeAt (msg : StunMessage) (off len : ℕ) : Option ℕ :=
  if 4 ≤ len then do
    let cls ← msg.buf.byte? (off + 2)
    let number ← msg.buf.byte? (off + 3)
    pure ((cls &&& 7) * 100 + number)
  else some msg.errorCode

/-- An attribute of `len` bytes at `off`, by its type. -/
def parseValue (msg : StunMessage) (type off len : ℕ) : Option StunMessage :=
  match type with
  -- MAPPED-ADDRESS
  | 0x0001 => do
    let addr ← stunGetMappedAddress msg.buf off (List.replicate 16 0)
    pure { msg with mappedAddr := addr }
  -- USERNAME
  | 0x0006 => do
    let username ← (CArray.zero 128).memcpy? (← msg.buf.slice? off len)
    pure { msg with username := username }
  -- MESSAGE-INTEGRITY
  | 0x0008 => do
    let messageIntegrity ← msg.messageIntegrity.memcpy? (← msg.buf.slice? off len)
    pure { msg with messageIntegrity := messageIntegrity }
  -- ERROR-CODE
  | 0x0009 => do
    let errorCode ← errorCodeAt msg off len
    pure { msg with errorCode := errorCode }
  -- XOR-PEER-ADDRESS
  | 0x0012 => do
    let addr ← stunGetMappedAddress msg.buf off (xorMask msg.buf)
    pure { msg with peerAddr := addr }
  -- DATA
  | 0x0013 => some { msg with data := some (off, len) }
  -- REALM
  | 0x0014 => do
    let realm ← (CArray.zero 64).memcpy? (← msg.buf.slice? off len)
    pure { msg with realm := realm }
  -- NONCE
  | 0x0015 => do
    let nonce ← (CArray.zero 64).memcpy? (← msg.buf.slice? off len)
    pure { msg with nonce := nonce }
  -- XOR-RELAYED-ADDRESS
  | 0x0016 => do
    let addr ← stunGetMappedAddress msg.buf off (xorMask msg.buf)
    pure { msg with relayedAddr := addr }
  -- XOR-MAPPED-ADDRESS
  | 0x0020 => do
    let addr ← stunGetMappedAddress msg.buf off (xorMask msg.buf)
    pure { msg with mappedAddr := addr }
  -- FINGERPRINT
  | 0x8028 => do
    let fingerprint ← msg.fingerprint.memcpy? (← msg.buf.slice? off len)
    pure { msg with fingerprint := fingerprint }
  | _ => some msg

/-- The attribute at `pos`, and where the next one begins. -/
def parseAttr (msg : StunMessage) (pos : ℕ) : Option (StunMessage × ℕ) := do
  let type ← msg.buf.be16? pos
  let len ← msg.buf.be16? (pos + 2)
  let msg ← parseValue msg type (pos + 4) len
  pure (msg, pos + 4 * ((len + 3) / 4) + 4)

/-- The loop of `stun_parse_msg_buf`, for at most `fuel` attributes. -/
def parseAttrs (length : ℕ) : ℕ → StunMessage → ℕ → Option StunMessage
  | 0, _, _ => none
  | fuel + 1, msg, pos =>
    if pos < length then do
      let (msg, pos) ← parseAttr msg pos
      parseAttrs length fuel msg pos
    else some msg

/-- Attributes that fit into a message. -/
def maxAttrs : ℕ := stunAttrBufSize / 4 + 1

/-- `stun_parse_msg_buf` -/
def stunParse (msg : StunMessage) : Option StunMessage := do
  let length ← msg.buf.be16? 2
  let raw ← msg.buf.be16? 0
  parseAttrs (length + stunHeaderSize) maxAttrs
    { msg with
      stunclass := stunClassOf raw
      stunmethod := stunMethodOf raw
      data := none
      errorCode := 0
      peerAddr := .zero }
    stunHeaderSize

theorem parseAttr_advances {msg msg' : StunMessage} {pos pos' : ℕ}
    (h : parseAttr msg pos = some (msg', pos')) : pos + 4 ≤ pos' := by
  simp only [parseAttr, Option.bind_eq_bind, Option.bind_eq_some_iff] at h
  obtain ⟨type, -, len, -, m, -, heq⟩ := h
  obtain ⟨-, rfl⟩ := Prod.mk.inj (Option.some.inj heq)
  omega

theorem parseAttr_of_le (msg : StunMessage) {pos : ℕ} (h : stunAttrBufSize ≤ pos) :
    parseAttr msg pos = none := by
  have hpos : ¬ pos + 2 ≤ stunAttrBufSize := by omega
  simp [parseAttr, CArray.be16?, CArray.slice?, hpos]

/-- The loop comes to its end: every attribute is at least four bytes long, and
none begins after the buffer. -/
theorem parseAttrs_fuel (length extra : ℕ) : ∀ (fuel : ℕ) (msg : StunMessage) (pos : ℕ),
    stunAttrBufSize ≤ pos + 4 * fuel →
      parseAttrs length (fuel + 1 + extra) msg pos = parseAttrs length (fuel + 1) msg pos := by
  intro fuel
  induction fuel with
  | zero =>
    intro msg pos hpos
    have hend : parseAttr msg pos = none := parseAttr_of_le msg hpos
    rw [Nat.add_right_comm, parseAttrs, parseAttrs, hend]
    rfl
  | succ fuel ih =>
    intro msg pos hpos
    rw [Nat.add_right_comm, parseAttrs, parseAttrs]
    split
    · cases hattr : parseAttr msg pos with
      | none => rfl
      | some x =>
        have hadv := parseAttr_advances hattr
        exact ih x.1 x.2 (by omega)
    · rfl

/-- An attribute leaves the class alone. -/
theorem parseValue_class {msg msg' : StunMessage} {type off len : ℕ}
    (h : parseValue msg type off len = some msg') : msg'.stunclass = msg.stunclass := by
  unfold parseValue at h
  split at h
  all_goals
    simp only [Option.bind_eq_bind, Option.bind_eq_some_iff, Option.pure_def,
      Option.some.injEq] at h
  all_goals
    obtain ⟨_, _, _, _, rfl⟩ := h
    rfl

theorem parseAttrs_class {length : ℕ} : ∀ {fuel : ℕ} {msg msg' : StunMessage} {pos : ℕ},
    parseAttrs length fuel msg pos = some msg' → msg'.stunclass = msg.stunclass := by
  intro fuel
  induction fuel with
  | zero => exact nofun
  | succ fuel ih =>
    intro msg msg' pos h
    rw [parseAttrs] at h
    split at h
    · simp only [Option.bind_eq_bind, Option.bind_eq_some_iff] at h
      obtain ⟨⟨next, pos'⟩, hattr, hrest⟩ := h
      simp only [parseAttr, Option.bind_eq_bind, Option.bind_eq_some_iff] at hattr
      obtain ⟨type, -, len, -, m, hvalue, heq⟩ := hattr
      obtain ⟨rfl, -⟩ := Prod.mk.inj (Option.some.inj heq)
      exact (ih hrest).trans (parseValue_class hvalue)
    · rw [Option.some.inj h]

/-- The class of a message is that of its type. -/
theorem stunParse_class {msg msg' : StunMessage} (h : stunParse msg = some msg') :
    ∃ raw, msg.buf.be16? 0 = some raw ∧ msg'.stunclass = stunClassOf raw := by
  simp only [stunParse, Option.bind_eq_bind, Option.bind_eq_some_iff] at h
  obtain ⟨length, -, raw, hraw, hattrs⟩ := h
  exact ⟨raw, hraw, parseAttrs_class hattrs⟩

end PipecatVoice
