import Mathlib
import PipecatVoice.Lib.Crc
import PipecatVoice.SendIndication
import PipecatVoice.StunReads

/-!
# Signed STUN messages

The writer ends a message with MESSAGE-INTEGRITY, an HMAC of what comes before it,
and FINGERPRINT, a CRC of that and the HMAC; for each the length in the header
already counts the attribute. The reader takes both attributes off again from the
end. The hash functions are those of the TLS library.

* `stunCalculateFingerprint`, `stunMsgFinish?`, `stunMsgIsValid` — the functions of
  `stun.c`;
* `RawAttr` — an attribute as it lies in a message;
* `isValid_signed` — the reader accepts what the writer has signed with the same
  password.
-/

namespace PipecatVoice

open CArray

/-! ## The fingerprint -/

/-- `CRC32_TABLE` -/
def crc32Table : List (BitVec 32) := [
  0x00000000, 0x77073096, 0xee0e612c, 0x990951ba, 0x076dc419, 0x706af48f, 0xe963a535,
  0x9e6495a3, 0x0edb8832, 0x79dcb8a4, 0xe0d5e91e, 0x97d2d988, 0x09b64c2b, 0x7eb17cbd,
  0xe7b82d07, 0x90bf1d91, 0x1db71064, 0x6ab020f2, 0xf3b97148, 0x84be41de, 0x1adad47d,
  0x6ddde4eb, 0xf4d4b551, 0x83d385c7, 0x136c9856, 0x646ba8c0, 0xfd62f97a, 0x8a65c9ec,
  0x14015c4f, 0x63066cd9, 0xfa0f3d63, 0x8d080df5, 0x3b6e20c8, 0x4c69105e, 0xd56041e4,
  0xa2677172, 0x3c03e4d1, 0x4b04d447, 0xd20d85fd, 0xa50ab56b, 0x35b5a8fa, 0x42b2986c,
  0xdbbbc9d6, 0xacbcf940, 0x32d86ce3, 0x45df5c75, 0xdcd60dcf, 0xabd13d59, 0x26d930ac,
  0x51de003a, 0xc8d75180, 0xbfd06116, 0x21b4f4b5, 0x56b3c423, 0xcfba9599, 0xb8bda50f,
  0x2802b89e, 0x5f058808, 0xc60cd9b2, 0xb10be924, 0x2f6f7c87, 0x58684c11, 0xc1611dab,
  0xb6662d3d, 0x76dc4190, 0x01db7106, 0x98d220bc, 0xefd5102a, 0x71b18589, 0x06b6b51f,
  0x9fbfe4a5, 0xe8b8d433, 0x7807c9a2, 0x0f00f934, 0x9609a88e, 0xe10e9818, 0x7f6a0dbb,
  0x086d3d2d, 0x91646c97, 0xe6635c01, 0x6b6b51f4, 0x1c6c6162, 0x856530d8, 0xf262004e,
  0x6c0695ed, 0x1b01a57b, 0x8208f4c1, 0xf50fc457, 0x65b0d9c6, 0x12b7e950, 0x8bbeb8ea,
  0xfcb9887c, 0x62dd1ddf, 0x15da2d49, 0x8cd37cf3, 0xfbd44c65, 0x4db26158, 0x3ab551ce,
  0xa3bc0074, 0xd4bb30e2, 0x4adfa541, 0x3dd895d7, 0xa4d1c46d, 0xd3d6f4fb, 0x4369e96a,
  0x346ed9fc, 0xad678846, 0xda60b8d0, 0x44042d73, 0x33031de5, 0xaa0a4c5f, 0xdd0d7cc9,
  0x5005713c, 0x270241aa, 0xbe0b1010, 0xc90c2086, 0x5768b525, 0x206f85b3, 0xb966d409,
  0xce61e49f, 0x5edef90e, 0x29d9c998, 0xb0d09822, 0xc7d7a8b4, 0x59b33d17, 0x2eb40d81,
  0xb7bd5c3b, 0xc0ba6cad, 0xedb88320, 0x9abfb3b6, 0x03b6e20c, 0x74b1d29a, 0xead54739,
  0x9dd277af, 0x04db2615, 0x73dc1683, 0xe3630b12, 0x94643b84, 0x0d6d6a3e, 0x7a6a5aa8,
  0xe40ecf0b, 0x9309ff9d, 0x0a00ae27, 0x7d079eb1, 0xf00f9344, 0x8708a3d2, 0x1e01f268,
  0x6906c2fe, 0xf762575d, 0x806567cb, 0x196c3671, 0x6e6b06e7, 0xfed41b76, 0x89d32be0,
  0x10da7a5a, 0x67dd4acc, 0xf9b9df6f, 0x8ebeeff9, 0x17b7be43, 0x60b08ed5, 0xd6d6a3e8,
  0xa1d1937e, 0x38d8c2c4, 0x4fdff252, 0xd1bb67f1, 0xa6bc5767, 0x3fb506dd, 0x48b2364b,
  0xd80d2bda, 0xaf0a1b4c, 0x36034af6, 0x41047a60, 0xdf60efc3, 0xa867df55, 0x316e8eef,
  0x4669be79, 0xcb61b38c, 0xbc66831a, 0x256fd2a0, 0x5268e236, 0xcc0c7795, 0xbb0b4703,
  0x220216b9, 0x5505262f, 0xc5ba3bbe, 0xb2bd0b28, 0x2bb45a92, 0x5cb36a04, 0xc2d7ffa7,
  0xb5d0cf31, 0x2cd99e8b, 0x5bdeae1d, 0x9b64c2b0, 0xec63f226, 0x756aa39c, 0x026d930a,
  0x9c0906a9, 0xeb0e363f, 0x72076785, 0x05005713, 0x95bf4a82, 0xe2b87a14, 0x7bb12bae,
  0x0cb61b38, 0x92d28e9b, 0xe5d5be0d, 0x7cdcefb7, 0x0bdbdf21, 0x86d3d2d4, 0xf1d4e242,
  0x68ddb3f8, 0x1fda836e, 0x81be16cd, 0xf6b9265b, 0x6fb077e1, 0x18b74777, 0x88085ae6,
  0xff0f6a70, 0x66063bca, 0x11010b5c, 0x8f659eff, 0xf862ae69, 0x616bffd3, 0x166ccf45,
  0xa00ae278, 0xd70dd2ee, 0x4e048354, 0x3903b3c2, 0xa7672661, 0xd06016f7, 0x4969474d,
  0x3e6e77db, 0xaed16a4a, 0xd9d65adc, 0x40df0b66, 0x37d83bf0, 0xa9bcae53, 0xdebb9ec5,
  0x47b2cf7f, 0x30b5ffe9, 0xbdbdf21c, 0xcabac28a, 0x53b39330, 0x24b4a3a6, 0xbad03605,
  0xcdd70693, 0x54de5729, 0x23d967bf, 0xb3667a2e, 0xc4614ab8, 0x5d681b02, 0x2a6f2b94,
  0xb40bbe37, 0xc30c8ea1, 0x5a05df1b, 0x2d02ef8d]

/-- One turn of the loop of `stun_calculate_fingerprint`. -/
def crc32Byte (c : BitVec 32) (b : UInt8) : BitVec 32 :=
  crc32Table.getD ((c ^^^ b.toBitVec.setWidth 32) &&& 0xFF).toNat 0 ^^^ c >>> 8

/-- `STUN_FINGERPRINT_XOR` -/
def stunFingerprintXor : BitVec 32 := 0x5354554e

/-- `stun_calculate_fingerprint`, in network order. -/
def stunCalculateFingerprint (buf : List UInt8) : List UInt8 :=
  beBytes 4 (buf.foldl crc32Byte 0xFFFFFFFF ^^^ 0xFFFFFFFF ^^^ stunFingerprintXor).toNat

/-- The polynomial of CRC-32, its bits in the order of the register. -/
def crc32Polynomial : BitVec 32 := 0xEDB88320

/-- The table is what eight shifts make of a byte. -/
theorem crc32Table_eq (b : BitVec 8) :
    crc32Table.getD b.toNat 0 = (Crc.shift crc32Polynomial)^[8] (b.setWidth 32) := by
  have hall : ∀ i < 256, crc32Table.getD i 0 =
      (Crc.shift crc32Polynomial)^[8] (BitVec.ofNat 32 i) := by decide +kernel
  rw [hall b.toNat b.isLt, BitVec.ofNat_toNat]

/-- A byte goes in by the table. -/
theorem crc32Byte_eq (c : BitVec 32) (b : UInt8) :
    crc32Byte c b = Crc.feedByte (fun i => crc32Table.getD i.toNat 0) c b.toBitVec := by
  have hindex : ((c ^^^ b.toBitVec.setWidth 32) &&& 0xFF).toNat =
      (c.setWidth 8 ^^^ b.toBitVec).toNat := by
    have hlow : c.setWidth 8 ^^^ b.toBitVec = (c ^^^ b.toBitVec.setWidth 32).setWidth 8 := by simp
    rw [hlow, BitVec.toNat_setWidth, BitVec.toNat_and]
    exact Nat.and_two_pow_sub_one_eq_mod _ 8
  rw [crc32Byte, hindex]
  rfl

/-- The bits of a text, in the order in which a register takes them in. -/
def bitsOf (bytes : List UInt8) : List Bool := Crc.messageBits (bytes.map UInt8.toBitVec)

/-- **The loop computes the CRC-32** of what it is given. -/
theorem foldl_crc32Byte (bytes : List UInt8) (c : BitVec 32) :
    bytes.foldl crc32Byte c = Crc.feeds crc32Polynomial c (bitsOf bytes) := by
  have hbytes : bytes.foldl crc32Byte c = (bytes.map UInt8.toBitVec).foldl
      (Crc.feedByte fun i => crc32Table.getD i.toNat 0) c := by
    rw [List.foldl_map]
    exact congrFun (congrFun (congrArg List.foldl
      (funext fun c => funext fun b => crc32Byte_eq c b)) c) bytes
  rw [hbytes]
  exact Crc.foldl_feedByte (by decide) crc32Table_eq _ c

theorem beBytes_injective {k v v' : ℕ} (hv : v < 256 ^ k) (hv' : v' < 256 ^ k)
    (h : beBytes k v = beBytes k v') : v = v' := by
  have hback := congrArg beNat h
  rwa [beNat_beBytes, beNat_beBytes, Nat.mod_eq_of_lt hv, Nat.mod_eq_of_lt hv'] at hback

theorem stunCalculateFingerprint_injective {m m' : List UInt8}
    (h : stunCalculateFingerprint m = stunCalculateFingerprint m') :
    m.foldl crc32Byte 0xFFFFFFFF = m'.foldl crc32Byte 0xFFFFFFFF := by
  have hsame := BitVec.eq_of_toNat_eq
    (beBytes_injective (k := 4) (BitVec.isLt _) (BitVec.isLt _) h)
  exact (BitVec.xor_left_inj _).mp ((BitVec.xor_left_inj _).mp hsame)

/-- **The fingerprint shows every burst**: of two texts whose bits differ only
within a stretch of at most 32, the fingerprints differ. -/
theorem fingerprint_burst {m m' : List UInt8} (pre post : List Bool) {a b : List Bool}
    (hm : bitsOf m = pre ++ a ++ post) (hm' : bitsOf m' = pre ++ b ++ post)
    (hlength : a.length = b.length) (hshort : a.length ≤ 32) (hne : a ≠ b) :
    stunCalculateFingerprint m ≠ stunCalculateFingerprint m' := by
  intro h
  have hsame := stunCalculateFingerprint_injective h
  rw [foldl_crc32Byte, foldl_crc32Byte, hm, hm'] at hsame
  exact Crc.feeds_ne_of_burst (by decide) _ pre post hlength hshort hne hsame

/-! ## Writing over what the buffer held -/

/-- An attribute as it lies in a message. -/
structure RawAttr where
  /-- its type -/
  type : ℕ
  /-- its value -/
  value : List UInt8
  /-- what fills it up to four bytes -/
  pad : List UInt8
  /-- the type has 16 bits -/
  type_lt : type < 65536
  /-- so has the length -/
  value_lt : value.length < 65536
  /-- it is filled up -/
  pad_length : pad.length = padded value.length - value.length

/-- Its bytes. -/
def RawAttr.bytes (a : RawAttr) : List UInt8 :=
  beBytes 2 a.type ++ beBytes 2 a.value.length ++ a.value ++ a.pad

theorem RawAttr.length_bytes (a : RawAttr) : a.bytes.length = 4 + padded a.value.length := by
  have hle := le_padded a.value.length
  simp only [RawAttr.bytes, List.length_append, length_beBytes, a.pad_length]
  omega

/-- A message whose header says that `length` bytes follow. -/
def message (type length : ℕ) (tid : Vector UInt8 12) (attrs : List UInt8) : List UInt8 :=
  beBytes 2 type ++ beBytes 2 length ++ (magicCookie ++ tid.toList ++ attrs)

theorem packet_eq_message (type : ℕ) (tid : Vector UInt8 12) (attrs : List UInt8) :
    packet type tid attrs = message type attrs.length tid attrs := rfl

theorem length_message (type length : ℕ) (tid : Vector UInt8 12) (attrs : List UInt8) :
    (message type length tid attrs).length = 20 + attrs.length := by
  simp only [message, List.length_append, length_beBytes, Vector.length_toList, magicCookie,
    List.length_cons, List.length_nil]
  omega

/-- A message that is written as far as its attributes `attrs`, over whatever the
buffer held. -/
structure Composed (m : OutMessage) (type : ℕ) (tid : Vector UInt8 12) (attrs : List UInt8) :
    Prop where
  /-- the buffer -/
  bytes : ∃ rest, m.msg.buf.bytes = packet type tid attrs ++ rest
  /-- the size -/
  size : m.size = 20 + attrs.length

/-- A message without attributes. -/
theorem exists_stunMsgCreate_written (msg : StunMessage) (type : ℕ) (tid : Vector UInt8 12) :
    ∃ m, stunMsgCreate msg type tid = some m ∧ Composed m type tid [] ∧
      m.msg.username = msg.username ∧ m.msg.realm = msg.realm ∧ m.msg.nonce = msg.nonce := by
  have hheader : beBytes 2 type ++ beBytes 2 0 ++ magicCookie ++ tid.toList =
      packet type tid [] := by
    rw [packet, List.append_nil, List.length_nil, List.append_assoc]
  have hfits : (packet type tid []).length ≤ stunAttrBufSize := by
    rw [length_packet]
    decide
  obtain ⟨buf, hcopy, hbuf⟩ := exists_memcpy? msg.buf hfits
  refine ⟨⟨{ msg with buf := buf }, stunHeaderSize⟩, ?_, ⟨⟨_, hbuf⟩, rfl⟩, rfl, rfl, rfl⟩
  rw [stunMsgCreate, hheader]
  exact congrArg (Option.bind · _) hcopy

section Buffer

variable {buf : CArray stunAttrBufSize} {type length : ℕ} {tid : Vector UInt8 12}
  {attrs rest : List UInt8}

/-- The length in the header is written. -/
theorem write?_length (h : buf.bytes = message type length tid attrs ++ rest) (length' : ℕ) :
    ∃ buf', buf.write? 2 (beBytes 2 length') = some buf' ∧
      buf'.bytes = message type length' tid attrs ++ rest := by
  have hsplit : buf.bytes = beBytes 2 type ++ beBytes 2 length ++
      (magicCookie ++ tid.toList ++ attrs ++ rest) := by
    rw [h, message]
    simp only [List.append_assoc]
  obtain ⟨buf', hwrite, hbuf'⟩ := write?_append (beBytes 2 length') hsplit
    (length_beBytes 2 type).symm ((length_beBytes 2 _).trans (length_beBytes 2 _).symm)
  refine ⟨buf', hwrite, ?_⟩
  rw [hbuf', message]
  simp only [List.append_assoc]

/-- More is written behind the message. -/
theorem write?_behind (h : buf.bytes = message type length tid attrs ++ rest) (src : List UInt8)
    {off : ℕ} (hoff : off = 20 + attrs.length)
    (hfits : 20 + attrs.length + src.length ≤ stunAttrBufSize) :
    ∃ buf', buf.write? off src = some buf' ∧
      buf'.bytes = message type length tid (attrs ++ src) ++ rest.drop src.length := by
  have htotal := congrArg List.length h
  rw [buf.length_eq, List.length_append, length_message] at htotal
  have hsplit : buf.bytes = message type length tid attrs ++ rest.take src.length ++
      rest.drop src.length := by
    rw [List.append_assoc, List.take_append_drop, h]
  obtain ⟨buf', hwrite, hbuf'⟩ := write?_append src hsplit
    (hoff.trans (length_message type length tid attrs).symm)
    (by rw [List.length_take]; omega)
  refine ⟨buf', hwrite, ?_⟩
  rw [hbuf', message, message]
  simp only [List.append_assoc]

/-- The length in the header is read. -/
theorem be16?_length (h : buf.bytes = message type length tid attrs ++ rest)
    (hlength : length < 65536) : buf.be16? 2 = some length := by
  refine be16?_append (beBytes 2 type) (magicCookie ++ tid.toList ++ attrs ++ rest) ?_
    (length_beBytes 2 type).symm hlength
  rw [h, message]
  simp only [List.append_assoc]

end Buffer

/-- **One attribute** is written; what the buffer held pads it. -/
theorem Composed.writeAttr {m : OutMessage} {type : ℕ} {tid : Vector UInt8 12} {attrs : List UInt8}
    (h : Composed m type tid attrs) {t : ℕ} (ht : t < 65536) (value rest : List UInt8)
    (hmirror : ∀ buf, ∃ msg, mirrorAttr { m.msg with buf := buf } t (padded value.length)
      (value ++ rest) = some msg ∧ msg.buf = buf)
    (hfits : 20 + attrs.length + (4 + padded value.length) ≤ stunAttrBufSize) :
    ∃ (m' : OutMessage) (a : RawAttr),
      stunMsgWriteAttr? m t value.length (value ++ rest) = some m' ∧ a.type = t ∧
        a.value = value ∧ Composed m' type tid (attrs ++ a.bytes) := by
  have hle := le_padded value.length
  have hsize : stunAttrBufSize = 1600 := rfl
  have hat : bytesAt? (value ++ rest) value.length = some value := by
    rw [bytesAt?, if_pos (by rw [List.length_append]; omega), List.take_left]
  obtain ⟨tail, htail⟩ := h.bytes
  have htotal := congrArg List.length htail
  rw [m.msg.buf.length_eq, List.length_append, length_packet] at htotal
  rw [packet_eq_message] at htail
  have hlength : (beBytes 2 t ++ beBytes 2 value.length ++ value).length = 4 + value.length := by
    simp only [List.length_append, length_beBytes]
  obtain ⟨buf, hwrite, hbuf⟩ := write?_behind htail
    (beBytes 2 t ++ beBytes 2 value.length ++ value) h.size (by rw [hlength]; omega)
  have hlen : buf.be16? 2 = some attrs.length := be16?_length hbuf (by omega)
  have hpadded : padded16 value.length = padded value.length := padded16_eq (by omega)
  obtain ⟨buf', hwrite', hbuf'⟩ := write?_length hbuf (attrs.length + 4 + padded value.length)
  obtain ⟨msg, hmsg, hmsgbuf⟩ := hmirror buf'
  obtain ⟨pad, behind, hrest, hpad⟩ : ∃ pad behind, tail.drop (4 + value.length) = pad ++ behind ∧
      pad.length = padded value.length - value.length :=
    ⟨_, _, (List.take_append_drop (padded value.length - value.length) _).symm, by
      rw [List.length_take, List.length_drop]
      omega⟩
  refine ⟨⟨msg, m.size + (padded value.length + 4)⟩,
    { type := t, value := value, pad := pad, type_lt := ht, value_lt := by omega
      pad_length := hpad }, ?_, rfl, rfl, ⟨⟨behind, ?_⟩, ?_⟩⟩
  · simp only [stunMsgWriteAttr?, hat, hwrite, hlen, hpadded, hwrite', hmsg,
      Option.bind_eq_bind, Option.bind_some, Option.pure_def]
  · show msg.buf.bytes = _
    rw [hmsgbuf, hbuf', hlength, hrest, packet_eq_message, List.length_append,
      RawAttr.length_bytes, message, message, RawAttr.bytes, Nat.add_assoc]
    simp only [List.append_assoc]
  · show m.size + (padded value.length + 4) = _
    rw [h.size, List.length_append, RawAttr.length_bytes]
    simp only
    omega

/-! ## Signing -/

/-- `StunCredential` -/
inductive StunCredential where
  | shortTerm
  | longTerm
  deriving DecidableEq

/-- The hash functions of the TLS library. -/
structure Hashes where
  /-- `utils_get_md5` -/
  md5 : List UInt8 → Vector UInt8 16
  /-- `utils_get_hmac_sha1`, of a key and an input -/
  hmacSha1 : List UInt8 → List UInt8 → Vector UInt8 20

/-- The key that `stun_msg_finish` signs with; the text that is hashed for a
long-term credential is cut to the 255 bytes that `key` has room for. -/
def signingKey (hashes : Hashes) (msg : StunMessage) (credential : StunCredential)
    (password : CString) : Option (List UInt8) :=
  match credential with
  | .shortTerm => some password
  | .longTerm => do
    let username ← msg.username.string?
    let realm ← msg.realm.string?
    pure (hashes.md5 ((username ++ [58] ++ realm ++ [58] ++ password).take 255)).toList

/-- `stun_msg_finish` -/
def stunMsgFinish? (hashes : Hashes) (m : OutMessage) (credential : StunCredential)
    (password : CString) : Option OutMessage := do
  let headerLength ← m.msg.buf.be16? 2
  let key ← signingKey hashes m.msg credential password
  -- MESSAGE-INTEGRITY
  let buf ← m.msg.buf.write? 2 (beBytes 2 (headerLength + 24))
  let buf ← buf.write? m.size (beBytes 2 0x0008 ++ beBytes 2 20)
  let buf ← buf.write? (m.size + 4) (hashes.hmacSha1 key (buf.bytes.take m.size)).toList
  -- FINGERPRINT
  let buf ← buf.write? 2 (beBytes 2 (headerLength + 24 + 8))
  let buf ← buf.write? (m.size + 24) (beBytes 2 0x8028 ++ beBytes 2 4)
  let buf ← buf.write? (m.size + 28) (stunCalculateFingerprint (buf.bytes.take (m.size + 24)))
  pure ⟨{ m.msg with buf := buf }, m.size + 32⟩

/-- The first bytes of the buffer, all but the last `n` of `size`; with fewer than
`n` the subtraction wraps, and the reading leaves the buffer. -/
def allBut? (buf : CArray stunAttrBufSize) (size n : ℕ) : Option (List UInt8) :=
  if n ≤ size then buf.slice? 0 (size - n) else none

/-- `stun_msg_is_valid`, with what its message held before. -/
def stunMsgIsValid (hashes : Hashes) (stale : StunMessage) : TurnCredentials.Validity :=
  fun buf password => do
    let msg ← TurnCredentials.readMessage stale buf
    -- FINGERPRINT
    let covered ← allBut? msg.buf buf.length 8
    if stunCalculateFingerprint covered ≠ msg.fingerprint.bytes then pure false
    else do
      -- MESSAGE-INTEGRITY, under a length that does not count the fingerprint
      let headerLength ← msg.buf.be16? 2
      let header ← msg.buf.write? 2 (beBytes 2 (headerLength + 65536 - 8))
      let signed ← allBut? header buf.length 32
      pure ((hashes.hmacSha1 password signed).toList == msg.messageIntegrity.bytes)

/-- The HMAC of a message with these attributes. -/
def integrity (hashes : Hashes) (key : List UInt8) (type : ℕ) (tid : Vector UInt8 12)
    (attrs : List UInt8) : List UInt8 :=
  (hashes.hmacSha1 key (message type (attrs.length + 24) tid attrs)).toList

/-- MESSAGE-INTEGRITY -/
def integrityBytes (mac : List UInt8) : List UInt8 := beBytes 2 0x0008 ++ beBytes 2 20 ++ mac

/-- FINGERPRINT -/
def fingerprintBytes (crc : List UInt8) : List UInt8 := beBytes 2 0x8028 ++ beBytes 2 4 ++ crc

/-- The fingerprint of a message with these attributes, the HMAC among them. -/
def fingerprintOf (type : ℕ) (tid : Vector UInt8 12) (attrs : List UInt8) : List UInt8 :=
  stunCalculateFingerprint (message type (attrs.length + 8) tid attrs)

/-- The attributes of a signed message. -/
def signed (hashes : Hashes) (key : List UInt8) (type : ℕ) (tid : Vector UInt8 12)
    (attrs : List UInt8) : List UInt8 :=
  attrs ++ integrityBytes (integrity hashes key type tid attrs) ++
    fingerprintBytes (fingerprintOf type tid
      (attrs ++ integrityBytes (integrity hashes key type tid attrs)))

theorem length_integrity (hashes : Hashes) (key : List UInt8) (type : ℕ) (tid : Vector UInt8 12)
    (attrs : List UInt8) : (integrity hashes key type tid attrs).length = 20 :=
  Vector.length_toList

theorem length_integrityBytes (hashes : Hashes) (key : List UInt8) (type : ℕ)
    (tid : Vector UInt8 12) (attrs : List UInt8) :
    (integrityBytes (integrity hashes key type tid attrs)).length = 24 := by
  rw [integrityBytes, List.length_append, List.length_append, length_beBytes, length_beBytes,
    length_integrity]

theorem length_fingerprintOf (type : ℕ) (tid : Vector UInt8 12) (attrs : List UInt8) :
    (fingerprintOf type tid attrs).length = 4 := length_beBytes 4 _

theorem length_signed (hashes : Hashes) (key : List UInt8) (type : ℕ) (tid : Vector UInt8 12)
    (attrs : List UInt8) :
    (signed hashes key type tid attrs).length = attrs.length + 32 := by
  simp only [signed, fingerprintBytes, List.length_append, length_integrityBytes, length_beBytes,
    length_fingerprintOf]

/-- The first bytes of a buffer in which more is written behind a message. -/
theorem take_message {bytes : List UInt8} {type length : ℕ} {tid : Vector UInt8 12}
    {attrs src rest : List UInt8} (h : bytes = message type length tid (attrs ++ src) ++ rest)
    {n : ℕ} (hn : n = 20 + attrs.length) :
    bytes.take n = message type length tid attrs := by
  have hsplit : bytes = message type length tid attrs ++ (src ++ rest) := by
    rw [h, message, message]
    simp only [List.append_assoc]
  rw [hsplit]
  exact List.take_left' ((length_message type length tid attrs).trans hn.symm)

/-- **The writer signs** what it has written. -/
theorem Composed.finish {m : OutMessage} {type : ℕ} {tid : Vector UInt8 12} {attrs : List UInt8}
    (h : Composed m type tid attrs) (hashes : Hashes) {credential : StunCredential}
    {password key : CString} (hkey : signingKey hashes m.msg credential password = some key)
    (hfits : 20 + attrs.length + 32 ≤ stunAttrBufSize) :
    ∃ m', stunMsgFinish? hashes m credential password = some m' ∧
      Composed m' type tid (signed hashes key type tid attrs) := by
  have hsize : stunAttrBufSize = 1600 := rfl
  obtain ⟨rest, hbytes⟩ := h.bytes
  rw [packet_eq_message] at hbytes
  have hlen := be16?_length hbytes (by omega)
  have hsizes : ∀ {more : List UInt8} (k : ℕ), more.length = attrs.length + k →
      m.size + k = 20 + more.length := fun k hk => by rw [h.size, hk, Nat.add_assoc]
  -- MESSAGE-INTEGRITY
  obtain ⟨b₁, hw₁, hb₁⟩ := write?_length hbytes (attrs.length + 24)
  obtain ⟨b₂, hw₂, hb₂⟩ := write?_behind hb₁ (beBytes 2 0x0008 ++ beBytes 2 20) h.size (by
    rw [List.length_append, length_beBytes, length_beBytes]
    omega)
  have hinput := take_message hb₂ h.size
  obtain ⟨b₃, hw₃, hb₃⟩ := write?_behind hb₂ (integrity hashes key type tid attrs)
    (hsizes 4 (by rw [List.length_append, List.length_append, length_beBytes, length_beBytes]))
    (by
      rw [List.length_append, List.length_append, length_beBytes, length_beBytes,
        length_integrity]
      omega)
  rw [List.append_assoc attrs, ← integrityBytes] at hb₃
  -- FINGERPRINT
  have hattrs : (attrs ++ integrityBytes (integrity hashes key type tid attrs)).length =
      attrs.length + 24 := by
    rw [List.length_append, length_integrityBytes]
  obtain ⟨b₄, hw₄, hb₄⟩ := write?_length hb₃ (attrs.length + 24 + 8)
  obtain ⟨b₅, hw₅, hb₅⟩ := write?_behind hb₄ (beBytes 2 0x8028 ++ beBytes 2 4)
    (hsizes 24 hattrs)
    (by
      rw [hattrs, List.length_append, length_beBytes, length_beBytes]
      omega)
  have hcovered := take_message hb₅ (hsizes 24 hattrs)
  obtain ⟨b₆, hw₆, hb₆⟩ := write?_behind hb₅ (fingerprintOf type tid
      (attrs ++ integrityBytes (integrity hashes key type tid attrs)))
    (hsizes 28 (by
      rw [List.length_append, hattrs, List.length_append, length_beBytes, length_beBytes]))
    (by
      rw [List.length_append, hattrs, List.length_append, length_beBytes, length_beBytes,
        length_fingerprintOf]
      omega)
  rw [List.append_assoc (attrs ++ _), ← fingerprintBytes, ← signed] at hb₆
  have hmac : (hashes.hmacSha1 key (message type (attrs.length + 24) tid attrs)).toList =
      integrity hashes key type tid attrs := rfl
  have hcrc : stunCalculateFingerprint (message type (attrs.length + 24 + 8) tid
      (attrs ++ integrityBytes (integrity hashes key type tid attrs))) =
        fingerprintOf type tid
          (attrs ++ integrityBytes (integrity hashes key type tid attrs)) := by
    rw [fingerprintOf, hattrs]
  have hpacket : message type (attrs.length + 24 + 8) tid (signed hashes key type tid attrs) =
      packet type tid (signed hashes key type tid attrs) := by
    rw [packet_eq_message, length_signed]
  rw [hpacket] at hb₆
  refine ⟨⟨{ m.msg with buf := b₆ }, m.size + 32⟩, ?_, ⟨⟨_, hb₆⟩, ?_⟩⟩
  · simp only [stunMsgFinish?, hlen, hkey, hw₁, hw₂, hinput, hmac, hw₃, hw₄, hw₅, hcovered, hcrc,
      hw₆, Option.bind_eq_bind, Option.bind_some, Option.pure_def]
  · show m.size + 32 = _
    rw [h.size, length_signed, Nat.add_assoc]

/-! ## Reading what was signed -/

/-- The attributes are taken up one after the other. -/
def readAttrs (msg : StunMessage) (pos : ℕ) : List RawAttr → Option StunMessage
  | [] => some msg
  | a :: as => do
    let msg ← parseValue msg a.type (pos + 4) a.value.length
    readAttrs msg (pos + a.bytes.length) as

/-- The bytes of attributes, one after the other. -/
def attrsBytes (as : List RawAttr) : List UInt8 := as.flatMap RawAttr.bytes

theorem attrsBytes_cons (a : RawAttr) (as : List RawAttr) :
    attrsBytes (a :: as) = a.bytes ++ attrsBytes as := List.flatMap_cons ..

/-- An attribute in the buffer is read by its type. -/
theorem parseAttr_raw {msg : StunMessage} {pre post : List UInt8} {a : RawAttr}
    (hbuf : msg.buf.bytes = pre ++ a.bytes ++ post) :
    parseAttr msg pre.length = (parseValue msg a.type (pre.length + 4) a.value.length).map
      fun msg' => (msg', pre.length + a.bytes.length) := by
  have htypeAt : msg.buf.be16? pre.length = some a.type := by
    refine be16?_append pre (beBytes 2 a.value.length ++ a.value ++ a.pad ++ post) ?_ rfl a.type_lt
    rw [hbuf, RawAttr.bytes]
    simp only [List.append_assoc]
  have hlenAt : msg.buf.be16? (pre.length + 2) = some a.value.length := by
    refine be16?_append (pre ++ beBytes 2 a.type) (a.value ++ a.pad ++ post) ?_ ?_ a.value_lt
    · rw [hbuf, RawAttr.bytes]
      simp only [List.append_assoc]
    · rw [List.length_append, length_beBytes]
  simp only [parseAttr, htypeAt, hlenAt, Option.bind_eq_bind, Option.bind_some, Option.pure_def,
    RawAttr.length_bytes, padded, Nat.add_comm 4, Nat.add_assoc]
  exact (Option.map_eq_bind ..).symm

/-- **The loop over attributes** that lie in the buffer as they were written. -/
theorem parseAttrs_raw (as : List RawAttr) : ∀ {msg : StunMessage} {pre post : List UInt8}
    {fuel : ℕ}, msg.buf.bytes = pre ++ attrsBytes as ++ post → as.length < fuel →
      parseAttrs (pre.length + (attrsBytes as).length) fuel msg pre.length =
        readAttrs msg pre.length as := by
  induction as with
  | nil =>
    intro msg pre post fuel _ hfuel
    obtain ⟨fuel, rfl⟩ := Nat.exists_eq_succ_of_ne_zero (Nat.ne_of_gt hfuel)
    exact parseAttrs_end msg
  | cons a as ih =>
    intro msg pre post fuel hbuf hfuel
    obtain ⟨fuel, rfl⟩ := Nat.exists_eq_succ_of_ne_zero (Nat.ne_of_gt (Nat.zero_lt_of_lt hfuel))
    have hlength := a.length_bytes
    have hbytes : (attrsBytes (a :: as)).length = a.bytes.length + (attrsBytes as).length := by
      rw [attrsBytes_cons, List.length_append]
    have hfirst : msg.buf.bytes = pre ++ a.bytes ++ (attrsBytes as ++ post) := by
      rw [hbuf, attrsBytes_cons]
      simp only [List.append_assoc]
    rw [parseAttrs, if_pos (by omega), parseAttr_raw hfirst, readAttrs]
    cases hvalue : parseValue msg a.type (pre.length + 4) a.value.length with
    | none => rfl
    | some msg' =>
      obtain ⟨hsame, -⟩ := parseValue_eq hvalue
      have hnext : msg'.buf.bytes = (pre ++ a.bytes) ++ attrsBytes as ++ post := by
        rw [hsame, hfirst]
        simp only [List.append_assoc]
      have hrest := ih hnext (Nat.lt_of_succ_lt_succ hfuel)
      rw [List.length_append, Nat.add_assoc, ← hbytes] at hrest
      exact hrest

theorem readAttrs_append (as bs : List RawAttr) : ∀ (msg : StunMessage) (pos : ℕ),
    readAttrs msg pos (as ++ bs) =
      (readAttrs msg pos as).bind fun m => readAttrs m (pos + (attrsBytes as).length) bs := by
  induction as with
  | nil => exact fun _ _ => rfl
  | cons a as ih =>
    intro msg pos
    rw [List.cons_append, readAttrs, readAttrs, attrsBytes_cons, List.length_append,
      ← Nat.add_assoc]
    cases parseValue msg a.type (pos + 4) a.value.length with
    | none => rfl
    | some m => exact ih m (pos + a.bytes.length)

theorem readAttrs_buf (as : List RawAttr) : ∀ {msg msg' : StunMessage} {pos : ℕ},
    readAttrs msg pos as = some msg' → msg'.buf = msg.buf := by
  induction as with
  | nil => exact fun h => (congrArg StunMessage.buf (Option.some.inj h)).symm
  | cons a as ih =>
    intro msg msg' pos h
    obtain ⟨m, hvalue, hrest⟩ := Option.bind_eq_some_iff.mp h
    exact (ih hrest).trans (parseValue_eq hvalue).1

/-- Attributes are not shorter than their headers. -/
theorem length_attrsBytes (as : List RawAttr) : 4 * as.length ≤ (attrsBytes as).length := by
  induction as with
  | nil => exact Nat.le_refl 0
  | cons a as ih =>
    rw [attrsBytes_cons, List.length_append, a.length_bytes, List.length_cons]
    omega

/-- MESSAGE-INTEGRITY as an attribute. -/
def integrityAttr (mac : Vector UInt8 20) : RawAttr where
  type := 0x0008
  value := mac.toList
  pad := []
  type_lt := by decide
  value_lt := by
    rw [Vector.length_toList]
    decide
  pad_length := by
    rw [Vector.length_toList]
    rfl

theorem integrityAttr_bytes (mac : Vector UInt8 20) :
    (integrityAttr mac).bytes = integrityBytes mac.toList := by
  rw [RawAttr.bytes, integrityBytes, integrityAttr, List.append_nil, Vector.length_toList]

/-- FINGERPRINT as an attribute. -/
def fingerprintAttr (covered : List UInt8) : RawAttr where
  type := 0x8028
  value := stunCalculateFingerprint covered
  pad := []
  type_lt := by decide
  value_lt := by
    rw [stunCalculateFingerprint, length_beBytes]
    decide
  pad_length := by
    rw [stunCalculateFingerprint, length_beBytes]
    rfl

theorem fingerprintAttr_bytes (covered : List UInt8) :
    (fingerprintAttr covered).bytes = fingerprintBytes (stunCalculateFingerprint covered) := by
  rw [RawAttr.bytes, fingerprintBytes, fingerprintAttr, List.append_nil]
  simp only [stunCalculateFingerprint, length_beBytes]

/-- The value of an attribute in the buffer. -/
theorem slice?_value {buf : CArray stunAttrBufSize} {pre post : List UInt8} {a : RawAttr}
    (hbuf : buf.bytes = pre ++ a.bytes ++ post) :
    buf.slice? (pre.length + 4) a.value.length = some a.value := by
  refine slice?_append (pre ++ beBytes 2 a.type ++ beBytes 2 a.value.length) (a.pad ++ post)
    ?_ ?_ rfl
  · rw [hbuf, RawAttr.bytes]
    simp only [List.append_assoc]
  · simp only [List.length_append, length_beBytes, Nat.add_assoc]

/-- An array is filled by as many bytes as it has. -/
theorem memcpy?_full {n : ℕ} (a : CArray n) {src : List UInt8} (h : src.length = n) :
    a.memcpy? src = some ⟨src, h⟩ := by
  obtain ⟨b, hcopy, hbytes⟩ := exists_memcpy? a (Nat.le_of_eq h)
  rw [List.drop_eq_nil_of_le (by rw [a.length_eq, h]), List.append_nil] at hbytes
  rw [hcopy]
  obtain ⟨bytes, hlength⟩ := b
  subst hbytes
  rfl

/-- MESSAGE-INTEGRITY is read. -/
theorem parseValue_integrity {msg : StunMessage} {pre post : List UInt8} {mac : Vector UInt8 20}
    (hbuf : msg.buf.bytes = pre ++ (integrityAttr mac).bytes ++ post) :
    parseValue msg 0x0008 (pre.length + 4) (integrityAttr mac).value.length =
      some { msg with messageIntegrity := ⟨mac.toList, Vector.length_toList⟩ } := by
  have hcopy : msg.messageIntegrity.memcpy? (integrityAttr mac).value = some _ :=
    memcpy?_full _ Vector.length_toList
  simp only [parseValue, slice?_value hbuf, hcopy, Option.bind_eq_bind, Option.bind_some,
    Option.pure_def]

/-- FINGERPRINT is read. -/
theorem parseValue_fingerprint {msg : StunMessage} {pre post covered : List UInt8}
    (hbuf : msg.buf.bytes = pre ++ (fingerprintAttr covered).bytes ++ post) :
    parseValue msg 0x8028 (pre.length + 4) (fingerprintAttr covered).value.length =
      some { msg with fingerprint := ⟨stunCalculateFingerprint covered, length_beBytes 4 _⟩ } := by
  have hcopy : msg.fingerprint.memcpy? (fingerprintAttr covered).value = some _ :=
    memcpy?_full _ (length_beBytes 4 _)
  simp only [parseValue, slice?_value hbuf, hcopy, Option.bind_eq_bind, Option.bind_some,
    Option.pure_def]
  rfl

/-- The attributes that signing adds, one by one. -/
def lastAttrs (hashes : Hashes) (key : List UInt8) (type : ℕ) (tid : Vector UInt8 12)
    (attrs : List UInt8) : List RawAttr :=
  [integrityAttr (hashes.hmacSha1 key (message type (attrs.length + 24) tid attrs)),
    fingerprintAttr (message type
      ((attrs ++ integrityBytes (integrity hashes key type tid attrs)).length + 8) tid
      (attrs ++ integrityBytes (integrity hashes key type tid attrs)))]

theorem attrsBytes_append_lastAttrs (hashes : Hashes) (key : List UInt8) (type : ℕ)
    (tid : Vector UInt8 12) (as : List RawAttr) :
    attrsBytes (as ++ lastAttrs hashes key type tid (attrsBytes as)) =
      signed hashes key type tid (attrsBytes as) := by
  rw [lastAttrs, attrsBytes, List.flatMap_append, List.flatMap_cons, List.flatMap_singleton,
    integrityAttr_bytes, fingerprintAttr_bytes, signed, List.append_assoc]
  rfl

/-- The HMAC and the fingerprint are read behind the attributes. -/
theorem readAttrs_last {msg : StunMessage} {pre rest : List UInt8} (mac : Vector UInt8 20)
    (covered : List UInt8)
    (hbuf : msg.buf.bytes =
      pre ++ attrsBytes [integrityAttr mac, fingerprintAttr covered] ++ rest) :
    readAttrs msg pre.length [integrityAttr mac, fingerprintAttr covered] =
      some { msg with
        messageIntegrity := ⟨mac.toList, Vector.length_toList⟩
        fingerprint := ⟨stunCalculateFingerprint covered, length_beBytes 4 _⟩ } := by
  have hfirst : msg.buf.bytes = pre ++ (integrityAttr mac).bytes ++
      ((fingerprintAttr covered).bytes ++ rest) := by
    rw [hbuf, attrsBytes_cons, attrsBytes, List.flatMap_singleton]
    simp only [List.append_assoc]
  have hmac := parseValue_integrity hfirst
  have hsecond : ({ msg with
      messageIntegrity := ⟨mac.toList, Vector.length_toList⟩ } : StunMessage).buf.bytes =
        (pre ++ (integrityAttr mac).bytes) ++ (fingerprintAttr covered).bytes ++ rest := by
    show msg.buf.bytes = _
    rw [hfirst]
    simp only [List.append_assoc]
  have hcrc := parseValue_fingerprint hsecond
  rw [List.length_append] at hcrc
  rw [readAttrs, show (integrityAttr mac).type = 0x0008 from rfl, hmac]
  show readAttrs _ _ [fingerprintAttr covered] = _
  rw [readAttrs, show (fingerprintAttr covered).type = 0x8028 from rfl, hcrc]
  rfl

/-- **A message is read** by taking up its attributes, and then an HMAC and a
fingerprint at its end, whatever they are. -/
theorem readMessage_raw (stale : StunMessage) {type : ℕ} (htype : type < 65536)
    (tid : Vector UInt8 12) (as : List RawAttr) (mac : Vector UInt8 20) (covered : List UInt8)
    (hfits : 20 + (attrsBytes as).length + 32 ≤ stunAttrBufSize) :
    ∃ msg rest, msg.buf.bytes =
        packet type tid (attrsBytes (as ++ [integrityAttr mac, fingerprintAttr covered])) ++ rest ∧
      msg.stunclass = stunClassOf type ∧ msg.stunmethod = stunMethodOf type ∧
      TurnCredentials.readMessage stale
          (packet type tid (attrsBytes (as ++ [integrityAttr mac, fingerprintAttr covered]))) =
        (readAttrs msg stunHeaderSize as).map fun m =>
          { m with
            messageIntegrity := ⟨mac.toList, Vector.length_toList⟩
            fingerprint := ⟨stunCalculateFingerprint covered, length_beBytes 4 _⟩ } := by
  have hsize : stunAttrBufSize = 1600 := rfl
  have hlast : (attrsBytes [integrityAttr mac, fingerprintAttr covered]).length = 32 := by
    have hmac : (integrityAttr mac).value.length = 20 := Vector.length_toList
    have hcrc : (fingerprintAttr covered).value.length = 4 := length_beBytes 4 _
    rw [attrsBytes_cons, attrsBytes, List.flatMap_singleton, List.length_append,
      RawAttr.length_bytes, RawAttr.length_bytes, hmac, hcrc]
    rfl
  generalize hall : as ++ [integrityAttr mac, fingerprintAttr covered] = all
  have hlength : (attrsBytes all).length = (attrsBytes as).length + 32 := by
    rw [← hall, attrsBytes, List.flatMap_append, List.length_append, ← hlast]
    rfl
  have hcount := length_attrsBytes all
  obtain ⟨msg, rest, hbuf, hclass, hmethod, hread⟩ := readMessage_packet stale type tid
    (attrsBytes all) htype (by rw [length_packet]; omega)
  refine ⟨msg, rest, hbuf, hclass, hmethod, ?_⟩
  have hheader : (beBytes 2 type ++ beBytes 2 (attrsBytes all).length ++
      (magicCookie ++ tid.toList)).length = stunHeaderSize := by
    simp only [List.length_append, length_beBytes, Vector.length_toList, length_magicCookie]
    rfl
  generalize hpre : beBytes 2 type ++ beBytes 2 (attrsBytes all).length ++
    (magicCookie ++ tid.toList) = pre at hheader
  have hsplit : msg.buf.bytes = pre ++ attrsBytes all ++ rest := by
    rw [hbuf, packet, ← hpre]
    simp only [List.append_assoc]
  have hfuel : all.length < maxAttrs := by
    rw [maxAttrs]
    omega
  have hloop := parseAttrs_raw _ hsplit hfuel
  rw [hheader, Nat.add_comm stunHeaderSize] at hloop
  rw [hread, hloop, ← hall, readAttrs_append]
  cases hattrs : readAttrs msg stunHeaderSize as with
  | none => rfl
  | some m =>
    have hbehind : m.buf.bytes = (pre ++ attrsBytes as) ++
        attrsBytes [integrityAttr mac, fingerprintAttr covered] ++ rest := by
      rw [readAttrs_buf as hattrs, hsplit, ← hall, attrsBytes, List.flatMap_append,
        ← List.append_assoc pre]
      rfl
    have hlast := readAttrs_last _ _ hbehind
    rw [List.length_append, hheader] at hlast
    exact hlast

/-- What was signed is read: the attributes, and then the HMAC and the fingerprint. -/
theorem readMessage_signed (hashes : Hashes) (key : List UInt8) (stale : StunMessage) {type : ℕ}
    (htype : type < 65536) (tid : Vector UInt8 12) (as : List RawAttr)
    (hfits : 20 + (attrsBytes as).length + 32 ≤ stunAttrBufSize) :
    ∃ msg rest,
      msg.buf.bytes = packet type tid (signed hashes key type tid (attrsBytes as)) ++ rest ∧
      msg.stunclass = stunClassOf type ∧ msg.stunmethod = stunMethodOf type ∧
      TurnCredentials.readMessage stale
          (packet type tid (signed hashes key type tid (attrsBytes as))) =
        (readAttrs msg stunHeaderSize as).map fun m =>
          { m with
            messageIntegrity :=
              ⟨integrity hashes key type tid (attrsBytes as), Vector.length_toList⟩
            fingerprint :=
              ⟨fingerprintOf type tid (attrsBytes as ++
                integrityBytes (integrity hashes key type tid (attrsBytes as))),
                length_beBytes 4 _⟩ } := by
  have hraw := readMessage_raw stale htype tid as (hashes.hmacSha1 key
    (message type ((attrsBytes as).length + 24) tid (attrsBytes as))) (message type
      ((attrsBytes as ++ integrityBytes (integrity hashes key type tid (attrsBytes as))).length + 8)
      tid (attrsBytes as ++ integrityBytes (integrity hashes key type tid (attrsBytes as)))) hfits
  have hbytes := attrsBytes_append_lastAttrs hashes key type tid as
  rw [lastAttrs] at hbytes
  rw [hbytes] at hraw
  exact hraw

/-- A length is written in 16 bits. -/
theorem beBytes_two_wrap (v : ℕ) : beBytes 2 (v + 65536) = beBytes 2 v := by
  have hwrap : ∀ n, UInt8.ofNat (n + 256) = UInt8.ofNat n := fun n =>
    UInt8.toNat_inj.mp (by rw [UInt8.toNat_ofNat', UInt8.toNat_ofNat']; omega)
  have hlow : UInt8.ofNat (v + 65536) = UInt8.ofNat v :=
    UInt8.toNat_inj.mp (by rw [UInt8.toNat_ofNat', UInt8.toNat_ofNat']; omega)
  have hhigh : (v + 65536) / 256 = v / 256 + 256 := by omega
  simp only [beBytes, hlow, hhigh, hwrap]

/-- What lies before the last attributes of a buffer that begins with a message. -/
theorem allBut?_message {buf : CArray stunAttrBufSize} {type length : ℕ} {tid : Vector UInt8 12}
    {attrs src rest : List UInt8} (h : buf.bytes = message type length tid (attrs ++ src) ++ rest)
    (size : ℕ) (hsize : size = 20 + attrs.length + src.length) :
    allBut? buf size src.length = some (message type length tid attrs) := by
  have htotal := congrArg List.length h
  rw [buf.length_eq, List.length_append, length_message, List.length_append] at htotal
  have hsub : size - src.length = 20 + attrs.length := by omega
  rw [allBut?, if_pos (by omega), hsub, CArray.slice?, if_pos (by omega), List.drop_zero,
    take_message h rfl]

/-- **The reader accepts what the writer has signed** with the same password, if
it can read the attributes. -/
theorem isValid_signed (hashes : Hashes) (password : CString) (stale : StunMessage) {type : ℕ}
    (htype : type < 65536) (tid : Vector UInt8 12) (as : List RawAttr)
    (hfits : 20 + (attrsBytes as).length + 32 ≤ stunAttrBufSize)
    (hread : (TurnCredentials.readMessage stale
      (packet type tid (signed hashes password type tid (attrsBytes as)))).isSome) :
    stunMsgIsValid hashes stale
      (packet type tid (signed hashes password type tid (attrsBytes as))) password = some true := by
  have hsize : stunAttrBufSize = 1600 := rfl
  obtain ⟨msg, rest, hbuf, -, -, hmsg⟩ :=
    readMessage_signed hashes password stale htype tid as hfits
  have hlength := length_signed hashes password type tid (attrsBytes as)
  have htotal := length_packet type tid (signed hashes password type tid (attrsBytes as))
  obtain ⟨m, hm⟩ := Option.isSome_iff_exists.mp hread
  rw [hmsg] at hm
  obtain ⟨m₀, hattrs, -⟩ := Option.map_eq_some_iff.mp hm
  rw [packet_eq_message, hlength, ← readAttrs_buf as hattrs] at hbuf
  rw [hattrs] at hmsg
  -- what the fingerprint covers
  have hmac := length_integrityBytes hashes password type tid (attrsBytes as)
  have hcrc : (fingerprintBytes (fingerprintOf type tid (attrsBytes as ++
      integrityBytes (integrity hashes password type tid (attrsBytes as))))).length = 8 := by
    rw [fingerprintBytes, List.length_append, List.length_append, length_beBytes, length_beBytes,
      length_fingerprintOf]
  have hcovered := allBut?_message hbuf
    (packet type tid (signed hashes password type tid (attrsBytes as))).length (by
      rw [htotal, hlength, List.length_append, hmac, hcrc]
      omega)
  rw [hcrc] at hcovered
  have hfingerprint : stunCalculateFingerprint (message type ((attrsBytes as).length + 32) tid
      (attrsBytes as ++ integrityBytes (integrity hashes password type tid (attrsBytes as)))) =
        fingerprintOf type tid (attrsBytes as ++
          integrityBytes (integrity hashes password type tid (attrsBytes as))) := by
    rw [fingerprintOf, List.length_append, hmac, Nat.add_assoc]
  -- what the HMAC covers
  have hheader := be16?_length hbuf (by omega)
  obtain ⟨header, hwrite, hwritten⟩ := write?_length hbuf
    ((attrsBytes as).length + 32 + 65536 - 8)
  have hunder : message type ((attrsBytes as).length + 32 + 65536 - 8) tid
      (signed hashes password type tid (attrsBytes as)) =
        message type ((attrsBytes as).length + 24) tid (attrsBytes as ++
          (integrityBytes (integrity hashes password type tid (attrsBytes as)) ++
            fingerprintBytes (fingerprintOf type tid (attrsBytes as ++
              integrityBytes (integrity hashes password type tid (attrsBytes as)))))) := by
    rw [show (attrsBytes as).length + 32 + 65536 - 8 = (attrsBytes as).length + 24 + 65536 by omega,
      message, beBytes_two_wrap, signed, List.append_assoc (attrsBytes as)]
    rfl
  rw [hunder] at hwritten
  have hsigned := allBut?_message hwritten
    (packet type tid (signed hashes password type tid (attrsBytes as))).length (by
      rw [htotal, hlength, List.length_append, hmac, hcrc]
      omega)
  rw [List.length_append, hmac, hcrc] at hsigned
  simp only [stunMsgIsValid, hmsg, Option.map_some, hcovered, hfingerprint, hheader, hwrite,
    hsigned, Option.bind_eq_bind, Option.bind_some, ne_eq, not_true_eq_false, if_false,
    Option.pure_def]
  exact congrArg some (beq_self_eq_true _)

/-- **A signed message that was changed is refused**: where the bits of what the
fingerprint covers differ only within a stretch of at most 32 from those that were
signed, and the message still ends with the fingerprint it was sent with, no
password makes it valid. -/
theorem isValid_burst (hashes : Hashes) (password : CString) (stale : StunMessage)
    {type : ℕ} (htype : type < 65536) (tid : Vector UInt8 12) (as : List RawAttr)
    (mac : Vector UInt8 20) (hfits : 20 + (attrsBytes as).length + 32 ≤ stunAttrBufSize)
    {covered : List UInt8} (pre post : List Bool) {a b : List Bool}
    (hsent : bitsOf covered = pre ++ a ++ post)
    (hchanged : bitsOf (message type ((attrsBytes as).length + 32) tid
      (attrsBytes as ++ integrityBytes mac.toList)) = pre ++ b ++ post)
    (hlength : a.length = b.length) (hshort : a.length ≤ 32) (hne : a ≠ b) :
    stunMsgIsValid hashes stale (message type ((attrsBytes as).length + 32) tid
        (attrsBytes as ++ integrityBytes mac.toList) ++
          fingerprintBytes (stunCalculateFingerprint covered)) password ≠ some true := by
  have hbytes : attrsBytes (as ++ [integrityAttr mac, fingerprintAttr covered]) =
      attrsBytes as ++ integrityBytes mac.toList ++
        fingerprintBytes (stunCalculateFingerprint covered) := by
    rw [attrsBytes, List.flatMap_append, List.flatMap_cons, List.flatMap_singleton,
      integrityAttr_bytes, fingerprintAttr_bytes, List.append_assoc]
    rfl
  have hmac : (integrityBytes mac.toList).length = 24 := by
    rw [integrityBytes, List.length_append, List.length_append, length_beBytes, length_beBytes,
      Vector.length_toList]
  have hcrc : (fingerprintBytes (stunCalculateFingerprint covered)).length = 8 := by
    rw [fingerprintBytes, List.length_append, List.length_append, length_beBytes, length_beBytes,
      stunCalculateFingerprint, length_beBytes]
  have hpacket : packet type tid (attrsBytes (as ++ [integrityAttr mac, fingerprintAttr covered])) =
      message type ((attrsBytes as).length + 32) tid (attrsBytes as ++ integrityBytes mac.toList) ++
        fingerprintBytes (stunCalculateFingerprint covered) := by
    have htotal : (attrsBytes as ++ integrityBytes mac.toList ++
        fingerprintBytes (stunCalculateFingerprint covered)).length =
          (attrsBytes as).length + 32 := by
      rw [List.length_append, List.length_append, hmac, hcrc]
    rw [hbytes, packet_eq_message, htotal, message, message]
    simp only [List.append_assoc]
  obtain ⟨msg, rest, hbuf, -, -, hread⟩ := readMessage_raw stale htype tid as mac covered hfits
  rw [hpacket] at hbuf hread
  cases hattrs : readAttrs msg stunHeaderSize as with
  | none =>
    rw [hattrs] at hread
    rw [stunMsgIsValid, hread]
    exact (Option.some_ne_none true).symm
  | some m =>
    rw [hattrs] at hread
    rw [← readAttrs_buf as hattrs] at hbuf
    have hsplit : m.buf.bytes = message type ((attrsBytes as).length + 32) tid
        ((attrsBytes as ++ integrityBytes mac.toList) ++
          fingerprintBytes (stunCalculateFingerprint covered)) ++ rest := by
      rw [hbuf, message, message]
      simp only [List.append_assoc]
    have hcovered := allBut?_message hsplit (message type ((attrsBytes as).length + 32) tid
      (attrsBytes as ++ integrityBytes mac.toList) ++
        fingerprintBytes (stunCalculateFingerprint covered)).length (by
      rw [List.length_append, length_message])
    rw [hcrc] at hcovered
    have hdiffers := fingerprint_burst pre post hchanged hsent hlength.symm
      (hlength ▸ hshort) hne.symm
    simp only [stunMsgIsValid, hread, Option.map_some, hcovered, hdiffers, Option.bind_eq_bind,
      Option.bind_some, ne_eq, not_false_eq_true, if_true, Option.pure_def]
    exact fun hsome => Bool.false_ne_true (Option.some.inj hsome)

/-- A binding response without attributes, with this transaction id. -/
def bareResponse (tid : Vector UInt8 12) : List UInt8 :=
  message 0x0101 32 tid (integrityBytes (Vector.replicate 20 0).toList)

/-- Hashes that are all zero. -/
def zeroHashes : Hashes := ⟨fun _ => Vector.replicate 16 0, fun _ _ => Vector.replicate 20 0⟩

/-- One bit of the transaction id has changed. -/
theorem isValid_burst_tid :
    stunMsgIsValid zeroHashes .zero (bareResponse (Vector.replicate 12 0) ++
      fingerprintBytes (stunCalculateFingerprint
        (bareResponse ((Vector.replicate 12 0).set 3 1)))) [] ≠ some true := by
  refine isValid_burst zeroHashes [] .zero (by decide) (Vector.replicate 12 0) []
    (Vector.replicate 20 0) (by decide)
    ((bitsOf (bareResponse (Vector.replicate 12 0))).take 88)
    ((bitsOf (bareResponse (Vector.replicate 12 0))).drop 89) (a := [true]) (b := [false])
    ?_ ?_ rfl (by decide) (by decide)
  · decide +kernel
  · decide +kernel

end PipecatVoice
