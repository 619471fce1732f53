import PipecatVoice.Stun

/-!
# What the STUN reader reads

The attributes are followed up to the length in the header, and each is read as its type
has it, wherever that leads. Whether the reader stays inside of what was received can be
told from that alone.

* `parseReads` — the bytes `stun_parse_msg_buf` reads;
* `stunParse_congr` — nothing else is read;
* `Fits` — every attribute lies in what was received, as far as it is read;
* `stunParse_inside_iff` — then, and only then, does the reader stay inside.
-/

namespace PipecatVoice

open CArray

/-- Two bytes in network order. -/
def wordAt (bytes : List UInt8) (pos : ℕ) : ℕ := beNat ((bytes.drop pos).take 2)

/-- What the reader does with the value of an attribute. -/
inductive ValueKind where
  /-- an address, under the mask with the transaction id or not -/
  | address (xored : Bool)
  /-- bytes that are copied into an array of this size -/
  | copied (room : ℕ)
  /-- ERROR-CODE -/
  | errorCode
  /-- it is not read -/
  | skipped

/-- The kind of a type. -/
def valueKind : ℕ → ValueKind
  | 0x0001 => .address false
  | 0x0012 | 0x0016 | 0x0020 => .address true
  | 0x0006 => .copied 128
  | 0x0008 => .copied 20
  | 0x0014 | 0x0015 => .copied 64
  | 0x8028 => .copied 4
  | 0x0009 => .errorCode
  | _ => .skipped

/-! ## What is read -/

/-- The bytes that are read of a value: where they begin, and how many. -/
def valueReads (bytes : List UInt8) (type off len : ℕ) : List (ℕ × ℕ) :=
  match valueKind type with
  | .address xored =>
    (if xored then [(8, 12)] else []) ++
      [(off + 1, 1), (off + 2, 2), (off + 4, if bytes[off + 1]? = some 2 then 16 else 4)]
  | .copied _ => [(off, len)]
  | .errorCode => if 4 ≤ len then [(off + 2, 1), (off + 3, 1)] else []
  | .skipped => []

/-- The bytes that are read of an attribute. -/
def attrReads (bytes : List UInt8) (pos : ℕ) : List (ℕ × ℕ) :=
  (pos, 2) :: (pos + 2, 2) ::
    valueReads bytes (wordAt bytes pos) (pos + 4) (wordAt bytes (pos + 2))

/-- Where the next attribute begins. -/
def nextAttr (bytes : List UInt8) (pos : ℕ) : ℕ :=
  pos + 4 * ((wordAt bytes (pos + 2) + 3) / 4) + 4

/-- The bytes that the loop reads. -/
def walkReads (bytes : List UInt8) (length : ℕ) : ℕ → ℕ → List (ℕ × ℕ)
  | 0, _ => []
  | fuel + 1, pos =>
    if pos < length then
      attrReads bytes pos ++ walkReads bytes length fuel (nextAttr bytes pos)
    else []

/-- The bytes that `stun_parse_msg_buf` reads. -/
def parseReads (bytes : List UInt8) : List (ℕ × ℕ) :=
  (2, 2) :: (0, 2) :: walkReads bytes (wordAt bytes 2 + stunHeaderSize) maxAttrs stunHeaderSize

/-- No byte from `n` on is read. -/
def Inside (n : ℕ) (reads : List (ℕ × ℕ)) : Prop := ∀ r ∈ reads, ∀ i < r.2, r.1 + i < n

theorem inside_nil (n : ℕ) : Inside n [] := fun _ h => absurd h List.not_mem_nil

/-- One read more: it is empty, or ends in time. -/
theorem inside_cons {n : ℕ} {off len : ℕ} {reads : List (ℕ × ℕ)} :
    Inside n ((off, len) :: reads) ↔ (len = 0 ∨ off + len ≤ n) ∧ Inside n reads := by
  rw [Inside, List.forall_mem_cons, ← Inside]
  refine and_congr_left fun _ => ⟨?_, ?_⟩
  · intro h
    refine or_iff_not_imp_left.mpr fun hlen => ?_
    have hlast := h (len - 1) (by simp only; omega)
    simp only at hlast
    omega
  · intro h i hi
    simp only at hi ⊢
    omega

theorem inside_append {n : ℕ} {reads reads' : List (ℕ × ℕ)} :
    Inside n (reads ++ reads') ↔ Inside n reads ∧ Inside n reads' :=
  List.forall_mem_append

/-! ## What has to be there -/

/-- The bytes that are read of a value are there, and there is room for them. -/
def valueFits (bytes : List UInt8) (type off len : ℕ) : Bool :=
  match valueKind type with
  | .address _ => off + (if bytes[off + 1]? = some 2 then 20 else 8) ≤ bytes.length
  | .copied room => off + len ≤ bytes.length && len ≤ room
  | .errorCode => len < 4 || off + 4 ≤ bytes.length
  | .skipped => true

/-- The attribute is there, as far as it is read. -/
def attrFits (bytes : List UInt8) (pos : ℕ) : Bool :=
  pos + 4 ≤ bytes.length &&
    valueFits bytes (wordAt bytes pos) (pos + 4) (wordAt bytes (pos + 2))

/-- All attributes from `pos` on are there. -/
def fitsFrom (bytes : List UInt8) (length : ℕ) : ℕ → ℕ → Bool
  | 0, _ => false
  | fuel + 1, pos =>
    if pos < length then attrFits bytes pos && fitsFrom bytes length fuel (nextAttr bytes pos)
    else true

/-- **Every attribute lies in the bytes**, up to the length in the header and as far as it is
read. -/
def Fits (bytes : List UInt8) : Bool :=
  fitsFrom bytes (wordAt bytes 2 + stunHeaderSize) maxAttrs stunHeaderSize

/-! ## One attribute -/

/-- A slice is there if it ends inside the buffer. -/
theorem slice?_isSome {n : ℕ} (a : CArray n) (off len : ℕ) :
    (a.slice? off len).isSome ↔ off + len ≤ n := by
  rw [slice?]
  split
  · next h => exact iff_of_true rfl h
  · next h => exact iff_of_false Bool.false_ne_true h

/-- A copy succeeds if there is room for it. -/
theorem memcpy?_isSome {n : ℕ} (a : CArray n) (src : List UInt8) :
    (a.memcpy? src).isSome ↔ src.length ≤ n := by
  rw [memcpy?]
  split
  · next h => exact iff_of_true rfl h
  · next h => exact iff_of_false Bool.false_ne_true h

/-- A slice is as long as it was asked for. -/
theorem length_of_slice? {n : ℕ} {a : CArray n} {off len : ℕ} {bytes : List UInt8}
    (h : a.slice? off len = some bytes) : bytes.length = len := by
  rw [slice?] at h
  split at h
  · next hle =>
    rw [← Option.some.inj h, List.length_take, List.length_drop, a.length_eq]
    omega
  · cases h

/-- A byte is there if it lies inside the buffer. -/
theorem byte?_isSome {n : ℕ} (a : CArray n) (off : ℕ) : (a.byte? off).isSome ↔ off < n := by
  rw [byte?, Option.isSome_map, isSome_getElem?, a.length_eq]

theorem isSome_bind_some {α β : Type*} (x : Option α) (f : α → β) :
    (x.bind fun a => some (f a)).isSome = x.isSome := by
  cases x with
  | none => rfl
  | some a => rfl

/-- Copying from the buffer. -/
theorem copy_isSome {n m : ℕ} {α : Type*} (a : CArray n) (b : CArray m) (off len : ℕ)
    (f : CArray n → α) :
    ((b.slice? off len).bind fun bytes => (a.memcpy? bytes).bind fun c => some (f c)).isSome ↔
      off + len ≤ m ∧ len ≤ n := by
  rw [← slice?_isSome b off len]
  cases hslice : b.slice? off len with
  | none => exact iff_of_false Bool.false_ne_true fun h => Bool.false_ne_true h.1
  | some bytes =>
    rw [Option.bind_some, isSome_bind_some, memcpy?_isSome, length_of_slice? hslice]
    exact (and_iff_right rfl).symm

/-- The family of an address, as a number and as a byte. -/
theorem byte?_eq_two {n : ℕ} (a : CArray n) {off family : ℕ} (h : a.byte? off = some family) :
    family = 2 ↔ a.bytes[off]? = some 2 := by
  obtain ⟨b, hb, rfl⟩ := Option.map_eq_some_iff.mp h
  rw [hb, Option.some.injEq]
  exact UInt8.toNat_inj (b := 2)

/-- An address is read inside the buffer, as far as its family needs it. -/
theorem stunGetMappedAddress_isSome (buf : CArray stunAttrBufSize) (off : ℕ)
    (mask : List UInt8) :
    (stunGetMappedAddress buf off mask).isSome ↔
      off + (if buf.bytes[off + 1]? = some 2 then 20 else 8) ≤ stunAttrBufSize := by
  have hport := slice?_isSome buf (off + 2) 2
  have hwide := slice?_isSome buf (off + 4) 16
  have hnarrow := slice?_isSome buf (off + 4) 4
  cases hfamily : buf.byte? (off + 1) with
  | none =>
    -- not even the family is inside
    have hlong : ¬ off + 1 < stunAttrBufSize := by
      rw [← byte?_isSome buf (off + 1), hfamily]
      exact Bool.false_ne_true
    refine iff_of_false ?_ (by split <;> omega)
    rw [stunGetMappedAddress, hfamily]
    exact Bool.false_ne_true
  | some family =>
    cases hportAt : buf.slice? (off + 2) 2 with
    | none =>
      -- the port is not
      rw [hportAt] at hport
      have hlong : ¬ off + 2 + 2 ≤ stunAttrBufSize := fun h => Bool.false_ne_true (hport.mpr h)
      refine iff_of_false ?_ (by split <;> omega)
      simp only [stunGetMappedAddress, hfamily, hportAt]
      exact Bool.false_ne_true
    | some port =>
      simp only [stunGetMappedAddress, hfamily, hportAt, Option.bind_eq_bind, Option.bind_some,
        byte?_eq_two buf hfamily, Option.pure_def]
      split
      · rw [isSome_bind_some, hwide]
      · rw [isSome_bind_some, hnarrow]

/-- An error code is read inside the buffer, if it is long enough to be read. -/
theorem errorCodeAt_isSome (msg : StunMessage) (off len : ℕ) :
    (errorCodeAt msg off len).isSome ↔ len < 4 ∨ off + 4 ≤ stunAttrBufSize := by
  have hclass := byte?_isSome msg.buf (off + 2)
  have hnumber := byte?_isSome msg.buf (off + 3)
  rw [errorCodeAt]
  split
  · next hlen =>
    rw [or_iff_right (by omega)]
    cases hcls : msg.buf.byte? (off + 2) with
    | none =>
      rw [hcls] at hclass
      have hlong : ¬ off + 2 < stunAttrBufSize := fun h => Bool.false_ne_true (hclass.mpr h)
      exact iff_of_false Bool.false_ne_true (by omega)
    | some cls =>
      simp only [Option.bind_eq_bind, Option.bind_some, Option.pure_def, isSome_bind_some]
      rw [hnumber]
      omega
  · next hlen => exact iff_of_true rfl (.inl (by omega))

/-- **A value is read inside the message exactly when** it is there. -/
theorem parseValue_isSome (msg : StunMessage) (type off len : ℕ) :
    (parseValue msg type off len).isSome ↔ valueFits msg.buf.bytes type off len := by
  unfold parseValue
  split
  all_goals
    simp only [valueFits, valueKind, msg.buf.length_eq, Option.bind_eq_bind, Option.pure_def,
      isSome_bind_some, copy_isSome, stunGetMappedAddress_isSome, errorCodeAt_isSome,
      Bool.and_eq_true, Bool.or_eq_true, decide_eq_true_eq, Option.isSome_some]

/-- What an attribute changes: DATA is remembered, the buffer and the type of the message stay. -/
theorem parseValue_eq {msg msg' : StunMessage} {type off len : ℕ}
    (h : parseValue msg type off len = some msg') :
    msg'.buf = msg.buf ∧ msg'.stunclass = msg.stunclass ∧ msg'.stunmethod = msg.stunmethod ∧
      msg'.data = if type = 0x0013 then some (off, len) else msg.data := by
  unfold parseValue at h
  split at h
  all_goals
    simp only [Option.bind_eq_bind, Option.bind_eq_some_iff, Option.pure_def,
      Option.some.injEq] at h
  -- DATA, and what is skipped; the others change their own fields
  case h_6 =>
    obtain rfl := h
    exact ⟨rfl, rfl, rfl, rfl⟩
  case h_12 =>
    obtain rfl := h
    exact ⟨rfl, rfl, rfl, (if_neg (by assumption)).symm⟩
  all_goals
    obtain ⟨_, _, _, _, rfl⟩ := h
    exact ⟨rfl, rfl, rfl, rfl⟩

/-- A word of the message, where there is one. -/
theorem be16?_wordAt {n : ℕ} (a : CArray n) (pos : ℕ) :
    a.be16? pos = if pos + 2 ≤ n then some (wordAt a.bytes pos) else none := by
  rw [be16?, slice?]
  split
  · rfl
  · rfl

/-- The attribute at `pos`, as the reader sees it. -/
theorem parseAttr_isSome (msg : StunMessage) (pos : ℕ) :
    (parseAttr msg pos).isSome ↔ attrFits msg.buf.bytes pos := by
  have hvalue := parseValue_isSome msg (wordAt msg.buf.bytes pos) (pos + 4)
    (wordAt msg.buf.bytes (pos + 2))
  simp only [parseAttr, attrFits, be16?_wordAt, Option.bind_eq_bind, Option.pure_def,
    Bool.and_eq_true, decide_eq_true_eq, msg.buf.length_eq]
  by_cases hpos : pos + 2 + 2 ≤ stunAttrBufSize
  · rw [if_pos (by omega), if_pos hpos, Option.bind_some, Option.bind_some, isSome_bind_some,
      hvalue]
    exact (and_iff_right hpos).symm
  · refine iff_of_false ?_ fun h => hpos h.1
    split
    · exact Bool.false_ne_true
    · exact Bool.false_ne_true

/-- What the reader makes of it. -/
theorem parseAttr_eq {msg msg' : StunMessage} {pos pos' : ℕ}
    (h : parseAttr msg pos = some (msg', pos')) :
    pos' = nextAttr msg.buf.bytes pos ∧ msg'.buf = msg.buf ∧ msg'.stunclass = msg.stunclass ∧
      msg'.stunmethod = msg.stunmethod ∧
      msg'.data = if wordAt msg.buf.bytes pos = 0x0013 then
        some (pos + 4, wordAt msg.buf.bytes (pos + 2)) else msg.data := by
  have hword : ∀ {off v : ℕ}, msg.buf.be16? off = some v → wordAt msg.buf.bytes off = v := by
    intro off v hv
    rw [be16?_wordAt] at hv
    split at hv
    · exact Option.some.inj hv
    · cases hv
  simp only [parseAttr, Option.bind_eq_bind, Option.bind_eq_some_iff, Option.pure_def,
    Option.some.injEq, Prod.mk.injEq] at h
  obtain ⟨type, htype, len, hlen, m, hvalue, rfl, rfl⟩ := h
  obtain rfl := hword htype
  obtain rfl := hword hlen
  exact ⟨rfl, parseValue_eq hvalue⟩

/-- The loop leaves the buffer alone. -/
theorem parseAttrs_buf {length : ℕ} : ∀ {fuel pos : ℕ} {msg msg' : StunMessage},
    parseAttrs length fuel msg pos = some msg' → msg'.buf = msg.buf := by
  intro fuel
  induction fuel with
  | zero => exact nofun
  | succ fuel ih =>
    intro pos msg msg' h
    rw [parseAttrs] at h
    split at h
    · obtain ⟨⟨next, pos'⟩, hattr, hrest⟩ := Option.bind_eq_some_iff.mp h
      exact (ih hrest).trans (parseAttr_eq hattr).2.1
    · rw [Option.some.inj h]

/-- The reader leaves the buffer alone. -/
theorem stunParse_buf {msg msg' : StunMessage} (h : stunParse msg = some msg') :
    msg'.buf = msg.buf := by
  simp only [stunParse, Option.bind_eq_bind, Option.bind_eq_some_iff] at h
  obtain ⟨length, -, raw, -, hloop⟩ := h
  have hbuf := parseAttrs_buf hloop
  exact hbuf

/-! ## Nothing else is read -/

section Congr

variable {a b : CArray stunAttrBufSize}

/-- The buffers agree in what is read. -/
def Agree (a b : CArray stunAttrBufSize) (reads : List (ℕ × ℕ)) : Prop :=
  ∀ r ∈ reads, ∀ i < r.2, b.bytes[r.1 + i]? = a.bytes[r.1 + i]?

theorem agree_cons {off len : ℕ} {reads : List (ℕ × ℕ)} :
    Agree a b ((off, len) :: reads) ↔
      (∀ i < len, b.bytes[off + i]? = a.bytes[off + i]?) ∧ Agree a b reads :=
  List.forall_mem_cons

theorem agree_append {reads reads' : List (ℕ × ℕ)} :
    Agree a b (reads ++ reads') ↔ Agree a b reads ∧ Agree a b reads' :=
  List.forall_mem_append

/-- Bytes that agree make the same slice. -/
theorem take_drop_congr {off len : ℕ} (h : ∀ i < len, b.bytes[off + i]? = a.bytes[off + i]?) :
    (b.bytes.drop off).take len = (a.bytes.drop off).take len := by
  refine List.ext_getElem? fun i => ?_
  rw [List.getElem?_take, List.getElem?_take, List.getElem?_drop, List.getElem?_drop]
  split
  · next hi => exact h i hi
  · rfl

theorem slice?_congr {off len : ℕ} (h : ∀ i < len, b.bytes[off + i]? = a.bytes[off + i]?) :
    b.slice? off len = a.slice? off len := by
  rw [slice?, slice?, take_drop_congr h]

theorem byte?_congr {off : ℕ} (h : ∀ i < 1, b.bytes[off + i]? = a.bytes[off + i]?) :
    b.byte? off = a.byte? off :=
  congrArg (Option.map UInt8.toNat) (h 0 Nat.one_pos)

theorem be16?_congr {pos : ℕ} (h : ∀ i < 2, b.bytes[pos + i]? = a.bytes[pos + i]?) :
    b.be16? pos = a.be16? pos :=
  congrArg (Option.map beNat) (slice?_congr h)

theorem xorMask_congr (h : ∀ i < 12, b.bytes[8 + i]? = a.bytes[8 + i]?) :
    xorMask b = xorMask a := by
  rw [xorMask, xorMask, take_drop_congr h]

/-- An address depends on its family, its port and its bytes only. -/
theorem stunGetMappedAddress_congr {off : ℕ} (mask : List UInt8)
    (h : Agree a b [(off + 1, 1), (off + 2, 2),
      (off + 4, if a.bytes[off + 1]? = some 2 then 16 else 4)]) :
    stunGetMappedAddress b off mask = stunGetMappedAddress a off mask := by
  rw [agree_cons, agree_cons, agree_cons] at h
  obtain ⟨hfamily, hport, hvalue, -⟩ := h
  simp only [stunGetMappedAddress, byte?_congr hfamily, slice?_congr hport]
  cases hbyte : a.byte? (off + 1) with
  | none => rfl
  | some family =>
    have hiff := byte?_eq_two a hbyte
    by_cases htwo : family = 2
    · rw [if_pos (hiff.mp htwo)] at hvalue
      simp only [Option.bind_eq_bind, Option.bind_some, if_pos htwo, slice?_congr hvalue]
    · rw [if_neg (mt hiff.mpr htwo)] at hvalue
      simp only [Option.bind_eq_bind, Option.bind_some, if_neg htwo, slice?_congr hvalue]

/-- The same message over another buffer. -/
def StunMessage.withBuf (msg : StunMessage) (b : CArray stunAttrBufSize) : StunMessage :=
  { msg with buf := b }

theorem withBuf_buf (msg : StunMessage) : (msg.withBuf b).buf = b := rfl

/-- An error code depends on two bytes only. -/
theorem errorCodeAt_congr {msg : StunMessage} {off len : ℕ}
    (h : Agree msg.buf b (if 4 ≤ len then [(off + 2, 1), (off + 3, 1)] else [])) :
    errorCodeAt (msg.withBuf b) off len = errorCodeAt msg off len := by
  rw [errorCodeAt, errorCodeAt]
  split
  · next hlen =>
    rw [if_pos hlen, agree_cons, agree_cons] at h
    obtain ⟨hclass, hnumber, -⟩ := h
    rw [StunMessage.withBuf, byte?_congr hclass, byte?_congr hnumber]
  · rfl

/-- A value depends on what is read of it only. -/
theorem parseValue_congr {msg : StunMessage} {type off len : ℕ}
    (h : Agree msg.buf b (valueReads msg.buf.bytes type off len)) :
    parseValue (msg.withBuf b) type off len = (parseValue msg type off len).map (·.withBuf b) := by
  unfold parseValue
  split
  all_goals
    simp only [valueReads, valueKind, agree_append] at h
  -- DATA and what is skipped are not read; an error code, plain and masked addresses, and copies
  case h_6 | h_12 => rfl
  case h_4 =>
    rw [errorCodeAt_congr h, Option.bind_eq_bind, Option.map_bind]
    rfl
  case h_1 =>
    rw [withBuf_buf, stunGetMappedAddress_congr _ h.2, Option.bind_eq_bind, Option.map_bind]
    rfl
  case h_5 | h_9 | h_10 =>
    obtain ⟨hmask, haddr⟩ := h
    rw [if_pos trivial, agree_cons] at hmask
    rw [withBuf_buf, xorMask_congr hmask.1, stunGetMappedAddress_congr _ haddr,
      Option.bind_eq_bind, Option.map_bind]
    rfl
  all_goals
    rw [withBuf_buf, slice?_congr (agree_cons.mp h).1]
    cases msg.buf.slice? off len with
    | none => rfl
    | some bytes =>
      simp only [Option.bind_eq_bind, Option.bind_some, Option.map_bind]
      rfl

/-- An attribute depends on its header and its value only. -/
theorem parseAttr_congr {msg : StunMessage} {pos : ℕ}
    (h : Agree msg.buf b (attrReads msg.buf.bytes pos)) :
    parseAttr (msg.withBuf b) pos = (parseAttr msg pos).map fun x => (x.1.withBuf b, x.2) := by
  rw [attrReads, agree_cons, agree_cons] at h
  obtain ⟨htype, hlen, hvalue⟩ := h
  have hlenAt := be16?_wordAt msg.buf (pos + 2)
  have htypeAt := be16?_wordAt msg.buf pos
  simp only [parseAttr, withBuf_buf, be16?_congr htype, be16?_congr hlen, htypeAt, hlenAt]
  split
  · split
    · simp only [Option.bind_eq_bind, Option.bind_some, parseValue_congr hvalue]
      cases parseValue msg (wordAt msg.buf.bytes pos) (pos + 4)
          (wordAt msg.buf.bytes (pos + 2)) with
      | none => rfl
      | some m => rfl
    · rfl
  · rfl

/-- So does the loop over all of them. -/
theorem parseAttrs_congr {length : ℕ} : ∀ {fuel pos : ℕ} {msg : StunMessage},
    Agree msg.buf b (walkReads msg.buf.bytes length fuel pos) →
      parseAttrs length fuel (msg.withBuf b) pos =
        (parseAttrs length fuel msg pos).map (·.withBuf b) := by
  intro fuel
  induction fuel with
  | zero => exact fun _ => rfl
  | succ fuel ih =>
    intro pos msg h
    rw [parseAttrs, parseAttrs]
    rw [walkReads] at h
    split
    · next hpos =>
      rw [if_pos hpos, agree_append] at h
      obtain ⟨hattr, hrest⟩ := h
      rw [parseAttr_congr hattr]
      cases hparse : parseAttr msg pos with
      | none => rfl
      | some x =>
        obtain ⟨next, pos'⟩ := x
        obtain ⟨rfl, hbuf, -⟩ := parseAttr_eq hparse
        exact ih (hbuf ▸ hrest)
    · rfl

/-- **Nothing else is read**: over a buffer that agrees in these bytes the message comes out the
same. -/
theorem stunParse_congr {msg : StunMessage}
    (h : Agree msg.buf b (parseReads msg.buf.bytes)) :
    stunParse (msg.withBuf b) = (stunParse msg).map (·.withBuf b) := by
  rw [parseReads, agree_cons, agree_cons] at h
  obtain ⟨hlength, htype, hwalk⟩ := h
  have hloop : ∀ m : StunMessage, m.buf = msg.buf →
      parseAttrs (wordAt msg.buf.bytes 2 + stunHeaderSize) maxAttrs (m.withBuf b) stunHeaderSize =
        (parseAttrs (wordAt msg.buf.bytes 2 + stunHeaderSize) maxAttrs m stunHeaderSize).map
          (·.withBuf b) :=
    fun m hm => parseAttrs_congr (hm ▸ hwalk)
  rw [stunParse, stunParse, withBuf_buf, be16?_congr hlength, be16?_congr htype, be16?_wordAt,
    be16?_wordAt, if_pos (by decide), if_pos (by decide)]
  exact hloop
    { msg with
      stunclass := stunClassOf (wordAt msg.buf.bytes 0)
      stunmethod := stunMethodOf (wordAt msg.buf.bytes 0)
      data := none
      errorCode := 0
      peerAddr := .zero } rfl

end Congr

/-! ## What was received, and what lies behind it -/

section Received

variable {e rest : List UInt8}

/-- A word that was received is not changed by what lies behind. -/
theorem wordAt_append {pos : ℕ} (h : pos + 2 ≤ e.length) :
    wordAt (e ++ rest) pos = wordAt e pos := by
  rw [wordAt, wordAt, List.drop_append_of_le_length (by omega), List.take_append_of_le_length]
  rw [List.length_drop]
  omega

/-- **A value of what was received** is there if the reader finds it and stays inside. -/
theorem valueFits_append {type off len : ℕ} (h : stunHeaderSize ≤ e.length)
    (hoff : off ≤ e.length) :
    valueFits e type off len ↔
      valueFits (e ++ rest) type off len ∧
        Inside e.length (valueReads (e ++ rest) type off len) := by
  have hsize : stunHeaderSize = 20 := rfl
  simp only [valueFits, valueReads]
  cases valueKind type with
  | skipped => simp only [inside_nil, and_true]
  | copied room =>
    simp only [inside_cons, inside_nil, and_true, Bool.and_eq_true, decide_eq_true_eq,
      List.length_append]
    omega
  | errorCode =>
    simp only [Bool.or_eq_true, decide_eq_true_eq, List.length_append]
    split
    · simp only [inside_cons, inside_nil, and_true]
      omega
    · simp only [inside_nil, and_true]
      omega
  | address xored =>
    -- the mask is in the header, which was received
    have hmask : Inside e.length (if xored then [(8, 12)] else []) := by
      split
      · simp only [inside_cons, inside_nil, and_true]
        omega
      · exact inside_nil _
    simp only [inside_append, hmask, inside_cons, inside_nil, decide_eq_true_eq,
      List.length_append, true_and, and_true]
    by_cases hfamily : off + 1 < e.length
    · rw [List.getElem?_append_left hfamily]
      by_cases htwo : e[off + 1]? = some 2
      · simp only [if_pos htwo]
        omega
      · simp only [if_neg htwo]
        omega
    · -- its family was not received
      refine iff_of_false ?_ ?_
      · split <;> omega
      · omega

/-- **An attribute of what was received.** -/
theorem attrFits_append {pos : ℕ} (h : stunHeaderSize ≤ e.length) :
    attrFits e pos ↔
      attrFits (e ++ rest) pos ∧ Inside e.length (attrReads (e ++ rest) pos) := by
  simp only [attrFits, attrReads, inside_cons, Bool.and_eq_true, decide_eq_true_eq,
    List.length_append]
  by_cases hpos : pos + 4 ≤ e.length
  · have hvalue := @valueFits_append e rest (wordAt e pos) (pos + 4) (wordAt e (pos + 2)) h hpos
    rw [wordAt_append (by omega), wordAt_append (by omega), hvalue]
    refine ⟨?_, ?_⟩
    · rintro ⟨-, hfits, hinside⟩
      exact ⟨⟨by omega, hfits⟩, .inr (by omega), .inr (by omega), hinside⟩
    · rintro ⟨⟨-, hfits⟩, -, -, hinside⟩
      exact ⟨hpos, hfits, hinside⟩
  · exact iff_of_false (fun h => hpos h.1) fun h => by omega

/-- An attribute that is there has its header. -/
theorem header_of_attrFits {pos : ℕ} (h : attrFits e pos) : pos + 4 ≤ e.length := by
  rw [attrFits, Bool.and_eq_true, decide_eq_true_eq] at h
  exact h.1

/-- The next attribute begins where it does in what was received. -/
theorem nextAttr_append {pos : ℕ} (h : pos + 4 ≤ e.length) :
    nextAttr (e ++ rest) pos = nextAttr e pos := by
  rw [nextAttr, nextAttr, wordAt_append (by omega)]

/-! ## The loop -/

/-- An attribute whose header was received. -/
structure Attr where
  /-- its type -/
  type : ℕ
  /-- where its value begins -/
  off : ℕ
  /-- the length of the value -/
  len : ℕ

/-- The attributes whose headers were received, from `pos` on. -/
def attrsFrom (bytes : List UInt8) (length : ℕ) : ℕ → ℕ → List Attr
  | 0, _ => []
  | fuel + 1, pos =>
    if pos < length ∧ pos + 4 ≤ bytes.length then
      ⟨wordAt bytes pos, pos + 4, wordAt bytes (pos + 2)⟩ ::
        attrsFrom bytes length fuel (nextAttr bytes pos)
    else []

/-- The attributes of a message. -/
def attrs (bytes : List UInt8) : List Attr :=
  attrsFrom bytes (wordAt bytes 2 + stunHeaderSize) maxAttrs stunHeaderSize

/-- The attribute is DATA. -/
def Attr.isData (a : Attr) : Bool := a.type = 0x0013

/-- The last DATA attribute: the reader keeps the last. -/
def lastData (as : List Attr) : Option Attr := as.reverse.find? Attr.isData

/-- A later DATA attribute counts, if there is one. -/
theorem lastData_cons (a : Attr) (as : List Attr) :
    lastData (a :: as) = (lastData as).or (if a.isData then some a else none) := by
  rw [lastData, List.reverse_cons, List.find?_append, List.find?_singleton]
  rfl

theorem mem_of_lastData {as : List Attr} {a : Attr} (h : lastData as = some a) :
    a ∈ as ∧ a.isData :=
  ⟨List.mem_reverse.mp (List.mem_of_find?_eq_some h), List.find?_some h⟩

/-- Behind an attribute that runs past the end there is none. -/
theorem lastData_of_past {length : ℕ} : ∀ {fuel pos : ℕ} {a : Attr},
    a ∈ attrsFrom e length fuel pos → a.isData → e.length < a.off + a.len →
      lastData (attrsFrom e length fuel pos) = some a := by
  intro fuel
  induction fuel with
  | zero => exact nofun
  | succ fuel ih =>
    intro pos a ha hdata hpast
    rw [attrsFrom] at ha ⊢
    split at ha
    · next hpos =>
      rw [if_pos hpos, lastData_cons]
      obtain rfl | ha := List.mem_cons.mp ha
      · -- the next one would begin behind the end
        have hend : attrsFrom e length fuel (nextAttr e pos) = [] := by
          cases fuel with
          | zero => rfl
          | succ fuel =>
            refine if_neg fun hnext => ?_
            rw [nextAttr] at hnext
            simp only at hpast
            omega
        rw [hend, if_pos hdata]
        rfl
      · rw [ih ha hdata hpast]
        rfl
    · cases ha

/-- Where the reader has found the payload. -/
def Attr.range (a : Attr) : ℕ × ℕ := (a.off, a.len)

/-- **The loop over what was received**: it ends, and its payload is that of the last DATA. -/
theorem parseAttrs_of_fits (h : stunHeaderSize ≤ e.length) {length : ℕ} :
    ∀ {fuel pos : ℕ} {msg : StunMessage}, msg.buf.bytes = e ++ rest →
      fitsFrom e length fuel pos →
      Inside e.length (walkReads (e ++ rest) length fuel pos) ∧
        ∃ msg', parseAttrs length fuel msg pos = some msg' ∧ msg'.buf = msg.buf ∧
          msg'.stunclass = msg.stunclass ∧ msg'.stunmethod = msg.stunmethod ∧
          msg'.data = ((lastData (attrsFrom e length fuel pos)).map Attr.range).or msg.data := by
  intro fuel
  induction fuel with
  | zero => exact nofun
  | succ fuel ih =>
    intro pos msg hbuf hfits
    rw [fitsFrom] at hfits
    rw [walkReads, parseAttrs, attrsFrom]
    by_cases hpos : pos < length
    · rw [if_pos hpos, Bool.and_eq_true] at hfits
      obtain ⟨hattr, hrest⟩ := hfits
      have hheader := header_of_attrFits hattr
      obtain ⟨hfull, hreads⟩ := (@attrFits_append e rest pos h).mp hattr
      rw [← hbuf, ← parseAttr_isSome] at hfull
      obtain ⟨⟨next, pos'⟩, hparse⟩ := Option.isSome_iff_exists.mp hfull
      obtain ⟨rfl, hsame, hclass, hmethod, hdata⟩ := parseAttr_eq hparse
      rw [hbuf, nextAttr_append hheader] at hparse
      rw [hbuf, wordAt_append (by omega), wordAt_append (by omega)] at hdata
      obtain ⟨hinside, msg', hloop, hsame', hclass', hmethod', hdata'⟩ :=
        ih (hsame ▸ hbuf) hrest
      rw [if_pos hpos, if_pos hpos, if_pos ⟨hpos, hheader⟩, nextAttr_append hheader,
        inside_append]
      refine ⟨⟨hreads, hinside⟩, msg', ?_, hsame'.trans hsame, hclass'.trans hclass,
        hmethod'.trans hmethod, ?_⟩
      · rw [hparse]
        exact hloop
      · rw [hdata', hdata, lastData_cons]
        cases lastData (attrsFrom e length fuel (nextAttr e pos)) with
        | some a => rfl
        | none =>
          by_cases htype : wordAt e pos = 0x0013
          · simp only [Attr.isData, htype, decide_true, if_true]
            rfl
          · simp only [Attr.isData, htype, decide_false, if_false, Bool.false_eq_true]
            rfl
    · rw [if_neg hpos, if_neg hpos, if_neg fun hboth => hpos hboth.1]
      exact ⟨inside_nil _, msg, rfl, rfl, rfl, rfl, rfl⟩

/-- The loop that stays inside of what was received finds every attribute there. -/
theorem fits_of_parseAttrs (h : stunHeaderSize ≤ e.length) {length : ℕ} :
    ∀ {fuel pos : ℕ} {msg : StunMessage}, msg.buf.bytes = e ++ rest →
      (parseAttrs length fuel msg pos).isSome →
      Inside e.length (walkReads (e ++ rest) length fuel pos) → fitsFrom e length fuel pos := by
  intro fuel
  induction fuel with
  | zero => exact nofun
  | succ fuel ih =>
    intro pos msg hbuf hsome hinside
    rw [parseAttrs] at hsome
    rw [walkReads] at hinside
    rw [fitsFrom]
    by_cases hpos : pos < length
    · rw [if_pos hpos] at hsome hinside
      obtain ⟨hattr, hwalk⟩ := inside_append.mp hinside
      obtain ⟨msg', hloop⟩ := Option.isSome_iff_exists.mp hsome
      obtain ⟨⟨next, pos'⟩, hparse, hrest⟩ := Option.bind_eq_some_iff.mp hloop
      obtain ⟨rfl, hsame, -⟩ := parseAttr_eq hparse
      have hfull : attrFits (e ++ rest) pos := by
        rw [← hbuf, ← parseAttr_isSome, hparse]
        rfl
      have hfits := (attrFits_append h).mpr ⟨hfull, hattr⟩
      have hheader := header_of_attrFits hfits
      rw [hbuf, nextAttr_append hheader] at hrest
      rw [nextAttr_append hheader] at hwalk
      rw [if_pos hpos, hfits, Bool.true_and]
      exact ih (hsame ▸ hbuf) (Option.isSome_of_eq_some hrest) hwalk
    · rw [if_neg hpos]

/-- Then the type is that of the header, and the payload that of the last DATA. -/
theorem stunParse_of_fits {msg : StunMessage} (h : stunHeaderSize ≤ e.length)
    (hbuf : msg.buf.bytes = e ++ rest) (hfits : Fits e) :
    Inside e.length (parseReads (e ++ rest)) ∧
      ∃ msg', stunParse msg = some msg' ∧ msg'.buf = msg.buf ∧
        msg'.stunclass = stunClassOf (wordAt e 0) ∧ msg'.stunmethod = stunMethodOf (wordAt e 0) ∧
        msg'.data = (lastData (attrs e)).map Attr.range := by
  have hsize : stunHeaderSize = 20 := rfl
  have hlong : e.length ≤ stunAttrBufSize := by
    rw [← msg.buf.length_eq, hbuf, List.length_append]
    exact Nat.le_add_right _ _
  have hword : ∀ pos, pos + 2 ≤ 20 → msg.buf.be16? pos = some (wordAt e pos) := by
    intro pos hpos
    rw [be16?_wordAt, if_pos (by omega), hbuf, wordAt_append (by omega)]
  obtain ⟨hinside, msg', hloop, hsame, hclass, hmethod, hdata⟩ := parseAttrs_of_fits h
    (show CArray.bytes (StunMessage.buf { msg with
      stunclass := stunClassOf (wordAt e 0)
      stunmethod := stunMethodOf (wordAt e 0)
      data := none
      errorCode := 0
      peerAddr := .zero }) = e ++ rest from hbuf) hfits
  refine ⟨?_, msg', ?_, hsame, hclass, hmethod, ?_⟩
  · rw [parseReads, inside_cons, inside_cons, wordAt_append (by omega)]
    exact ⟨.inr (by omega), .inr (by omega), hinside⟩
  · rw [stunParse, hword 2 (by decide), hword 0 (by decide)]
    exact hloop
  · rw [hdata, Option.or_none]
    rfl

/-- **The reader stays inside of what was received exactly when** every attribute is there, up
to the length in the header and as far as its type is read. -/
theorem stunParse_inside_iff {msg : StunMessage} (h : stunHeaderSize ≤ e.length)
    (hbuf : msg.buf.bytes = e ++ rest) :
    (stunParse msg).isSome ∧ Inside e.length (parseReads (e ++ rest)) ↔ Fits e := by
  have hsize : stunHeaderSize = 20 := rfl
  refine ⟨?_, ?_⟩
  · rintro ⟨hsome, hinside⟩
    obtain ⟨-, -, hwalk⟩ := inside_cons.mp hinside |>.imp_right inside_cons.mp
    obtain ⟨msg', hparse⟩ := Option.isSome_iff_exists.mp hsome
    simp only [stunParse, Option.bind_eq_bind, Option.bind_eq_some_iff] at hparse
    obtain ⟨length, hlength, raw, -, hloop⟩ := hparse
    rw [be16?_wordAt] at hlength
    split at hlength
    · obtain rfl := Option.some.inj hlength
      rw [hbuf, wordAt_append (by omega)] at hloop
      rw [wordAt_append (by omega)] at hwalk
      refine fits_of_parseAttrs h ?_ (Option.isSome_of_eq_some hloop) hwalk
      exact hbuf
    · cases hlength
  · intro hfits
    obtain ⟨hinside, msg', hparse, -⟩ := stunParse_of_fits h hbuf hfits
    exact ⟨Option.isSome_of_eq_some hparse, hinside⟩

end Received

end PipecatVoice
