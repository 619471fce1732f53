import Mathlib.Data.List.DropRight
import PipecatVoice.Rtp

/-!
# H.264 over RTP

A video frame comes as a stream of NAL units, each behind a start code. A unit that fits is
sent as it is, a longer one in fragments; the decoder puts the fragments together in a buffer
of ten kilobytes, and there is no test that the last of them fits.

* `h264FindNalu`, `encodeH264` — the way out, with `encodeH264Single` and `encodeH264FuA`;
* `decodeH264` — the way back;
* `decode_encode_h264` — what comes back of a stream.
-/

namespace PipecatVoice

open CArray

/-- `RTP_PAYLOAD_SIZE` -/
def rtpPayloadSize : ℕ := configMtu - rtpHeaderSize

/-- `FU_PAYLOAD_SIZE` -/
def fuPayloadSize : ℕ := configMtu - rtpHeaderSize - 1 - 1

/-- `CONFIG_MAX_NALU_SIZE` -/
def configMaxNaluSize : ℕ := 10 * 1024

/-- A picture, or a part of one that others are predicted from. -/
def isPicture (header : UInt8) : Bool := header &&& 0x1f == 0x05 || header &&& 0x1f == 0x01

/-- The encoder's members behind a packet. -/
def RtpEncoder.sent (e : RtpEncoder) : RtpEncoder := { e with seqNumber := e.seqNumber + 1 }

/-- The encoder's members behind a NAL unit with this first byte. -/
def RtpEncoder.ticked (e : RtpEncoder) (header : UInt8) : RtpEncoder :=
  if isPicture header then { e with timestamp := e.timestamp + e.timestampIncrement } else e

/-- `rtp_encoder_encode_h264_single`; of an empty unit, `first` is the byte behind it. -/
def encodeH264Single (e : RtpEncoder) (first : UInt8) (nalu : List UInt8) :
    RtpEncoder × List (List UInt8) :=
  ((e.sent).ticked first, [(e.header (isPicture first)).bytes ++ nalu])

/-- The two bytes in front of a fragment of a unit with this first byte. -/
def fuHeaders (header : UInt8) (s e : Bool) : List UInt8 :=
  [(header &&& 0x60) ||| 28,
    (header &&& 0x1f) ||| (if e then 0x40 else 0) ||| (if s then 0x80 else 0)]

/-- The loop of `rtp_encoder_encode_h264_fu_a`; all fragments have the timestamp that the
encoder had before the unit. -/
def fuALoop (e : RtpEncoder) (timestamp : UInt32) (header : UInt8) (s : Bool)
    (buf : List UInt8) : RtpEncoder × List (List UInt8) :=
  if buf.length = 0 then (e, [])
  else if buf.length ≤ fuPayloadSize then
    (e.sent, [({ e.header true with timestamp := timestamp }).bytes ++
      fuHeaders header s true ++ buf])
  else
    let rest := fuALoop e.sent timestamp header false (buf.drop fuPayloadSize)
    (rest.1, (({ e.header false with timestamp := timestamp }).bytes ++
      fuHeaders header s false ++ buf.take fuPayloadSize) :: rest.2)
termination_by buf.length
decreasing_by
  rw [List.length_drop]
  have : 0 < fuPayloadSize := by decide
  omega

/-- `rtp_encoder_encode_h264_fu_a`, of a unit and its first byte. -/
def encodeH264FuA (e : RtpEncoder) (header : UInt8) (nalu : List UInt8) :
    RtpEncoder × List (List UInt8) :=
  fuALoop (e.ticked header) e.timestamp header true (nalu.drop 1)

/-- `h264_find_nalu`: how far it is to what is behind the next start code, or to the end. -/
def h264FindNalu : List UInt8 → ℕ
  | 0x00 :: 0x00 :: 0x01 :: _ => 3
  | _ :: rest => h264FindNalu rest + 1
  | [] => 0

theorem h264FindNalu_pos (b : UInt8) (rest : List UInt8) : 0 < h264FindNalu (b :: rest) := by
  rw [h264FindNalu.eq_def]
  split
  · decide
  · exact Nat.succ_pos _
  · contradiction

/-- The unit that begins at `pstart`, up to `pend`: without what belongs to the next start
code, and without zeros at its end. An empty one ends at the 1 of its own start code. -/
def naluAt (pstart : List UInt8) (pend : ℕ) : List UInt8 :=
  (pstart.take (if pend ≠ pstart.length then pend - 1 else pend)).rdropWhile (· == 0)

/-- One unit in a packet, or in several. -/
def encodeNalu (e : RtpEncoder) (first : UInt8) (nalu : List UInt8) :
    RtpEncoder × List (List UInt8) :=
  if nalu.length ≤ rtpPayloadSize then encodeH264Single e first nalu
  else encodeH264FuA e first nalu

/-- The loop of `rtp_encoder_encode_h264`, from `pstart` on. -/
def encodeH264Loop (e : RtpEncoder) : List UInt8 → RtpEncoder × List (List UInt8)
  | [] => (e, [])
  | first :: rest =>
    let pend := h264FindNalu (first :: rest)
    let unit := encodeNalu e first (naluAt (first :: rest) pend)
    let more := encodeH264Loop unit.1 ((first :: rest).drop pend)
    (more.1, unit.2 ++ more.2)
termination_by pstart => pstart.length
decreasing_by
  rw [List.length_drop, List.length_cons]
  have := h264FindNalu_pos first rest
  omega

/-- `rtp_encoder_encode_h264` -/
def encodeH264 (e : RtpEncoder) (buf : List UInt8) : RtpEncoder × List (List UInt8) :=
  encodeH264Loop e (buf.drop (h264FindNalu buf))

/-! ## The decoder -/

/-- The static members of `rtp_decode_h264`. -/
structure H264Decoder where
  naluBuf : CArray configMaxNaluSize
  offset : ℕ

/-- `nalu_start_4bytecode` -/
def naluStart : List UInt8 := [0, 0, 0, 1]

/-- `rtp_decode_h264` of a packet, and of what is behind it in the buffer: the decoder after
it, and what `on_packet` gets; `none` where it leaves a buffer. -/
def decodeH264 (d : H264Decoder) (packet behind : List UInt8) :
    Option (H264Decoder × Option (List UInt8)) := do
  let payload := packet.drop rtpHeaderSize
  let indicator ← (payload ++ behind)[0]?
  if 0 < indicator &&& 0x1f ∧ indicator &&& 0x1f < 24 then
    let buf ← d.naluBuf.write? 0 naluStart
    let buf ← buf.write? 4 payload
    pure (⟨buf, 4 + payload.length⟩, some (buf.bytes.take (4 + payload.length)))
  else
    let fu ← (payload ++ behind)[1]?
    -- the length of what is copied would be negative
    if payload.length < 2 then none
    else if fu &&& 0x80 ≠ 0 then
      let buf ← d.naluBuf.write? 0 naluStart
      let buf ← buf.write? 4 [(indicator &&& 0xe0) ||| (fu &&& 0x1f)]
      let buf ← buf.write? 5 (payload.drop 2)
      pure (⟨buf, 5 + (payload.drop 2).length⟩, none)
    else if d.offset < configMaxNaluSize then
      let buf ← d.naluBuf.write? d.offset (payload.drop 2)
      let offset := d.offset + (payload.drop 2).length
      if fu &&& 0x40 ≠ 0 then pure (⟨buf, 0⟩, some (buf.bytes.take offset))
      else pure (⟨buf, offset⟩, none)
    else pure (d, none)

/-- One packet after the other, each with what is behind it in the buffer. -/
def decodeRun (d : H264Decoder) :
    List (List UInt8 × List UInt8) → Option (H264Decoder × List (List UInt8))
  | [] => some (d, [])
  | (packet, behind) :: received => do
    let (d, unit) ← decodeH264 d packet behind
    let (d, units) ← decodeRun d received
    pure (d, unit.toList ++ units)

/-! ## Start codes -/

/-- A NAL unit as encoders make them: of a type that is sent as it is, and with nothing in it
that looks like a start code or the zeros in front of one. -/
structure IsNalu (nalu : List UInt8) : Prop where
  /-- the first byte has its highest bit clear and one of the types 1 to 23 -/
  header : ∃ header data, nalu = header :: data ∧ header < 128 ∧
    0 < header &&& 0x1f ∧ header &&& 0x1f < 24
  code : ¬ [0, 0, 1] <:+: nalu
  last : nalu.getLast? ≠ some 0

/-- A stream of units, each behind a start code with any number of zeros in front. -/
def annexB (units : List (ℕ × List UInt8)) : List UInt8 :=
  units.flatMap fun u => List.replicate (u.1 + 2) 0 ++ 1 :: u.2

theorem h264FindNalu_cons {b : UInt8} {rest : List UInt8}
    (h : b = 0 → ¬ [0, 1] <+: rest) : h264FindNalu (b :: rest) = h264FindNalu rest + 1 := by
  rw [h264FindNalu.eq_2]
  intro tail hb hrest
  exact h hb ⟨tail, hrest.symm⟩

/-- No start code begins in a unit. -/
theorem h264FindNalu_append {nalu : List UInt8} (hcode : ¬ [0, 0, 1] <:+: nalu)
    (hlast : nalu.getLast? ≠ some 0) (rest : List UInt8) :
    h264FindNalu (nalu ++ rest) = nalu.length + h264FindNalu rest := by
  induction nalu with
  | nil => rw [List.nil_append, List.length_nil, Nat.zero_add]
  | cons b nalu ih =>
    have hrest : h264FindNalu (nalu ++ rest) = nalu.length + h264FindNalu rest := by
      refine ih (fun h => hcode (h.trans (List.suffix_cons b nalu).isInfix)) fun h => hlast ?_
      obtain ⟨l, hl⟩ := List.getLast?_eq_some_iff.mp h
      rw [hl, ← List.cons_append, List.getLast?_concat]
    have hnone : b = 0 → ¬ [0, 1] <+: nalu ++ rest := by
      rintro rfl ⟨tail, htail⟩
      match nalu with
      | [] => exact hlast rfl
      | [c] =>
        obtain ⟨rfl, -⟩ := List.cons.inj htail
        exact hlast rfl
      | c :: d :: nalu =>
        obtain ⟨rfl, htail'⟩ := List.cons.inj htail
        obtain ⟨rfl, -⟩ := List.cons.inj htail'
        exact hcode ⟨[], nalu, rfl⟩
    rw [List.cons_append, h264FindNalu_cons hnone, hrest, List.length_cons]
    omega

theorem h264FindNalu_code (k : ℕ) (rest : List UInt8) :
    h264FindNalu (List.replicate (k + 2) 0 ++ 1 :: rest) = k + 3 := by
  induction k with
  | zero => rfl
  | succ k ih =>
    have hnone : (0 : UInt8) = 0 → ¬ [0, 1] <+: List.replicate (k + 2) 0 ++ 1 :: rest := by
      rintro - ⟨tail, htail⟩
      rw [List.replicate_succ, List.replicate_succ] at htail
      simp at htail
    rw [List.replicate_succ, List.cons_append, h264FindNalu_cons hnone, ih]

theorem h264FindNalu_replicate (k : ℕ) : h264FindNalu (List.replicate k 0) = k := by
  induction k with
  | zero => rfl
  | succ k ih =>
    have hnone : (0 : UInt8) = 0 → ¬ [0, 1] <+: List.replicate k (0 : UInt8) := by
      rintro - ⟨tail, htail⟩
      have hone : (1 : UInt8) ∈ List.replicate k 0 := by
        rw [← htail]
        simp
      exact absurd (List.eq_of_mem_replicate hone) (by decide)
    rw [List.replicate_succ, h264FindNalu_cons hnone, ih]

/-- The zeros behind a unit are taken off. -/
theorem rdropWhile_append_replicate {nalu : List UInt8} (hlast : nalu.getLast? ≠ some 0) (k : ℕ) :
    (nalu ++ List.replicate k 0).rdropWhile (· == 0) = nalu := by
  induction k with
  | zero =>
    rw [List.replicate_zero, List.append_nil, List.rdropWhile_eq_self_iff]
    intro hne hzero
    rw [List.getLast?_eq_some_getLast hne, beq_iff_eq.mp hzero] at hlast
    exact hlast rfl
  | succ k ih =>
    rw [List.replicate_succ', ← List.append_assoc, List.rdropWhile_concat_pos _ _ _ rfl, ih]

/-- The units of a frame, one after the other. -/
def encodeNalus (e : RtpEncoder) : List (List UInt8) → RtpEncoder × List (List UInt8)
  | [] => (e, [])
  | nalu :: nalus =>
    let unit := encodeNalu e (nalu.headD 0) nalu
    let more := encodeNalus unit.1 nalus
    (more.1, unit.2 ++ more.2)

/-- The loop takes a unit out of the stream. -/
theorem encodeH264Loop_cons (e : RtpEncoder) {nalu : List UInt8} (h : IsNalu nalu)
    {rest : List UInt8} {pend : ℕ} (hpend : h264FindNalu (nalu ++ rest) = pend)
    (hnalu : naluAt (nalu ++ rest) pend = nalu) :
    encodeH264Loop e (nalu ++ rest) =
      let unit := encodeNalu e (nalu.headD 0) nalu
      let more := encodeH264Loop unit.1 ((nalu ++ rest).drop pend)
      (more.1, unit.2 ++ more.2) := by
  obtain ⟨header, data, rfl, -⟩ := h.header
  rw [List.cons_append] at hpend hnalu ⊢
  rw [encodeH264Loop, hpend, hnalu]
  rfl

theorem encodeH264Loop_annexB (units : List (ℕ × List UInt8)) (zeros : ℕ)
    (h : ∀ u ∈ units, IsNalu u.2) :
    ∀ (e : RtpEncoder) {nalu : List UInt8}, IsNalu nalu →
      encodeH264Loop e (nalu ++ (annexB units ++ List.replicate zeros 0)) =
        encodeNalus e (nalu :: units.map Prod.snd) := by
  induction units with
  | nil =>
    intro e nalu hnalu
    have hpend : h264FindNalu (nalu ++ List.replicate zeros 0) =
        (nalu ++ List.replicate zeros 0).length := by
      rw [h264FindNalu_append hnalu.code hnalu.last, h264FindNalu_replicate, List.length_append,
        List.length_replicate]
    have htaken : naluAt (nalu ++ List.replicate zeros 0)
        (nalu ++ List.replicate zeros 0).length = nalu := by
      rw [naluAt, if_neg (not_not.mpr rfl), List.take_length,
        rdropWhile_append_replicate hnalu.last]
    rw [annexB, List.flatMap_nil, List.nil_append, encodeH264Loop_cons e hnalu hpend htaken,
      List.drop_length]
    simp only [encodeH264Loop]
    rfl
  | cons u units ih =>
    intro e nalu hnalu
    obtain ⟨k, next⟩ := u
    have hnext : IsNalu next := h _ List.mem_cons_self
    have hrest := ih (fun u hu => h u (List.mem_cons_of_mem _ hu))
    have hstream : annexB ((k, next) :: units) ++ List.replicate zeros 0 =
        List.replicate (k + 2) 0 ++ 1 :: (next ++ (annexB units ++ List.replicate zeros 0)) := by
      simp [annexB]
    have hpend : h264FindNalu (nalu ++ (annexB ((k, next) :: units) ++ List.replicate zeros 0)) =
        nalu.length + (k + 3) := by
      rw [hstream, h264FindNalu_append hnalu.code hnalu.last, h264FindNalu_code]
    have hzeros : (nalu ++ List.replicate (k + 2) 0).length = nalu.length + (k + 3) - 1 := by
      rw [List.length_append, List.length_replicate]
      rfl
    have htaken : naluAt (nalu ++ (annexB ((k, next) :: units) ++ List.replicate zeros 0))
        (nalu.length + (k + 3)) = nalu := by
      obtain ⟨header, data, rfl, -⟩ := hnext.header
      rw [naluAt, if_pos, hstream, ← List.append_assoc, List.take_left' hzeros,
        rdropWhile_append_replicate hnalu.last]
      rw [hstream]
      simp only [List.length_append, List.length_replicate, List.length_cons]
      omega
    have hdrop : (nalu ++ (annexB ((k, next) :: units) ++ List.replicate zeros 0)).drop
        (nalu.length + (k + 3)) = next ++ (annexB units ++ List.replicate zeros 0) := by
      rw [hstream, List.append_cons _ 1, ← List.append_assoc]
      refine List.drop_left' ?_
      simp only [List.length_append, List.length_replicate, List.length_singleton]
    rw [encodeH264Loop_cons e hnalu hpend htaken, hdrop]
    simp only [hrest _ hnext]
    rfl

/-- **The units are found**: a stream is sent unit by unit. -/
theorem encodeH264_annexB (e : RtpEncoder) {units : List (ℕ × List UInt8)} (zeros : ℕ)
    (h : ∀ u ∈ units, IsNalu u.2) :
    encodeH264 e (annexB units ++ List.replicate zeros 0) =
      encodeNalus e (units.map Prod.snd) := by
  cases units with
  | nil =>
    rw [annexB, List.flatMap_nil, List.nil_append, encodeH264, h264FindNalu_replicate,
      List.drop_of_length_le (List.length_replicate.le)]
    simp only [encodeH264Loop]
    rfl
  | cons u units =>
    obtain ⟨k, nalu⟩ := u
    have hstream : annexB ((k, nalu) :: units) ++ List.replicate zeros 0 =
        List.replicate (k + 2) 0 ++ 1 :: (nalu ++ (annexB units ++ List.replicate zeros 0)) := by
      simp [annexB]
    rw [encodeH264, hstream, h264FindNalu_code, List.append_cons _ 1,
      List.drop_left' (by simp), encodeH264Loop_annexB units zeros
        (fun u hu => h u (List.mem_cons_of_mem _ hu)) e (h _ List.mem_cons_self)]
    rfl

/-! ## Back to units -/

/-- What a decoder has of a unit. -/
def H264Decoder.Holds (d : H264Decoder) (unit : List UInt8) : Prop :=
  d.naluBuf.bytes.take unit.length = unit ∧ d.offset = unit.length

/-- The bytes in front of a fragment, taken apart again. -/
theorem fuHeaders_eq {header : UInt8} (h : header < 128) (s e : Bool) :
    ∃ indicator fu, fuHeaders header s e = [indicator, fu] ∧ indicator &&& 0x1f = 28 ∧
      (indicator &&& 0xe0) ||| (fu &&& 0x1f) = header ∧ (fu &&& 0x80 ≠ 0 ↔ s) ∧
        (fu &&& 0x40 ≠ 0 ↔ e) := by
  have hall : ∀ b < 128, ∀ s e : Bool,
      (((UInt8.ofNat b &&& 0x60) ||| 28) &&& 0x1f = 28) ∧
      ((((UInt8.ofNat b &&& 0x60) ||| 28) &&& 0xe0) ||| (((UInt8.ofNat b &&& 0x1f) |||
        (if e then 0x40 else 0) ||| (if s then 0x80 else 0)) &&& 0x1f)) = UInt8.ofNat b ∧
      (((UInt8.ofNat b &&& 0x1f) ||| (if e then 0x40 else 0) |||
        (if s then 0x80 else 0)) &&& 0x80 ≠ 0 ↔ s) ∧
      (((UInt8.ofNat b &&& 0x1f) ||| (if e then 0x40 else 0) |||
        (if s then 0x80 else 0)) &&& 0x40 ≠ 0 ↔ e) := by decide +kernel
  obtain ⟨hfu, hheader, hs, he⟩ := hall header.toNat h s e
  rw [UInt8.ofNat_toNat] at hfu hheader hs he
  exact ⟨_, _, rfl, hfu, hheader, hs, he⟩

theorem drop_header (h : RtpHeader) (rest : List UInt8) :
    (h.bytes ++ rest).drop rtpHeaderSize = rest :=
  List.drop_left' h.length_bytes

/-- A unit in a packet of its own. -/
theorem decodeH264_single (d : H264Decoder) (h : RtpHeader) {nalu : List UInt8}
    (hnalu : IsNalu nalu)
    (hlen : nalu.length ≤ rtpPayloadSize) (behind : List UInt8) :
    ∃ d', decodeH264 d (h.bytes ++ nalu) behind = some (d', some (naluStart ++ nalu)) := by
  obtain ⟨header, data, rfl, -, hpos, hlt⟩ := hnalu.header
  have hsize : rtpPayloadSize = 1288 := rfl
  have hmax : configMaxNaluSize = 10240 := rfl
  have hstart : naluStart.length = 4 := rfl
  obtain ⟨buf, hbuf, hzero⟩ := d.naluBuf.exists_write? 0 naluStart (by omega)
  obtain ⟨buf', hbuf', hunit⟩ := buf.exists_write? 4 (header :: data) (by omega)
  refine ⟨⟨buf', 4 + (header :: data).length⟩, ?_⟩
  rw [hstart, List.take_zero, List.nil_append, Nat.zero_add] at hzero
  rw [hzero] at hunit
  simp only [decodeH264, drop_header, List.cons_append, List.getElem?_cons_zero, hpos, hlt,
    and_self, if_true, hbuf, hbuf', hunit, Option.bind_eq_bind, Option.bind_some, Option.pure_def]

/-- The first fragment. -/
theorem decodeH264_first (d : H264Decoder) (h : RtpHeader) {header : UInt8} (hheader : header < 128)
    (e : Bool) {data : List UInt8} (hlen : 5 + data.length ≤ configMaxNaluSize)
    (behind : List UInt8) :
    ∃ d', decodeH264 d (h.bytes ++ fuHeaders header true e ++ data) behind = some (d', none) ∧
      d'.Holds (naluStart ++ header :: data) := by
  obtain ⟨indicator, fu, hfu, htype, hback, hs, -⟩ := fuHeaders_eq hheader true e
  have hmax : configMaxNaluSize = 10240 := rfl
  have hstart : naluStart.length = 4 := rfl
  obtain ⟨buf, hbuf, hzero⟩ := d.naluBuf.exists_write? 0 naluStart (by omega)
  obtain ⟨buf₁, hbuf₁, hone⟩ := buf.exists_write? 4 [header]
    (by rw [List.length_singleton]; omega)
  obtain ⟨buf₂, hbuf₂, hunit⟩ := buf₁.exists_write? 5 data hlen
  refine ⟨⟨buf₂, 5 + data.length⟩, ?_, ?_, ?_⟩
  · rw [List.append_assoc, hfu]
    simp [decodeH264, htype, hback, hs.mpr rfl, hbuf, hbuf₁, hbuf₂]
  · rw [hstart, List.take_zero, List.nil_append, Nat.zero_add] at hzero
    rw [hzero] at hone
    rw [show 5 = 4 + [header].length from rfl, hone] at hunit
    rw [List.append_cons, List.length_append, List.length_append]
    exact hunit
  · rw [List.length_append, List.length_cons, hstart]
    show 5 + data.length = 4 + (data.length + 1)
    omega

/-- A further fragment, as long as there is room for it. -/
theorem decodeH264_next {d : H264Decoder} {unit : List UInt8} (hd : d.Holds unit) (h : RtpHeader)
    {header : UInt8} (hheader : header < 128) (e : Bool) {data : List UInt8}
    (hroom : unit.length < configMaxNaluSize)
    (hlen : unit.length + data.length ≤ configMaxNaluSize) (behind : List UInt8) :
    ∃ d', decodeH264 d (h.bytes ++ fuHeaders header false e ++ data) behind =
        some (d', if e then some (unit ++ data) else none) ∧
      (e = false → d'.Holds (unit ++ data)) := by
  obtain ⟨indicator, fu, hfu, htype, -, hs, he⟩ := fuHeaders_eq hheader false e
  have hs' : fu &&& 0x80 = 0 := not_not.mp fun hne => absurd (hs.mp hne) (by decide)
  obtain ⟨buf, hbuf, hunit⟩ := d.naluBuf.exists_write? d.offset data
    (by rwa [hd.2])
  rw [hd.2, hd.1] at hunit
  rw [hd.2] at hbuf
  cases e with
  | true =>
    refine ⟨⟨buf, 0⟩, ?_, fun h => absurd h (by decide)⟩
    rw [List.append_assoc, hfu]
    simp [decodeH264, htype, hs', he.mpr rfl, hd.2, hroom, hbuf, hunit]
  | false =>
    have he' : fu &&& 0x40 = 0 := not_not.mp fun hne => absurd (he.mp hne) (by decide)
    refine ⟨⟨buf, unit.length + data.length⟩, ?_, fun _ => ⟨?_, ?_⟩⟩
    · rw [List.append_assoc, hfu]
      simp [decodeH264, htype, hs', he', hd.2, hroom, hbuf]
    · rw [List.length_append]
      exact hunit
    · rw [List.length_append]

/-- A fragment that does not fit is written nevertheless. -/
theorem decodeH264_overflow {d : H264Decoder} {unit : List UInt8} (hd : d.Holds unit)
    (h : RtpHeader) {header : UInt8} (hheader : header < 128) (e : Bool) {data : List UInt8}
    (hroom : unit.length < configMaxNaluSize)
    (hlen : configMaxNaluSize < unit.length + data.length) (behind : List UInt8) :
    decodeH264 d (h.bytes ++ fuHeaders header false e ++ data) behind = none := by
  obtain ⟨indicator, fu, hfu, htype, -, hs, -⟩ := fuHeaders_eq hheader false e
  have hs' : fu &&& 0x80 = 0 := not_not.mp fun hne => absurd (hs.mp hne) (by decide)
  have hbuf : d.naluBuf.write? unit.length data = none := d.naluBuf.write?_eq_none hlen
  rw [List.append_assoc, hfu]
  simp [decodeH264, htype, hs', hd.2, hroom, hbuf]

theorem decodeRun_append (d : H264Decoder) (l m : List (List UInt8 × List UInt8)) :
    decodeRun d (l ++ m) = (decodeRun d l).bind fun x =>
      (decodeRun x.1 m).map fun y => (y.1, x.2 ++ y.2) := by
  induction l generalizing d with
  | nil =>
    rw [List.nil_append, decodeRun, Option.bind_some]
    cases decodeRun d m <;> rfl
  | cons p l ih =>
    rw [List.cons_append, decodeRun, decodeRun]
    cases decodeH264 d p.1 p.2 with
    | none => rfl
    | some x =>
      obtain ⟨d', unit⟩ := x
      simp only [Option.bind_eq_bind, Option.bind_some, ih, Option.pure_def]
      cases decodeRun d' l with
      | none => rfl
      | some y =>
        simp only [Option.bind_some]
        cases decodeRun y.1 m with
        | none => rfl
        | some z => simp only [Option.map_some, Option.bind_some, List.append_assoc]

/-- Where the buffer ends before the unit, one of the fragments is written behind it. -/
theorem decodeRun_fuALoop (timestamp : UInt32) {header : UInt8} (hheader : header < 128)
    (buf : List UInt8) :
    ∀ (e : RtpEncoder) {d : H264Decoder} {unit : List UInt8} {j : ℕ}
      {received : List (List UInt8 × List UInt8)}, d.Holds unit → buf ≠ [] →
      unit.length = 5 + fuPayloadSize * j → unit.length ≤ configMaxNaluSize →
      received.map Prod.fst = (fuALoop e timestamp header false buf).2 →
      (decodeRun d received).map Prod.snd =
        if unit.length + buf.length ≤ configMaxNaluSize then some [unit ++ buf] else none := by
  have hsize : fuPayloadSize = 1286 := rfl
  have hmax : configMaxNaluSize = 10240 := rfl
  induction hn : buf.length using Nat.strong_induction_on generalizing buf with
  | _ n ih =>
    subst hn
    intro e d unit j received hd hne hj hle hreceived
    have hpos := List.length_pos_iff.mpr hne
    have hroom : unit.length < configMaxNaluSize := by
      rw [hsize] at hj
      omega
    rw [fuALoop, if_neg hpos.ne'] at hreceived
    by_cases hlast : buf.length ≤ fuPayloadSize
    · rw [if_pos hlast, List.map_eq_singleton_iff] at hreceived
      obtain ⟨⟨packet, behind⟩, rfl, rfl⟩ := hreceived
      by_cases hfits : unit.length + buf.length ≤ configMaxNaluSize
      · obtain ⟨d', hdecode, -⟩ := decodeH264_next hd _ hheader true hroom hfits behind
        rw [if_pos hfits, decodeRun, hdecode]
        rfl
      · rw [if_neg hfits, decodeRun,
          decodeH264_overflow hd _ hheader true hroom (Nat.not_le.mp hfits) behind]
        rfl
    · rw [if_neg hlast, List.map_eq_cons_iff] at hreceived
      obtain ⟨⟨packet, behind⟩, received, rfl, rfl, hrest⟩ := hreceived
      have htake : (buf.take fuPayloadSize).length = fuPayloadSize := by
        rw [List.length_take]
        omega
      have hdrop : (buf.drop fuPayloadSize).length = buf.length - fuPayloadSize :=
        List.length_drop
      by_cases hfits : unit.length + (buf.take fuPayloadSize).length ≤ configMaxNaluSize
      · obtain ⟨d', hdecode, hholds⟩ := decodeH264_next hd _ hheader false hroom hfits behind
        have hlength : (unit ++ buf.take fuPayloadSize).length = unit.length + fuPayloadSize := by
          rw [List.length_append, htake]
        have hshorter : (buf.drop fuPayloadSize).length < buf.length := by omega
        have hne' : buf.drop fuPayloadSize ≠ [] := List.ne_nil_of_length_pos (by omega)
        have hj' : (unit ++ buf.take fuPayloadSize).length = 5 + fuPayloadSize * (j + 1) := by
          rw [hlength, hj, Nat.mul_succ, Nat.add_assoc]
        have hmore := ih _ hshorter (buf.drop fuPayloadSize) rfl e.sent (hholds rfl) hne' hj'
          (by omega) hrest
        have hsum : unit.length + fuPayloadSize + (buf.length - fuPayloadSize) =
            unit.length + buf.length := by omega
        rw [List.append_assoc, List.take_append_drop, hlength, hdrop, hsum] at hmore
        rw [← hmore, decodeRun, hdecode]
        simp only [Option.bind_eq_bind, Option.bind_some]
        cases decodeRun d' received <;> rfl
      · have hover : ¬ unit.length + buf.length ≤ configMaxNaluSize := by omega
        rw [if_neg hover, decodeRun,
          decodeH264_overflow hd _ hheader false hroom (Nat.not_le.mp hfits) behind]
        rfl

/-- One unit. -/
theorem decodeRun_encodeNalu (e : RtpEncoder) {nalu : List UInt8} (h : IsNalu nalu)
    {received : List (List UInt8 × List UInt8)}
    (hreceived : received.map Prod.fst = (encodeNalu e (nalu.headD 0) nalu).2) (d : H264Decoder) :
    (decodeRun d received).map Prod.snd =
      if naluStart.length + nalu.length ≤ configMaxNaluSize then some [naluStart ++ nalu]
      else none := by
  have hsize : fuPayloadSize = 1286 := rfl
  have hpayload : rtpPayloadSize = 1288 := rfl
  have hmax : configMaxNaluSize = 10240 := rfl
  have hstart : naluStart.length = 4 := rfl
  by_cases hsingle : nalu.length ≤ rtpPayloadSize
  · rw [encodeNalu, if_pos hsingle, encodeH264Single, List.map_eq_singleton_iff] at hreceived
    obtain ⟨⟨packet, behind⟩, rfl, rfl⟩ := hreceived
    obtain ⟨d', hdecode⟩ := decodeH264_single d (e.header (isPicture (nalu.headD 0))) h hsingle
      behind
    rw [if_pos (by omega), decodeRun, hdecode]
    rfl
  · rw [encodeNalu, if_neg hsingle] at hreceived
    obtain ⟨header, data, rfl, hheader, -⟩ := h.header
    rw [List.length_cons] at hsingle ⊢
    rw [encodeH264FuA, List.headD_cons, List.drop_one, List.tail_cons, fuALoop,
      if_neg (by omega), if_neg (by omega), List.map_eq_cons_iff] at hreceived
    obtain ⟨⟨packet, behind⟩, received, rfl, rfl, hrest⟩ := hreceived
    have htake : (data.take fuPayloadSize).length = fuPayloadSize := by
      rw [List.length_take]
      omega
    have hdrop : (data.drop fuPayloadSize).length = data.length - fuPayloadSize :=
      List.length_drop
    have hroom : 5 + (data.take fuPayloadSize).length ≤ configMaxNaluSize := by omega
    obtain ⟨d', hdecode, hholds⟩ := decodeH264_first d
      { (e.ticked header).header false with timestamp := e.timestamp } hheader false hroom behind
    have hlength : (naluStart ++ header :: data.take fuPayloadSize).length = 5 + fuPayloadSize := by
      rw [List.length_append, List.length_cons, htake, hstart]
      omega
    have hmore := decodeRun_fuALoop e.timestamp hheader (data.drop fuPayloadSize) _ hholds
      (List.ne_nil_of_length_pos (by omega)) (j := 1) (by rw [hlength, Nat.mul_one]) (by omega)
      hrest
    have hsum : 5 + fuPayloadSize + (data.length - fuPayloadSize) =
        naluStart.length + (data.length + 1) := by omega
    rw [List.append_assoc, List.cons_append, List.take_append_drop, hlength, hdrop, hsum] at hmore
    rw [← hmore, decodeRun, hdecode]
    simp only [Option.bind_eq_bind, Option.bind_some]
    cases decodeRun d' received <;> rfl

theorem decodeRun_encodeNalus {nalus : List (List UInt8)} (h : ∀ nalu ∈ nalus, IsNalu nalu) :
    ∀ (e : RtpEncoder) {received : List (List UInt8 × List UInt8)},
      received.map Prod.fst = (encodeNalus e nalus).2 → ∀ d : H264Decoder,
        (decodeRun d received).map Prod.snd =
          if ∀ nalu ∈ nalus, naluStart.length + nalu.length ≤ configMaxNaluSize then
            some (nalus.map (naluStart ++ ·))
          else none := by
  induction nalus with
  | nil =>
    intro e received hreceived d
    rw [List.map_eq_nil_iff.mp hreceived]
    rfl
  | cons nalu nalus ih =>
    intro e received hreceived d
    obtain ⟨first, more, rfl, hfirst, hmore⟩ := List.map_eq_append_iff.mp hreceived
    have hone := decodeRun_encodeNalu e (h _ List.mem_cons_self) hfirst d
    have hrest := ih (fun nalu hnalu => h nalu (List.mem_cons_of_mem _ hnalu)) _ hmore
    rw [decodeRun_append]
    by_cases hfits : naluStart.length + nalu.length ≤ configMaxNaluSize
    · rw [if_pos hfits, Option.map_eq_some_iff] at hone
      obtain ⟨⟨d', units⟩, hdecode, rfl⟩ := hone
      rw [hdecode, Option.bind_some, Option.map_map]
      have hrest' := congrArg (Option.map fun units => (naluStart ++ nalu) :: units) (hrest d')
      rw [Option.map_map] at hrest'
      refine hrest'.trans ?_
      simp only [List.forall_mem_cons, hfits, true_and, List.map_cons]
      split <;> rfl
    · rw [if_neg hfits, Option.map_eq_none_iff] at hone
      rw [hone, if_neg fun hall => hfits (hall _ List.mem_cons_self)]
      rfl

/-- **What comes back of a video frame**: the units of the stream, each behind a start code of
four bytes, if every one of them fits into the decoder's buffer with it; if one does not, the
decoder writes behind the buffer. -/
theorem decode_encode_h264 (e : RtpEncoder) {units : List (ℕ × List UInt8)}
    (h : ∀ u ∈ units, IsNalu u.2) (zeros : ℕ) {received : List (List UInt8 × List UInt8)}
    (hreceived : received.map Prod.fst =
      (encodeH264 e (annexB units ++ List.replicate zeros 0)).2) (d : H264Decoder) :
    (decodeRun d received).map Prod.snd =
      if ∀ u ∈ units, naluStart.length + u.2.length ≤ configMaxNaluSize then
        some (units.map fun u => naluStart ++ u.2)
      else none := by
  rw [encodeH264_annexB e zeros h] at hreceived
  have hnalus : ∀ nalu ∈ units.map Prod.snd, IsNalu nalu := List.forall_mem_map.mpr h
  rw [decodeRun_encodeNalus hnalus e hreceived d]
  simp only [List.forall_mem_map, List.map_map]
  rfl

/-- A parameter set, and a picture that takes two fragments. -/
theorem decode_encode_h264_picture :
    (decodeRun ⟨.zero _, 0⟩ ((encodeH264 (rtpEncoderInit .h264)
      (annexB [(1, [0x67, 0x42]), (0, 0x65 :: List.replicate 1300 7)] ++
        List.replicate 2 0)).2.map (·, []))).map Prod.snd =
      some [[0, 0, 0, 1, 0x67, 0x42], [0, 0, 0, 1, 0x65] ++ List.replicate 1300 7] := by
  have hsmall : IsNalu [0x67, 0x42] :=
    ⟨⟨_, _, rfl, by decide, by decide, by decide⟩, by decide, by decide⟩
  have hlarge : IsNalu (0x65 :: List.replicate 1300 7) := by
    refine ⟨⟨_, _, rfl, by decide, by decide, by decide⟩, fun hcode => ?_, ?_⟩
    · obtain h | h := List.mem_cons.mp (hcode.subset List.mem_cons_self)
      · exact absurd h (by decide)
      · exact absurd (List.eq_of_mem_replicate h) (by decide)
    · rw [List.replicate_succ', ← List.cons_append, List.getLast?_concat]
      decide
  have hall : ∀ u ∈ [(1, [0x67, 0x42]), (0, 0x65 :: List.replicate 1300 7)], IsNalu u.2 :=
    List.forall_mem_cons.mpr ⟨hsmall, List.forall_mem_singleton.mpr hlarge⟩
  have hback (l : List (List UInt8)) : (l.map (·, ([] : List UInt8))).map Prod.fst = l := by
    rw [List.map_map]
    exact List.map_id l
  have hunits := decode_encode_h264 (rtpEncoderInit .h264) hall 2 (hback _) ⟨.zero _, 0⟩
  rw [hunits, if_pos]
  · rfl
  · rw [List.forall_mem_cons, List.forall_mem_singleton]
    refine ⟨by decide, ?_⟩
    simp only [List.length_cons, List.length_replicate]
    decide

end PipecatVoice
