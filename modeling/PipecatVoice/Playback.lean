import PipecatVoice.G722
import PipecatVoice.Lib.CArray
import PipecatVoice.Lib.Runs
import PipecatVoice.Lib.StreamBuffer

/-!
# Playback

The bot's packets are decoded as they come, and the samples wait in a stream buffer for the
playback task, which writes them to the speaker 20 ms at a time, with zeros where there are
none. A packet that finds the buffer full loses its end. The buffer holds bytes, two for a
sample.

* `onInboundAudio`, `playbackTask` — the functions of `session.cpp`;
* `Aligned` — what is played is what was decoded, in order and in whole samples;
* `playback_aligned` — it is, in every run.
-/

namespace PipecatVoice.Playback

open StreamBuffer

/-- `kFramesPerPacket` -/
def framesPerPacket : ℕ := 320

/-- `kPlaybackBufBytes` -/
def playbackBufBytes : ℕ := 16000 * 2 / 5

/-- `kMaxDecodedSamples` -/
def maxDecodedSamples : ℕ := 2048

/-- `sizeof(mono)` -/
def monoBytes : ℕ := 2 * framesPerPacket

/-! ## Samples in memory -/

/-- The two bytes of a sample, the low one first. -/
def sampleBytes (x : Int16) : List UInt8 :=
  [UInt8.ofNat x.toUInt16.toNat, UInt8.ofNat (x.toUInt16.toNat / 256)]

/-- The sample in two bytes. -/
def sampleOf (lo hi : UInt8) : Int16 := (UInt16.ofNat (lo.toNat + 256 * hi.toNat)).toInt16

/-- The samples in an array; an odd byte at the end is none. -/
def samplesOf : List UInt8 → List Int16
  | lo :: hi :: bytes => sampleOf lo hi :: samplesOf bytes
  | [_] | [] => []

/-! ## The tasks -/

/-- A frame of I2S, by the role of its channels. -/
structure Frame where
  /-- the channel of the AEC reference, `kAecRefTxChannel` -/
  aecRef : Int32
  /-- the other one -/
  other : Int32
  deriving DecidableEq

/-- A sample in the upper half of the reference channel. -/
def frameOf (x : Int16) : Frame := ⟨x.toInt32 <<< 16, 0⟩

/-- One `audio_.write`. -/
inductive Write where
  /-- a piece of a chirp -/
  | chirp (frames : List Frame)
  /-- what came out of the buffer, `got` bytes of it, and padding -/
  | audio (got : ℕ) (frames : List Frame)

/-- What became of a packet. -/
structure Packet where
  /-- the samples it was decoded to -/
  pcm : List Int16
  /-- the bytes that `xStreamBufferSend` took -/
  sent : ℕ
  /-- the bytes that were free then -/
  free : ℕ

/-- The playback path, and what has gone through it. -/
structure State where
  /-- `g722_dec_` -/
  dec : G722Codec
  /-- `playback_buf_` -/
  buf : List UInt8
  /-- `mono` -/
  mono : CArray monoBytes
  /-- the packets so far -/
  packets : List Packet
  /-- the writes so far -/
  writes : List Write

/-- After boot. -/
def start : State where
  dec := .default
  buf := []
  mono := .zero _
  packets := []
  writes := []

/-- `onInboundAudio`, up to the levels it keeps account of; none if the samples left `pcm`. -/
def onInboundAudio (s : State) (data : List UInt8) : Option State :=
  if data = [] then some s
  else
    let (dec, pcm) := g722Decode s.dec (data.take (maxDecodedSamples / 2))
    if maxDecodedSamples < pcm.length then none
    else
      let bytes := pcm.flatMap sampleBytes
      some { s with
        dec := dec
        buf := send playbackBufBytes s.buf bytes
        packets := s.packets ++
          [⟨pcm, sent playbackBufBytes s.buf bytes, playbackBufBytes - s.buf.length⟩] }

/-- The writes of a chirp, packet by packet. -/
def chirpWrites (chirp : List Int16) : List Write :=
  (List.range ((chirp.length + (framesPerPacket - 1)) / framesPerPacket)).map fun i =>
    .chirp (((chirp.drop (i * framesPerPacket)).take framesPerPacket).map frameOf)

/-- `mono` after `got` bytes were received into it: the rest is set to zero; none if the
padding left the array. -/
def pad? (mono : CArray monoBytes) (got : ℕ) : Option (CArray monoBytes) :=
  let frames := got / 2
  if frames = 0 then mono.write? 0 (List.replicate monoBytes 0)
  else if frames < framesPerPacket then
    mono.write? (2 * frames) (List.replicate (monoBytes - got) 0)
  else some mono

/-- One turn of `playbackTask`, with the chirp that is pending. -/
def playbackTask (s : State) (chirp : Option (List Int16)) : Option State := do
  let received := s.buf.take monoBytes
  let mono ← s.mono.memcpy? received
  let mono ← pad? mono received.length
  pure { s with
    buf := s.buf.drop monoBytes
    mono := mono
    writes := s.writes ++ chirpWrites (chirp.getD []) ++
      [.audio received.length ((samplesOf mono.bytes).map frameOf)] }

/-- What happens next. -/
inductive Event where
  /-- a packet comes in -/
  | inbound (data : List UInt8)
  /-- the playback task goes round, after the chirp `synth_chirp` has made, if there is one -/
  | playback (chirp : Option (List Int16))
  /-- a connection is built: `g722_init` -/
  | connect

/-- One step; none where it leaves an array. -/
def step (s : Option State) (e : Event) : Option State :=
  s.bind fun s =>
    match e with
    | .inbound data => onInboundAudio s data
    | .playback chirp => playbackTask s chirp
    | .connect => some { s with dec := g722Init }

/-! ## What is played -/

/-- The frames that came out of the buffer, without the padding. -/
def Write.speech : Write → List Frame
  | .chirp _ => []
  | .audio got frames => frames.take (got / 2)

/-- All of them. -/
def State.speech (s : State) : List Frame := s.writes.flatMap Write.speech

/-- The samples that were decoded. -/
def State.decoded (s : State) : List Int16 := s.packets.flatMap Packet.pcm

/-- The samples of a packet that were taken. -/
def Packet.taken (p : Packet) : List Int16 := p.pcm.take (p.sent / 2)

/-- The decoder over all octets that come in, connection by connection, whatever becomes of the
samples. -/
def decodeAll (dec : G722Codec) : List Event → G722Codec × List Int16
  | [] => (dec, [])
  | .inbound data :: es =>
    let out := g722Decode dec (data.take (maxDecodedSamples / 2))
    let rest := decodeAll out.1 es
    (rest.1, out.2 ++ rest.2)
  | .playback _ :: es => decodeAll dec es
  | .connect :: es => decodeAll g722Init es

/-- A write of the buffer's is whole: an even number of bytes was received, and what is behind
their samples is silence. -/
def Write.Whole : Write → Prop
  | .chirp _ => True
  | .audio got frames => 2 ∣ got ∧ frames.length = framesPerPacket ∧
      frames.drop (got / 2) = List.replicate (framesPerPacket - got / 2) (frameOf 0)

/-- **Playback is an aligned FIFO**. -/
structure Aligned (s : State) : Prop where
  /-- the buffer holds whole samples, and no more than it can -/
  whole : StreamBuffer.Whole playbackBufBytes 2 s.buf
  /-- and so does each receive, and the rest is padding -/
  writes : ∀ w ∈ s.writes, w.Whole
  /-- what was played, and then what waits, is what was taken, in order -/
  order : s.speech ++ (samplesOf s.buf).map frameOf =
    (s.packets.flatMap Packet.taken).map frameOf
  /-- what was played is what was decoded, in order, with some left out -/
  sublist : s.speech.Sublist (s.decoded.map frameOf)
  /-- a packet loses samples only when it fills the buffer -/
  lost : ∀ p ∈ s.packets, p.taken ≠ p.pcm → p.sent = p.free

/-! ## Samples and their bytes -/

theorem sampleOf_sampleBytes (x : Int16) :
    sampleOf (UInt8.ofNat x.toUInt16.toNat) (UInt8.ofNat (x.toUInt16.toNat / 256)) = x := by
  have hlt : x.toUInt16.toNat < 65536 := x.toUInt16.toNat_lt
  have hword : x.toUInt16.toNat % 256 + 256 * (x.toUInt16.toNat / 256 % 256) =
      x.toUInt16.toNat := by
    omega
  rw [sampleOf, UInt8.toNat_ofNat', UInt8.toNat_ofNat']
  exact (congrArg (fun n => (UInt16.ofNat n).toInt16) hword).trans (by
    rw [UInt16.ofNat_toNat, Int16.toInt16_toUInt16])

theorem samplesOf_flatMap (pcm : List Int16) : samplesOf (pcm.flatMap sampleBytes) = pcm := by
  induction pcm with
  | nil => rfl
  | cons x pcm ih => exact congrArg₂ List.cons (sampleOf_sampleBytes x) ih

theorem length_flatMap_sampleBytes (pcm : List Int16) :
    (pcm.flatMap sampleBytes).length = 2 * pcm.length := by
  induction pcm with
  | nil => rfl
  | cons x pcm ih =>
    rw [List.flatMap_cons, List.length_append, ih, List.length_cons]
    show 2 + 2 * pcm.length = _
    omega

theorem take_flatMap_sampleBytes (pcm : List Int16) (k : ℕ) :
    (pcm.flatMap sampleBytes).take (2 * k) = (pcm.take k).flatMap sampleBytes := by
  induction k generalizing pcm with
  | zero => rfl
  | succ k ih =>
    cases pcm with
    | nil => exact List.take_nil
    | cons x pcm =>
      have htwo : (sampleBytes x).length = 2 := rfl
      rw [List.flatMap_cons, List.take_succ_cons, List.flatMap_cons, ← ih pcm, Nat.mul_succ,
        Nat.add_comm, ← htwo, List.take_length_add_append]

theorem samplesOf_append : ∀ {a : List UInt8} (b : List UInt8), 2 ∣ a.length →
    samplesOf (a ++ b) = samplesOf a ++ samplesOf b
  | [], _, _ => rfl
  | [b], _, h => absurd (show 2 ∣ 1 from h) (by decide)
  | lo :: hi :: a, b, h => by
    have hrest : 2 ∣ a.length := (Nat.dvd_add_left (Nat.dvd_refl 2)).mp h
    exact congrArg (sampleOf lo hi :: ·) (samplesOf_append b hrest)

theorem length_samplesOf : ∀ a : List UInt8, (samplesOf a).length = a.length / 2
  | [] => rfl
  | [_] => by rw [samplesOf, List.length_nil, List.length_singleton]
  | lo :: hi :: a => by
    rw [samplesOf, List.length_cons, length_samplesOf a, List.length_cons, List.length_cons]
    omega

theorem samplesOf_zeros (k : ℕ) :
    samplesOf (List.replicate (2 * k) 0) = List.replicate k 0 := by
  induction k with
  | zero => rfl
  | succ k ih =>
    rw [Nat.mul_succ]
    exact congrArg (sampleOf 0 0 :: ·) ih

theorem length_g722Decode (s : G722Codec) (octets : List UInt8) :
    (g722Decode s octets).2.length = 2 * octets.length := by
  induction octets generalizing s with
  | nil => rfl
  | cons octet octets ih =>
    rw [g722Decode, List.length_cons, List.length_cons, ih, List.length_cons]
    omega

/-! ## A packet -/

theorem even_playbackBufBytes : 2 ∣ playbackBufBytes := by decide

/-- What a packet puts into the buffer. -/
theorem samplesOf_send {buf : List UInt8} {pcm : List Int16} {k : ℕ} (hbuf : 2 ∣ buf.length)
    (hsent : sent playbackBufBytes buf (pcm.flatMap sampleBytes) = 2 * k) :
    samplesOf (send playbackBufBytes buf (pcm.flatMap sampleBytes)) =
      samplesOf buf ++ pcm.take k := by
  rw [send, hsent, samplesOf_append _ hbuf, take_flatMap_sampleBytes, samplesOf_flatMap]

/-- The samples of a packet that there was room for. -/
theorem dvd_sent_pcm {buf : List UInt8} (h : StreamBuffer.Whole playbackBufBytes 2 buf)
    (pcm : List Int16) : 2 ∣ sent playbackBufBytes buf (pcm.flatMap sampleBytes) := by
  refine h.dvd_sent even_playbackBufBytes ?_
  rw [length_flatMap_sampleBytes]
  exact Nat.dvd_mul_right 2 _

theorem taken_sublist (packets : List Packet) :
    (packets.flatMap Packet.taken).Sublist (packets.flatMap Packet.pcm) := by
  induction packets with
  | nil => exact List.Sublist.refl _
  | cons p packets ih =>
    rw [List.flatMap_cons, List.flatMap_cons]
    exact (List.take_sublist _ _).append ih

/-- What is in order has only lost what was not taken. -/
theorem sublist_of_order {s : State} (h : s.speech ++ (samplesOf s.buf).map frameOf =
    (s.packets.flatMap Packet.taken).map frameOf) : s.speech.Sublist (s.decoded.map frameOf) := by
  have hspeech : s.speech.Sublist ((s.packets.flatMap Packet.taken).map frameOf) := by
    rw [← h]
    exact List.sublist_append_left _ _
  exact hspeech.trans ((taken_sublist s.packets).map frameOf)

/-- A packet that is cut has filled the buffer. -/
theorem sent_eq_free {buf : List UInt8} {pcm : List Int16}
    (h : pcm.take (sent playbackBufBytes buf (pcm.flatMap sampleBytes) / 2) ≠ pcm) :
    sent playbackBufBytes buf (pcm.flatMap sampleBytes) = playbackBufBytes - buf.length := by
  by_contra hne
  refine h (List.take_of_length_le ?_)
  rw [sent, length_flatMap_sampleBytes] at hne ⊢
  omega

/-- **A packet** keeps the playback aligned, and is decoded whatever becomes of it. -/
theorem Aligned.inbound {s : State} (h : Aligned s) (data : List UInt8) :
    ∃ s', onInboundAudio s data = some s' ∧ Aligned s' ∧
      s'.dec = (g722Decode s.dec (data.take (maxDecodedSamples / 2))).1 ∧
      s'.decoded = s.decoded ++ (g722Decode s.dec (data.take (maxDecodedSamples / 2))).2 := by
  rw [onInboundAudio]
  by_cases hempty : data = []
  · rw [if_pos hempty, hempty, List.take_nil]
    exact ⟨s, rfl, h, rfl, (List.append_nil _).symm⟩
  rw [if_neg hempty]
  have hlength := length_g722Decode s.dec (data.take (maxDecodedSamples / 2))
  generalize g722Decode s.dec (data.take (maxDecodedSamples / 2)) = out at hlength ⊢
  obtain ⟨dec, pcm⟩ := out
  have hfits : ¬ maxDecodedSamples < pcm.length := by
    have hsize : maxDecodedSamples = 2048 := rfl
    rw [hlength, List.length_take]
    omega
  obtain ⟨k, hk⟩ := dvd_sent_pcm h.whole pcm
  have hhalf : sent playbackBufBytes s.buf (pcm.flatMap sampleBytes) / 2 = k := by omega
  refine ⟨{ s with
    dec := dec
    buf := send playbackBufBytes s.buf (pcm.flatMap sampleBytes)
    packets := s.packets ++ [Packet.mk pcm (sent playbackBufBytes s.buf (pcm.flatMap sampleBytes))
      (playbackBufBytes - s.buf.length)] }, if_neg hfits, ?_, rfl, ?_⟩
  · have horder : s.speech ++ (samplesOf (send playbackBufBytes s.buf
        (pcm.flatMap sampleBytes))).map frameOf = ((s.packets ++
          [Packet.mk pcm (sent playbackBufBytes s.buf (pcm.flatMap sampleBytes))
            (playbackBufBytes - s.buf.length)]).flatMap Packet.taken).map frameOf := by
      rw [samplesOf_send h.whole.dvd hk, List.map_append, ← List.append_assoc, h.order,
        List.flatMap_append, List.map_append, List.flatMap_singleton, Packet.taken, hhalf]
    refine ⟨?_, h.writes, horder, sublist_of_order horder, ?_⟩
    · refine h.whole.send even_playbackBufBytes ?_
      rw [length_flatMap_sampleBytes]
      exact Nat.dvd_mul_right 2 _
    · intro p hp
      obtain hp | hp := List.mem_append.mp hp
      · exact h.lost p hp
      · obtain rfl := List.mem_singleton.mp hp
        exact sent_eq_free
  · exact List.flatMap_append.trans (congrArg _ (List.flatMap_singleton _ _))

/-! ## A turn of the playback task -/

/-- The padding lies inside `mono` when whole samples were received. -/
theorem exists_pad? {mono : CArray monoBytes} {received rest : List UInt8}
    (hmono : mono.bytes = received ++ rest) (heven : 2 ∣ received.length) :
    ∃ m, pad? mono received.length = some m ∧
      m.bytes = received ++ List.replicate (monoBytes - received.length) 0 := by
  have hlength := congrArg List.length hmono
  rw [mono.length_eq, List.length_append] at hlength
  have hhalf : 2 * (received.length / 2) = received.length := Nat.mul_div_cancel' heven
  have hsize : monoBytes = 640 := rfl
  have hframes : framesPerPacket = 320 := rfl
  have hbytes : mono.bytes = received ++ rest ++ [] := hmono.trans (List.append_nil _).symm
  rw [pad?]
  by_cases hzero : received.length / 2 = 0
  · have hnil : received = [] := List.length_eq_zero_iff.mp (by omega)
    subst hnil
    obtain ⟨m, hwrite, hm⟩ := CArray.write?_append (List.replicate monoBytes 0) hbytes rfl (by
      rw [List.length_replicate, hlength, List.length_nil, Nat.zero_add])
    rw [List.append_nil] at hm
    exact ⟨m, (if_pos hzero).trans hwrite, hm⟩
  by_cases hpart : received.length / 2 < framesPerPacket
  · obtain ⟨m, hwrite, hm⟩ := CArray.write?_append
      (List.replicate (monoBytes - received.length) 0) hbytes hhalf (by
        rw [List.length_replicate]
        omega)
    rw [List.append_nil] at hm
    exact ⟨m, (if_neg hzero).trans ((if_pos hpart).trans hwrite), hm⟩
  · have hnil : rest = [] := List.length_eq_zero_iff.mp (by omega)
    have hfull : monoBytes - received.length = 0 := by omega
    refine ⟨mono, (if_neg hzero).trans (if_neg hpart), ?_⟩
    rw [hmono, hnil, hfull]
    rfl

/-- The frames of a write, from what was received. -/
theorem frames_eq {received : List UInt8} (heven : 2 ∣ received.length)
    (hle : received.length ≤ monoBytes) :
    (samplesOf (received ++ List.replicate (monoBytes - received.length) 0)).map frameOf =
      (samplesOf received).map frameOf ++
        List.replicate (framesPerPacket - received.length / 2) (frameOf 0) := by
  have hsize : monoBytes = 2 * framesPerPacket := rfl
  have hzeros : monoBytes - received.length =
      2 * (framesPerPacket - received.length / 2) := by
    omega
  rw [samplesOf_append _ heven, hzeros, samplesOf_zeros, List.map_append, List.map_replicate]

/-- What comes out of a write is what was received, and the rest of it is silence. -/
theorem audio_of_pad {received bytes : List UInt8} (heven : 2 ∣ received.length)
    (hle : received.length ≤ monoBytes)
    (hbytes : bytes = received ++ List.replicate (monoBytes - received.length) 0) :
    Write.speech (.audio received.length ((samplesOf bytes).map frameOf)) =
        (samplesOf received).map frameOf ∧
      Write.Whole (.audio received.length ((samplesOf bytes).map frameOf)) := by
  have hsize : monoBytes = 2 * framesPerPacket := rfl
  have hframes := frames_eq heven hle
  rw [← hbytes] at hframes
  have hsamples : ((samplesOf received).map frameOf).length = received.length / 2 := by
    rw [List.length_map, length_samplesOf]
  refine ⟨?_, heven, ?_, ?_⟩
  · rw [Write.speech, hframes]
    exact List.take_left' hsamples
  · rw [hframes, List.length_append, hsamples, List.length_replicate]
    omega
  · rw [hframes]
    exact List.drop_left' hsamples

theorem whole_chirpWrites {chirp : List Int16} {w : Write} (h : w ∈ chirpWrites chirp) :
    w.Whole ∧ w.speech = [] := by
  obtain ⟨i, -, rfl⟩ := List.mem_map.mp h
  exact ⟨trivial, rfl⟩

theorem speech_chirpWrites (chirp : List Int16) :
    (chirpWrites chirp).flatMap Write.speech = [] :=
  List.flatMap_eq_nil_iff.mpr fun _ hw => (whole_chirpWrites hw).2

/-- The speech of a turn: that of its last write. -/
theorem speech_turn (writes : List Write) (chirp : List Int16) (w : Write) :
    (writes ++ chirpWrites chirp ++ [w]).flatMap Write.speech =
      writes.flatMap Write.speech ++ w.speech := by
  rw [List.flatMap_append, List.flatMap_append, speech_chirpWrites, List.append_nil,
    List.flatMap_singleton]

/-- **A turn of the playback task** keeps the playback aligned. -/
theorem Aligned.playback {s : State} (h : Aligned s) (chirp : Option (List Int16)) :
    ∃ s', playbackTask s chirp = some s' ∧ Aligned s' ∧ s'.dec = s.dec ∧
      s'.decoded = s.decoded := by
  have hle : (s.buf.take monoBytes).length ≤ monoBytes := List.length_take_le _ _
  have heven : 2 ∣ (s.buf.take monoBytes).length := h.whole.dvd_take (by decide)
  obtain ⟨mono, hcopy, hmono⟩ := CArray.exists_memcpy? s.mono hle
  obtain ⟨mono', hpad, hmono'⟩ := exists_pad? hmono heven
  obtain ⟨hspeech, hwhole⟩ := audio_of_pad heven hle hmono'
  refine ⟨{ s with
    buf := s.buf.drop monoBytes
    mono := mono'
    writes := s.writes ++ chirpWrites (chirp.getD []) ++ [Write.audio (s.buf.take monoBytes).length
      ((samplesOf mono'.bytes).map frameOf)] }, ?_, ?_, rfl, rfl⟩
  · rw [playbackTask, hcopy, Option.bind_eq_bind, Option.bind_some, hpad]
    rfl
  generalize Write.audio (s.buf.take monoBytes).length
    ((samplesOf mono'.bytes).map frameOf) = w at hspeech hwhole ⊢
  have horder : (s.writes ++ chirpWrites (chirp.getD []) ++ [w]).flatMap Write.speech ++
      (samplesOf (s.buf.drop monoBytes)).map frameOf =
        (s.packets.flatMap Packet.taken).map frameOf := by
    rw [speech_turn, hspeech, List.append_assoc, ← List.map_append, ← samplesOf_append _ heven,
      List.take_append_drop]
    exact h.order
  refine ⟨h.whole.drop (by decide), ?_, horder, sublist_of_order horder, h.lost⟩
  intro w' hw
  rcases List.mem_append.mp hw with hw | hw
  · rcases List.mem_append.mp hw with hw | hw
    · exact h.writes w' hw
    · exact (whole_chirpWrites hw).1
  · obtain rfl := List.mem_singleton.mp hw
    exact hwhole

/-! ## Runs -/

theorem aligned_start : Aligned start where
  whole := whole_nil _ _
  writes := fun _ hw => absurd hw List.not_mem_nil
  order := rfl
  sublist := List.Sublist.refl _
  lost := fun _ hp => absurd hp List.not_mem_nil

theorem aligned_run (es : List Event) : ∀ {s : State}, Aligned s →
    ∃ s', Runs.run step (some s) es = some s' ∧ Aligned s' ∧
      s'.dec = (decodeAll s.dec es).1 ∧ s'.decoded = s.decoded ++ (decodeAll s.dec es).2 := by
  induction es with
  | nil => exact fun {s} h => ⟨s, rfl, h, rfl, (List.append_nil _).symm⟩
  | cons e es ih =>
    intro s h
    cases e with
    | inbound data =>
      obtain ⟨s', hstep, h', hdec, hdecoded⟩ := h.inbound data
      obtain ⟨s'', hrun, h'', hdec', hdecoded'⟩ := ih h'
      refine ⟨s'', ?_, h'', ?_, ?_⟩
      · rw [← hrun, ← hstep]
        rfl
      · rw [hdec', hdec, decodeAll]
      · rw [hdecoded', hdecoded, hdec, List.append_assoc, decodeAll]
    | playback chirp =>
      obtain ⟨s', hstep, h', hdec, hdecoded⟩ := h.playback chirp
      obtain ⟨s'', hrun, h'', hdec', hdecoded'⟩ := ih h'
      refine ⟨s'', ?_, h'', ?_, ?_⟩
      · rw [← hrun, ← hstep]
        rfl
      · rw [hdec', hdec, decodeAll]
      · rw [hdecoded', hdecoded, hdec, decodeAll]
    | connect =>
      exact ih (s := { s with dec := g722Init }) ⟨h.whole, h.writes, h.order, h.sublist, h.lost⟩

/-- **In every run** of packets, turns of the playback task, chirps and connections the playback
is an aligned FIFO, and every octet goes through the decoder once. -/
theorem playback_aligned (es : List Event) :
    ∃ s, Runs.run step (some start) es = some s ∧ Aligned s ∧
      s.dec = (decodeAll start.dec es).1 ∧ s.decoded = (decodeAll start.dec es).2 :=
  aligned_run es aligned_start

end PipecatVoice.Playback
