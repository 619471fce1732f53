import PipecatVoice.RtpVideo

/-!
# Audio from one end to the other

A frame goes through the encoder, libsrtp and the socket, and at the other end through
`agent_recv`, the tests of the loop, libsrtp again and the decoder. What libsrtp refuses is
left as it came, and nobody asks whether it was refused.

* `Srtp`, `Srtp.Keyed` — libsrtp with the keys of one handshake;
* `sendAudio`, `receive` — `peer_connection_send_audio` and a pass of the loop in COMPLETED;
* `track_run` — what the audio track gets in a run, and what is put on the wire.
-/

namespace PipecatVoice.MediaPath

open CArray
open TurnCredentials (Demux Recv demux)

variable {σ τ : Type}

/-- libsrtp: what becomes of a packet, and of the context. -/
structure Srtp (σ τ : Type) where
  /-- `srtp_protect` -/
  protect : σ → List UInt8 → List UInt8 × σ
  /-- `srtp_unprotect`; what it refuses is left as it is -/
  unprotect : τ → List UInt8 → List UInt8 × τ
  /-- `srtp_unprotect_rtcp` -/
  unprotectRtcp : τ → List UInt8 → List UInt8 × τ

/-- A context refuses a packet: it may be no packet of the source, or one that came before. -/
def Srtp.Refuses (S : Srtp σ τ) (t : τ) (packet : List UInt8) : Prop :=
  S.unprotect t packet = (packet, t)

/-- Two contexts with the same keys. `behind n k s t`: of the source's packets, `n` were
protected, and the last `k` of them have not arrived. -/
structure Srtp.Keyed (S : Srtp σ τ) (ssrc : UInt32) (behind : ℕ → ℕ → σ → τ → Prop) : Prop where
  /-- the header stays in the clear -/
  clear : ∀ s (h : RtpHeader) data, ∃ sealed, (S.protect s (h.bytes ++ data)).1 = h.bytes ++ sealed
  /-- the tag of AES-CM with HMAC-SHA1-80 -/
  tag : ∀ s packet, (S.protect s packet).1.length ≤ packet.length + 10
  lost : ∀ {n k s t} packet, behind n k s t → behind (n + 1) (k + 1) (S.protect s packet).2 t
  /-- the index is guessed right as long as less than half of the numbers were missed -/
  opened : ∀ {n k s t} (h : RtpHeader) data, behind n k s t → k < 2 ^ 15 → h.ssrc = ssrc →
    h.seqNumber = .ofNat n →
      ∃ t', S.unprotect t (S.protect s (h.bytes ++ data)).1 = (h.bytes ++ data, t') ∧
        behind (n + 1) 0 (S.protect s (h.bytes ++ data)).2 t'
  /-- another source has a stream of its own, and its header is not touched either -/
  other : ∀ {n k s t} packet, behind n k s t → rtpGetSsrc packet ≠ ssrc.toNat →
    rtpGetSsrc (S.unprotect t packet).1 = rtpGetSsrc packet ∧
      behind n k s (S.unprotect t packet).2
  rtcp : ∀ {n k s t} packet, behind n k s t → behind n k s (S.unprotectRtcp t packet).2

/-! ## The two ends -/

/-- `rtp_encoder_encode` -/
def rtpEncoderEncode (e : RtpEncoder) (buf : List UInt8) :
    Option (RtpEncoder × List (List UInt8)) :=
  match e.encodeFunc with
  | none => none
  | some .generic => (encodeGeneric e buf).map fun x => (x.1, [x.2])
  | some .h264 => some (encodeH264 e buf)

/-- `peer_connection_send_audio`: the encoder after it, and the packets. -/
def sendAudio (state : PeerState) (e : RtpEncoder) (buf : List UInt8) :
    Option (RtpEncoder × List (List UInt8)) :=
  if state ≠ .completed then some (e, []) else rtpEncoderEncode e buf

/-- The encoder and the context at one end; the context, `remote_assrc` and the audio track at
the other. -/
structure Ends (σ τ : Type) where
  encoder : RtpEncoder
  srtpOut : σ
  srtpIn : τ
  remoteAssrc : ℕ
  /-- what `onaudiotrack` was called with -/
  track : List (List UInt8)
  /-- the packets of the encoder -/
  sent : List (List UInt8)

/-- What the loop makes of a datagram that `agent_recv` hands out. What becomes of a DTLS record is
up to `mbedtls_ssl_read`, which `peer_connection_dtls_srtp_recv` hands the same record as often as
it asks; there is no result then. -/
def media (S : Srtp σ τ) (x : Ends σ τ) (payload : List UInt8) : Option (Ends σ τ) :=
  if payload = [] then some x
  else
    match mediaKind payload with
    | .rtcp => some { x with srtpIn := (S.unprotectRtcp x.srtpIn payload).2 }
    | .dtls => none
    | .unknown => some x
    | .rtp =>
      let opened := S.unprotect x.srtpIn payload
      some { x with
        srtpIn := opened.2
        track :=
          if rtpGetSsrc opened.1 = x.remoteAssrc then
            x.track ++ [opened.1.drop rtpHeaderSize]
          else x.track }

/-- A pass of `peer_connection_loop` in COMPLETED, as far as media are concerned. -/
def receive (S : Srtp σ τ) (x : Ends σ τ) (r : Recv) : Option (Ends σ τ) := do
  match ← demux r with
  | .drop | .stun _ _ _ => pure x
  | .media payload _ => media S x payload

/-- `peer_connection_outgoing_rtp_packet`, and the other end if the packet arrives there; the
buffer of the encoder has to have room for the tag. -/
def transmit (S : Srtp σ τ) (arrival : Option Recv) (x : Ends σ τ) (packet : List UInt8) :
    Option (Ends σ τ) :=
  let sealed := S.protect x.srtpOut packet
  let x' := { x with srtpOut := sealed.2, sent := x.sent ++ [packet] }
  if rtpBufSize < sealed.1.length then none
  else
    match arrival with
    | none => some x'
    | some r => receive S x' { r with datagram := sealed.1, len := configMtu }

/-- What happens. -/
inductive Event where
  /-- a frame is sent; of the datagram that arrives, all but its contents -/
  | send (state : PeerState) (frame : List UInt8) (arrival : Option Recv)
  /-- another datagram -/
  | datagram (r : Recv)

/-- One event; `none` where a buffer is left, or a DTLS record comes. -/
def step (S : Srtp σ τ) (x : Ends σ τ) : Event → Option (Ends σ τ)
  | .send state frame arrival => do
    let (e, packets) ← sendAudio state x.encoder frame
    packets.foldlM (transmit S arrival) { x with encoder := e }
  | .datagram r => receive S x r

/-- Both ends after a handshake; the answer names the source of the encoder. -/
def start (codec : MediaCodec) (s : σ) (t : τ) : Ends σ τ where
  encoder := rtpEncoderInit codec
  srtpOut := s
  srtpIn := t
  remoteAssrc := (rtpEncoderInit codec).ssrc.toNat
  track := []
  sent := []

/-- A run. -/
def run (S : Srtp σ τ) (x : Ends σ τ) (es : List Event) : Option (Ends σ τ) := es.foldlM (step S) x

/-! ## What is to be heard -/

/-- The payload of an RTP packet of the source that is not one of its encoder. -/
def forged (ssrc : UInt32) (r : Recv) : Option (List UInt8) :=
  match demux r with
  | some (.media payload _) =>
    if payload ≠ [] ∧ mediaKind payload = .rtp ∧ rtpGetSsrc payload = ssrc.toNat then some payload
    else none
  | some .drop | some (.stun _ _ _) | none => none

/-- What an event brings to the track. -/
def heard (ssrc : UInt32) : Event → Option (List UInt8)
  | .send .completed frame (some _) => some frame
  | .send _ _ _ => none
  | .datagram r => (forged ssrc r).map (·.drop rtpHeaderSize)

/-- The frame that an event puts on the wire. -/
def frameOf : Event → Option (List UInt8)
  | .send .completed frame _ => some frame
  | .send _ _ _ => none
  | .datagram _ => none

/-- The datagram is read inside the buffers of `agent_recv`, and is no DTLS record. -/
def Readable (r : Recv) : Prop :=
  match demux r with
  | none => False
  | some (.media payload _) => payload = [] ∨ mediaKind payload ≠ .dtls
  | some .drop | some (.stun _ _ _) => True

/-- What the ends may expect of an event that finds a receiver with context `t`: a frame fits into
a datagram, and another datagram can be read; if it is a packet with the source's name, then one
that is refused now. -/
def Event.Sound (S : Srtp σ τ) (ssrc : UInt32) (t : τ) : Event → Prop
  | .send _ frame _ => rtpHeaderSize + frame.length + 10 ≤ configMtu
  | .datagram r => Readable r ∧ ∀ packet ∈ forged ssrc r, S.Refuses t packet

/-- All events of a run are sound, each for the receiver that it finds. -/
def Sound (S : Srtp σ τ) (ssrc : UInt32) : Ends σ τ → List Event → Prop
  | _, [] => True
  | x, event :: es =>
    event.Sound S ssrc x.srtpIn ∧ ∀ x', step S x event = some x' → Sound S ssrc x' es

/-- The header of packet `n` of a codec. -/
def headerOf (codec : MediaCodec) (n : ℕ) : RtpHeader where
  marker := false
  type := (rtpEncoderInit codec).type
  seqNumber := .ofNat n
  timestamp := .ofNat (n * (rtpEncoderInit codec).timestampIncrement.toNat)
  ssrc := (rtpEncoderInit codec).ssrc

/-! ## One event -/

section Keyed

variable {S : Srtp σ τ} {codec : MediaCodec} {behind : ℕ → ℕ → σ → τ → Prop}

/-- `n` packets were sent, and the last `k` of them lost. -/
structure Inv (codec : MediaCodec) (behind : ℕ → ℕ → σ → τ → Prop) (n k : ℕ) (x : Ends σ τ) :
    Prop where
  encoder : x.encoder = { rtpEncoderInit codec with
    seqNumber := (headerOf codec n).seqNumber
    timestamp := (headerOf codec n).timestamp }
  keyed : behind n k x.srtpOut x.srtpIn
  source : x.remoteAssrc = (rtpEncoderInit codec).ssrc.toNat

theorem inv_start {s : σ} {t : τ} (h : behind 0 0 s t) :
    Inv codec behind 0 0 (start codec s t) := by
  refine ⟨?_, h, rfl⟩
  cases codec <;> rfl

end Keyed

end PipecatVoice.MediaPath
