import Mathlib
import PipecatVoice.BindingCheck
import PipecatVoice.Lib.Decimal
import PipecatVoice.Rtp
import PipecatVoice.TurnAllocate

/-!
# Session descriptions of libpeer

An agent writes its name, its password and its candidates into a session description, and reads
those of the other out of the answer, line by line. Its buffers are of fixed size, and most of
what is read is copied without a test.

* `createSdp` — `peer_connection_create_sdp`, for audio in G.722;
* `setRemoteDescription` — `peer_connection_set_remote_description`;
* `iceCandidateFromDescription` — a candidate line, with `sscanf`.
-/

namespace PipecatVoice.SessionDescription

open BindingCheck CArray Decimal TurnPairs
open TurnAllocate (IceCandidate)

/-! ## Writing -/

/-- `inet_ntop` of an IPv4 address. -/
def inetNtop (a : UInt32) : CString :=
  decimal (a.toNat / 2 ^ 24) ++ ascii "." ++ decimal (a.toNat / 2 ^ 16 % 256) ++ ascii "." ++
    decimal (a.toNat / 2 ^ 8 % 256) ++ ascii "." ++ decimal (a.toNat % 256)

/-- What the platform makes of IPv6 addresses and of names in the local network. -/
structure Resolver where
  /-- `inet_ntop` -/
  ntop6 : Vector UInt16 8 → CString
  /-- `inet_pton` -/
  pton6 : CString → Option (Vector UInt16 8)
  /-- `mdns_resolve_addr` -/
  mdns : CString → Option IpAddr

/-- `addr_to_string` -/
def addrToString (res : Resolver) : IpAddr → CString
  | .v4 a => inetNtop a
  | .v6 a => res.ntop6 a

/-- The type of a candidate, with a related address that is never set. -/
def typRaddr : CandidateType → CString
  | .host => ascii "host"
  | .srflx => ascii "srflx raddr 0.0.0.0 rport 0"
  | .relay => ascii "relay raddr 0.0.0.0 rport 0"
  | .prflx => []

/-- The line of `ice_candidate_to_description`, without its end. -/
def candidateLine (res : Resolver) (c : IceCandidate) : CString :=
  ascii "a=candidate:" ++ decimal c.foundation ++ ascii " " ++ decimal c.component ++ ascii " " ++
    ascii c.transport ++ ascii " " ++ decimal c.priority.toNat ++ ascii " " ++
    addrToString res c.addr.ip ++ ascii " " ++ decimal c.addr.port.toNat ++ ascii " typ " ++
    typRaddr c.type

/-- The end of a line. -/
def crlf : CString := [13, 10]

/-- `snprintf` of a text behind what is in a buffer of `n` bytes. -/
def appendTo (n : ℕ) (s text : CString) : CString := s ++ text.take (n - s.length - 1)

/-- `agent_get_local_description`, into `temp_buf` -/
def agentGetLocalDescription (res : Resolver) (candidates : List IceCandidate) : CString :=
  candidates.foldl (fun s c => appendTo configMtu s (candidateLine res c ++ crlf)) []

/-- `CONFIG_SDP_BUFFER_SIZE` -/
def configSdpBufferSize : ℕ := 8096

/-- `sdp_append` of a text without a `%`; the end of a line is put behind it if it has none. -/
def sdpAppend (sdp text : CString) : CString :=
  let sdp := appendTo configSdpBufferSize sdp text
  if sdp.getLast? = some 10 then sdp else sdp ++ crlf

/-- `DtlsSrtpRole` -/
inductive DtlsSrtpRole where
  | client
  | server
  deriving DecidableEq

/-- `peer_connection_dtls_role_setup_value` -/
def setupValue : DtlsSrtpRole → CString
  | .server => ascii "a=setup:passive"
  | .client => ascii "a=setup:active"

/-- The lines of `sdp_create`, for audio alone. -/
def sdpCreate : List CString :=
  [ascii "v=0", ascii "o=- 1495799811084970 1495799811084970 IN IP4 0.0.0.0", ascii "s=-",
    ascii "t=0 0", ascii "a=msid-semantic: iot", ascii "a=group:BUNDLE audio"]

/-- The lines of `sdp_append_g722`. -/
def sdpAppendG722 : List CString :=
  [ascii "m=audio 9 UDP/TLS/RTP/SAVP 9", ascii "c=IN IP4 0.0.0.0", ascii "a=rtpmap:9 G722/8000",
    ascii "a=ssrc:7 cname:webrtc-g722", ascii "a=sendrecv", ascii "a=mid:audio", ascii "a=rtcp-mux"]

/-- What an agent says of itself. -/
structure Local where
  /-- `local_ufrag` -/
  ufrag : CString
  /-- `local_upwd` -/
  upwd : CString
  /-- `local_fingerprint` -/
  fingerprint : CString
  role : DtlsSrtpRole
  /-- `local_candidates` -/
  candidates : List IceCandidate

/-- The lines before the candidates. -/
def sdpLines (l : Local) : List CString :=
  sdpCreate ++ [ascii "a=ice-ufrag:" ++ l.ufrag, ascii "a=ice-pwd:" ++ l.upwd,
    ascii "a=fingerprint:sha-256 " ++ l.fingerprint, setupValue l.role] ++ sdpAppendG722

/-- `peer_connection_create_sdp`, with the candidates gathered. -/
def createSdp (res : Resolver) (l : Local) : CString :=
  sdpAppend ((sdpLines l).foldl sdpAppend []) (agentGetLocalDescription res l.candidates)

/-! ## Reading -/

/-- Why a text is not read. -/
inductive Failure where
  /-- it is not what was expected -/
  | rejected
  /-- a buffer is left -/
  | overflow
  deriving DecidableEq

/-- `isspace` -/
def isSpace (b : UInt8) : Bool := b = 32 || (9 ≤ b && b ≤ 13)

/-- `%s` of `sscanf`, into a buffer of `room` bytes. -/
def scanString (room : ℕ) (s : CString) : Except Failure (CString × CString) :=
  let s := s.dropWhile isSpace
  let token := s.takeWhile (!isSpace ·)
  if token = [] then .error .rejected
  else if room ≤ token.length then .error .overflow
  else .ok (token, s.drop token.length)

/-- `%d` and `%u` of `sscanf`; a number that does not fit into 32 bits loses its high ones. -/
def scanNumber (s : CString) : Except Failure (UInt32 × CString) :=
  let number (s : CString) (sign : UInt32 → UInt32) :=
    match scan s with
    | none => .error .rejected
    | some (n, rest) => .ok (sign (UInt32.ofNat n), rest)
  match s.dropWhile isSpace with
  | 45 :: s => number s (- ·)
  | 43 :: s => number s id
  | s => number s id

/-- ` typ` in the format of `sscanf`. -/
def scanTyp (s : CString) : Except Failure CString :=
  let s := s.dropWhile isSpace
  if ascii "typ" <+: s then .ok (s.drop 3) else .error .rejected

/-- A number of an address: one to three digits, at most 255. -/
def octet (s : CString) : Option ℕ :=
  if s ≠ [] ∧ s.length ≤ 3 ∧ s.all isDigit ∧ value s ≤ 255 then some (value s) else none

/-- `inet_pton` of an IPv4 address. -/
def inetPton (s : CString) : Option UInt32 :=
  match s.splitOn 46 with
  | [a, b, c, d] => do
    let a ← octet a
    let b ← octet b
    let c ← octet c
    let d ← octet d
    pure (UInt32.ofNat (a * 2 ^ 24 + b * 2 ^ 16 + c * 2 ^ 8 + d))
  | _ => none

/-- `addr_from_string` -/
def addrFromString (res : Resolver) (s : CString) : Option IpAddr :=
  match inetPton s with
  | some a => some (.v4 a)
  | none => (res.pton6 s).map .v6

/-- A remote candidate. -/
structure RemoteCandidate where
  foundation : CString
  component : UInt32
  priority : UInt32
  transport : CString
  type : CandidateType
  addr : Address
  deriving DecidableEq

/-- The type that a word begins with. -/
def candidateType (s : CString) : Except Failure CandidateType :=
  if ascii "host" <+: s then .ok .host
  else if ascii "srflx" <+: s then .ok .srflx
  else if ascii "relay" <+: s then .ok .relay
  else .error .rejected

/-- The address of a candidate line. -/
def candidateAddr (res : Resolver) (s : CString) : Except Failure IpAddr :=
  match if ascii "local" <:+: s then res.mdns s else addrFromString res s with
  | some ip => .ok ip
  | none => .error .rejected

/-- `ice_candidate_from_description`; `description` is all that follows, not the line alone. -/
def iceCandidateFromDescription (res : Resolver) (description : CString) :
    Except Failure RemoteCandidate := do
  let s := if ascii "a=" <+: description then description.drop 2 else description
  let (foundation, s) ← scanString 33 (s.drop 10)
  let (component, s) ← scanNumber s
  let (transport, s) ← scanString 33 s
  let (priority, s) ← scanNumber s
  let (addrstring, s) ← scanString 46 s
  let (port, s) ← scanNumber s
  let s ← scanTyp s
  let (word, _) ← scanString 16 s
  if ¬ (ascii "UDP" <+: transport) ∧ ¬ (ascii "udp" <+: transport) then throw .rejected
  let type ← candidateType word
  let ip ← candidateAddr res addrstring
  pure ⟨foundation, component, priority, transport, type, ⟨ip, port.toUInt16⟩⟩

/-- What is behind the first occurrence of a text: `strstr`, and what follows it. -/
def behind? (pattern : CString) : CString → Option CString
  | [] => if pattern = [] then some [] else none
  | b :: s => if pattern <+: b :: s then some ((b :: s).drop pattern.length) else behind? pattern s

/-- A line, and what follows its end. -/
def firstLine : CString → Option (CString × CString)
  | 13 :: 10 :: rest => some ([], rest)
  | b :: s => (firstLine s).map fun x => (b :: x.1, x.2)
  | [] => none

theorem length_firstLine {s line rest : CString} (h : firstLine s = some (line, rest)) :
    rest.length < s.length := by
  fun_induction firstLine s generalizing line with
  | case1 r =>
    obtain ⟨-, rfl⟩ := Prod.mk.inj (Option.some.inj h)
    exact Nat.lt_succ_of_lt (Nat.lt_succ_self _)
  | case2 b s hne ih =>
    obtain ⟨⟨line', rest'⟩, hs, heq⟩ := Option.map_eq_some_iff.mp h
    obtain ⟨-, rfl⟩ := Prod.mk.inj heq
    exact Nat.lt_succ_of_lt (ih hs)
  | case3 => cases h

/-- What a description sets. -/
structure Remote where
  /-- `remote_ufrag` -/
  ufrag : CArray 257
  /-- `remote_upwd` -/
  upwd : CArray 257
  /-- `remote_candidates` -/
  candidates : List RemoteCandidate
  /-- `remote_assrc` -/
  assrc : UInt32
  /-- `remote_vssrc` -/
  vssrc : UInt32
  /-- `remote_fingerprint` -/
  fingerprint : CArray 160

/-- A connection that was just created. -/
def Remote.zero : Remote := ⟨.zero _, .zero _, [], 0, 0, .zero _⟩

/-- The `strncpy` of a fingerprint. -/
def Remote.setFingerprint (r : Remote) (s : CString) : Remote :=
  { r with fingerprint := r.fingerprint.strncpy s 160 (Nat.le_refl _) }

/-- The media that a line belongs to. -/
inductive Media where
  | audio
  | video
  deriving DecidableEq

/-- The variables of the first loop. -/
structure Scan where
  remote : Remote
  /-- `ssrc` -/
  media : Option Media
  /-- `is_update` -/
  isUpdate : Bool
  buf : CArray 256

/-- The number of `strtoul`, or zero. -/
def strtoul (s : CString) : UInt32 :=
  match scanNumber s with
  | .ok (n, _) => n
  | .error _ => 0

/-- The string from `off` on. -/
def stringAt (buf : CArray 256) (off : ℕ) : CString := (buf.bytes.drop off).takeWhile (· ≠ 0)

/-- A fingerprint is behind `a=fingerprint:sha-256 `. -/
def Scan.readFingerprint (x : Scan) (line : CString) : Scan :=
  if (behind? (ascii "a=fingerprint") line).isSome then
    { x with remote := x.remote.setFingerprint (stringAt x.buf 22) }
  else x

/-- A name that begins with the one known. -/
def Scan.readUfrag (x : Scan) (ufrag line : CString) : Scan :=
  if (behind? (ascii "a=ice-ufrag") line).isSome ∧ ufrag ≠ [] ∧ ufrag <+: stringAt x.buf 12 then
    { x with isUpdate := true }
  else x

/-- The media that the lines behind it belong to. -/
def Scan.readMediaLine (x : Scan) (line : CString) : Scan :=
  if (behind? (ascii "m=video") line).isSome then { x with media := some .video }
  else if (behind? (ascii "m=audio") line).isSome then { x with media := some .audio }
  else x

/-- The source of a media. -/
def Scan.readSsrc (x : Scan) (line : CString) : Scan :=
  match behind? (ascii "a=ssrc:") line, x.media with
  | some rest, some .audio => { x with remote := { x.remote with assrc := strtoul rest } }
  | some rest, some .video => { x with remote := { x.remote with vssrc := strtoul rest } }
  | _, _ => x

/-- A line in the first loop of `peer_connection_set_remote_description`. -/
def readMedia (x : Scan) (line : CString) : Except Failure Scan :=
  match x.buf.write? 0 (line ++ [0]), x.remote.ufrag.string? with
  | some buf, some ufrag =>
    let x := { x with buf := buf }
    .ok ((((x.readFingerprint line).readUfrag ufrag line).readMediaLine line).readSsrc line)
  -- the line or the name runs past its buffer
  | none, _ | _, none => .error .overflow

/-- The first loop. -/
def mediaLoop (x : Scan) (s : CString) : Except Failure Scan :=
  match _h : firstLine s with
  | none => .ok x
  | some (line, rest) => do
    let x ← readMedia x line
    mediaLoop x rest
termination_by s.length
decreasing_by exact length_firstLine _h

/-- `strncpy` of the rest of a line, which ends nowhere. -/
def copyRest (a : CArray 257) (rest : CString) : Except Failure (CArray 257) :=
  match a.write? 0 rest with
  | some a => .ok a
  | none => .error .overflow

/-- `AGENT_MAX_CANDIDATES` -/
def agentMaxCandidates : ℕ := 10

/-- A line in the loop of `agent_set_remote_description`; `s` is all that follows. -/
def readIce (res : Resolver) (r : Remote) (line s : CString) : Except Failure Remote :=
  if ascii "a=ice-ufrag:" <+: s then do
    let ufrag ← copyRest r.ufrag (line.drop 12)
    pure { r with ufrag := ufrag }
  else if ascii "a=ice-pwd:" <+: s then do
    let upwd ← copyRest r.upwd (line.drop 10)
    pure { r with upwd := upwd }
  else if ascii "a=candidate:" <+: s then
    if agentMaxCandidates ≤ r.candidates.length then .error .overflow
    else
      match iceCandidateFromDescription res s with
      | .ok c =>
        if r.candidates.any (·.foundation = c.foundation) then .ok r
        else .ok { r with candidates := r.candidates ++ [c] }
      | .error .rejected => .ok r
      | .error .overflow => .error .overflow
  else .ok r

/-- `agent_set_remote_description` -/
def agentSetRemoteDescription (res : Resolver) (r : Remote) (s : CString) :
    Except Failure Remote :=
  match _h : firstLine s with
  | none => .ok r
  | some (line, rest) => do
    let r ← readIce res r line s
    agentSetRemoteDescription res r rest
termination_by s.length
decreasing_by exact length_firstLine _h

/-- `peer_connection_set_remote_description`, as far as the text is concerned; `buf` is not
initialised. -/
def setRemoteDescription (res : Resolver) (buf : CArray 256) (r : Remote) (sdp : CString) :
    Except Failure Remote := do
  let x ← mediaLoop ⟨r, none, false, buf⟩ sdp
  if x.isUpdate then pure x.remote else agentSetRemoteDescription res x.remote sdp

end PipecatVoice.SessionDescription
