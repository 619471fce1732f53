import PipecatVoice.StunReads
import PipecatVoice.TurnCredentials

/-!
# What is unwrapped

`agent_recv` copies a datagram over what `stun_msg` held, parses it, takes the payload out of
a Data indication and parses again. The parser goes by the lengths in the message, and those
of the DATA attribute are held against the caller's buffer only.

* `recvReads` — the bytes that both parses read;
* `StaysInside` — all of them were received, and so was the payload;
* `staysInside_iff` — which datagrams keep it.
-/

namespace PipecatVoice.TurnUnwrap

open CArray
open TurnCredentials (Agent Recv Validity Demux demux dispatch readMessage agentRecv)

/-- What a buffer holds when something was copied to its beginning. -/
def overlay (bytes behind : List UInt8) : List UInt8 := bytes ++ behind.drop bytes.length

/-- The bytes that the second parse reads. -/
def secondReads : Demux → List (ℕ × ℕ)
  | .stun msg _ _ => parseReads msg.buf.bytes
  | .drop | .media _ _ => []

/-- The bytes of `stun_msg.buf` that are read for a datagram. -/
def recvReads (r : Recv) : List (ℕ × ℕ) :=
  if stunProbe r.payload then
    parseReads (overlay r.payload r.stale.buf.bytes) ++ (demux r).elim [] secondReads
  else []

/-- The datagram is a Data indication. -/
def isDataIndication (bytes : List UInt8) : Bool :=
  stunProbe bytes && stunClassOf (wordAt bytes 0) = .indication &&
    stunMethodOf (wordAt bytes 0) = stunMethodData

/-- The payload is passed on to the caller. -/
def isMedia : Demux → Bool
  | .media _ _ => true
  | .drop | .stun _ _ _ => false

/-- The value of an attribute. -/
def valueOf (bytes : List UInt8) (a : Attr) : List UInt8 := (bytes.drop a.off).take a.len

/-- What goes on is the value of a DATA attribute, all of it received. -/
def FromData (bytes : List UInt8) : Demux → Prop
  | .drop => True
  | .media payload _ | .stun _ payload _ =>
    ∃ a ∈ attrs bytes, a.isData ∧ a.off + a.len ≤ bytes.length ∧ payload = valueOf bytes a

/-- **The unwrapping stays inside the datagram**: no byte behind it is read, what comes out of a
Data indication is its DATA, and one that runs past the end is rejected. -/
structure StaysInside (r : Recv) : Prop where
  /-- what is read -/
  reads : Inside r.payload.length (recvReads r)
  /-- what comes out -/
  outcome : ∃ d, demux r = some d ∧
    (isDataIndication r.payload → FromData r.payload d ∧
      ((∃ a ∈ attrs r.payload, a.isData ∧ r.payload.length < a.off + a.len) →
        d = .drop ∧ ∀ isValid agent, agentRecv isValid agent r = some (agent, -1)))

/-- The attributes of a STUN message lie inside it, as far as they are read; the DATA of a Data
indication does, unless it is empty or longer than the caller's buffer; and if the payload is a
STUN message in turn, its attributes lie inside what was received. -/
def AttrsInside (r : Recv) : Prop :=
  stunProbe r.payload → r.payload.length ≤ stunAttrBufSize ∧ Fits r.payload ∧
    (isDataIndication r.payload → ∀ a ∈ lastData (attrs r.payload),
      a.len = 0 ∨ r.len < a.len ∨
        (a.off + a.len ≤ r.payload.length ∧
          (stunProbe (valueOf r.payload a) → Fits (overlay (valueOf r.payload a) r.payload))))

/-! ## Copying -/

theorem overlay_append {bytes e rest : List UInt8} (h : bytes.length ≤ e.length) :
    overlay bytes (e ++ rest) = overlay bytes e ++ rest := by
  rw [overlay, overlay, List.drop_append_of_le_length h, List.append_assoc]

theorem length_overlay {bytes e : List UInt8} (h : bytes.length ≤ e.length) :
    (overlay bytes e).length = e.length := by
  rw [overlay, List.length_append, List.length_drop]
  omega

theorem overlay_self (e : List UInt8) : overlay e e = e := by
  rw [overlay, List.drop_length, List.append_nil]

theorem length_valueOf {bytes : List UInt8} {a : Attr} (h : a.off + a.len ≤ bytes.length) :
    (valueOf bytes a).length = a.len := by
  rw [valueOf, List.length_take, List.length_drop]
  omega

/-- A message is read over what was there. -/
theorem exists_readMessage (msg : StunMessage) {bytes : List UInt8}
    (h : bytes.length ≤ stunAttrBufSize) :
    ∃ m : StunMessage, m.buf.bytes = overlay bytes msg.buf.bytes ∧
      readMessage msg bytes = stunParse m := by
  obtain ⟨buf, hcopy, hbuf⟩ := exists_memcpy? msg.buf h
  refine ⟨{ msg with buf := buf }, hbuf, ?_⟩
  rw [readMessage, hcopy]
  rfl

theorem readMessage_length {msg msg' : StunMessage} {bytes : List UInt8}
    (h : readMessage msg bytes = some msg') : bytes.length ≤ stunAttrBufSize := by
  obtain ⟨buf, hcopy, -⟩ := Option.bind_eq_some_iff.mp h
  exact (memcpy?_isSome msg.buf bytes).mp (Option.isSome_of_eq_some hcopy)

/-- **One parse of `agent_recv`**: of a message `e`, at whose beginning `bytes` was copied. -/
theorem readMessage_inside_iff {msg : StunMessage} {bytes e rest : List UInt8}
    (hprobe : stunProbe bytes) (hbuf : msg.buf.bytes = e ++ rest)
    (hle : bytes.length ≤ e.length) (he : e.length ≤ stunAttrBufSize) :
    (∃ m, readMessage msg bytes = some m ∧ Inside e.length (parseReads m.buf.bytes)) ↔
      Fits (overlay bytes e) := by
  have hlong := TurnCredentials.stunProbe_length hprobe
  obtain ⟨m, hm, hread⟩ := exists_readMessage msg (hle.trans he)
  rw [hbuf, overlay_append hle] at hm
  have hlength := length_overlay hle
  rw [hread, ← stunParse_inside_iff (hlong.trans (hlength ▸ hle)) hm, hlength]
  refine ⟨?_, ?_⟩
  · rintro ⟨m', hparse, hinside⟩
    rw [stunParse_buf hparse, hm] at hinside
    exact ⟨Option.isSome_of_eq_some hparse, hinside⟩
  · rintro ⟨hsome, hinside⟩
    obtain ⟨m', hparse⟩ := Option.isSome_iff_exists.mp hsome
    refine ⟨m', hparse, ?_⟩
    rw [stunParse_buf hparse, hm]
    exact hinside

/-- What that parse comes to. -/
theorem readMessage_of_fits {msg m : StunMessage} {bytes e rest : List UInt8}
    (hprobe : stunProbe bytes) (hbuf : msg.buf.bytes = e ++ rest)
    (hle : bytes.length ≤ e.length) (hfits : Fits (overlay bytes e))
    (h : readMessage msg bytes = some m) :
    m.buf.bytes = overlay bytes e ++ rest ∧
      m.stunclass = stunClassOf (wordAt (overlay bytes e) 0) ∧
      m.stunmethod = stunMethodOf (wordAt (overlay bytes e) 0) ∧
      m.data = (lastData (attrs (overlay bytes e))).map Attr.range := by
  have hlong := TurnCredentials.stunProbe_length hprobe
  obtain ⟨m', hm, hread⟩ := exists_readMessage msg (readMessage_length h)
  rw [hbuf, overlay_append hle] at hm
  obtain ⟨-, m'', hparse, hsame, hclass, hmethod, hdata⟩ :=
    stunParse_of_fits (hlong.trans ((length_overlay hle).symm ▸ hle)) hm hfits
  obtain rfl := Option.some.inj ((h.symm.trans hread).trans hparse).symm
  rw [hsame]
  exact ⟨hm, hclass, hmethod, hdata⟩

/-! ## The second step of `agent_recv` -/

theorem dispatch_ne_drop {msg : StunMessage} {payload : List UInt8} {src : Address} {d : Demux}
    (h : dispatch msg payload src = some d) : d ≠ .drop := by
  rw [dispatch] at h
  split at h
  · obtain ⟨m, -, hd⟩ := Option.bind_eq_some_iff.mp h
    rw [← Option.some.inj hd]
    exact Demux.noConfusion
  · rw [← Option.some.inj h]
    exact Demux.noConfusion

/-- **What is parsed again stays inside exactly when** its attributes do. -/
theorem dispatch_inside_iff {msg : StunMessage} {payload e rest : List UInt8} (src : Address)
    (hbuf : msg.buf.bytes = e ++ rest) (hle : payload.length ≤ e.length)
    (he : e.length ≤ stunAttrBufSize) :
    (∃ d, dispatch msg payload src = some d ∧ Inside e.length (secondReads d)) ↔
      (stunProbe payload → Fits (overlay payload e)) := by
  by_cases hprobe : stunProbe payload
  · rw [← readMessage_inside_iff hprobe hbuf hle he, imp_iff_right hprobe]
    rw [dispatch, if_pos hprobe]
    refine ⟨?_, ?_⟩
    · rintro ⟨d, hd, hinside⟩
      obtain ⟨m, hm, hd⟩ := Option.bind_eq_some_iff.mp hd
      obtain rfl := Option.some.inj hd
      exact ⟨m, hm, hinside⟩
    · rintro ⟨m, hm, hinside⟩
      exact ⟨.stun m payload src, Option.bind_eq_some_iff.mpr ⟨m, hm, rfl⟩, hinside⟩
  · rw [dispatch, if_neg hprobe]
    exact iff_of_true ⟨_, rfl, inside_nil _⟩ fun h => absurd h hprobe

theorem dispatch_payload {msg : StunMessage} {payload bytes : List UInt8} {src : Address}
    {d : Demux} (h : dispatch msg payload src = some d)
    (hpayload : ∃ a ∈ attrs bytes, a.isData ∧ a.off + a.len ≤ bytes.length ∧
      payload = valueOf bytes a) : FromData bytes d := by
  rw [dispatch] at h
  split at h
  · obtain ⟨m, -, hd⟩ := Option.bind_eq_some_iff.mp h
    rw [← Option.some.inj hd]
    exact hpayload
  · rw [← Option.some.inj h]
    exact hpayload

/-! ## The datagram -/

/-- What the unwrapping makes of a message. -/
def unwrap (r : Recv) (msg : StunMessage) : Option Demux :=
  if msg.stunclass = .indication ∧ msg.stunmethod = stunMethodData then
    match msg.data with
    | none => some .drop
    | some (off, len) =>
      if len = 0 ∨ r.len < len then some .drop
      else do
        let inner ← msg.buf.slice? off len
        dispatch msg inner msg.peerAddr
  else dispatch msg r.payload r.src

theorem demux_eq {r : Recv} (h : stunProbe r.payload) :
    demux r = (readMessage r.stale r.payload).bind (unwrap r) := if_pos h

theorem demux_media {r : Recv} (h : ¬ stunProbe r.payload) :
    demux r = some (.media r.payload r.src) := if_neg h

/-- The memory of the first parse: the datagram, and what was there before. -/
theorem overlay_stale (r : Recv) (h : r.payload.length ≤ stunAttrBufSize) :
    ∃ e rest, r.stale.buf.bytes = e ++ rest ∧ e.length = r.payload.length ∧
      overlay r.payload e = r.payload := by
  refine ⟨r.stale.buf.bytes.take r.payload.length, r.stale.buf.bytes.drop r.payload.length,
    (List.take_append_drop ..).symm, ?_, ?_⟩
  · rw [List.length_take, r.stale.buf.length_eq, Nat.min_eq_left h]
  · rw [overlay, List.drop_take_self, List.append_nil]

/-- A datagram that does not look like STUN is passed on. -/
theorem staysInside_media {r : Recv} (h : ¬ stunProbe r.payload) : StaysInside r := by
  refine ⟨?_, .media r.payload r.src, demux_media h, fun hdata => ?_⟩
  · rw [recvReads, if_neg h]
    exact inside_nil _
  · rw [isDataIndication, Bool.and_eq_true, Bool.and_eq_true] at hdata
    exact absurd hdata.1.1 h

theorem agentRecv_drop {r : Recv} (h : demux r = some .drop) (isValid : Validity)
    (agent : Agent) : agentRecv isValid agent r = some (agent, -1) := by
  rw [agentRecv, h]
  rfl

/-- What the first parse finds in a datagram whose attributes lie inside. -/
structure Parsed (r : Recv) (msg : StunMessage) (rest : List UInt8) : Prop where
  /-- the datagram, and what was there before -/
  buf : msg.buf.bytes = r.payload ++ rest
  /-- the type -/
  indication : msg.stunclass = .indication ∧ msg.stunmethod = stunMethodData ↔
    isDataIndication r.payload
  /-- the payload -/
  data : msg.data = (lastData (attrs r.payload)).map Attr.range

theorem exists_parsed {r : Recv} {msg : StunMessage} (hprobe : stunProbe r.payload)
    (hread : readMessage r.stale r.payload = some msg) (hfits : Fits r.payload) :
    ∃ rest, Parsed r msg rest := by
  obtain ⟨e, rest, hstale, hlength, hover⟩ := overlay_stale r (readMessage_length hread)
  obtain ⟨hbuf, hclass, hmethod, hdata⟩ :=
    readMessage_of_fits hprobe hstale hlength.ge (hover.symm ▸ hfits) hread
  rw [hover] at hbuf hclass hmethod hdata
  refine ⟨rest, hbuf, ?_, hdata⟩
  rw [hclass, hmethod, isDataIndication, hprobe, Bool.true_and, Bool.and_eq_true,
    decide_eq_true_eq, decide_eq_true_eq]

/-- The payload where the first parse has found it. -/
theorem Parsed.slice {r : Recv} {msg : StunMessage} {rest : List UInt8} (h : Parsed r msg rest)
    {a : Attr} (hinside : a.off + a.len ≤ r.payload.length) :
    msg.buf.slice? a.off a.len = some (valueOf r.payload a) := by
  have hlong := congrArg List.length h.buf
  rw [msg.buf.length_eq, List.length_append] at hlong
  rw [slice?, if_pos (by omega), h.buf, List.drop_append_of_le_length (by omega),
    List.take_append_of_le_length]
  · rfl
  · rw [List.length_drop]
    omega

/-- Behind the first parse: nothing is read outside the datagram, and what is handed on of a Data
indication comes from its DATA. -/
def GoesOn (r : Recv) (d : Demux) : Prop :=
  Inside r.payload.length (secondReads d) ∧
    (isDataIndication r.payload → FromData r.payload d ∧
      ((∃ a ∈ attrs r.payload, a.isData ∧ r.payload.length < a.off + a.len) → d = .drop))

theorem goesOn_drop (r : Recv) : GoesOn r .drop :=
  ⟨inside_nil _, fun _ => ⟨trivial, fun _ => rfl⟩⟩

/-- **A Data indication goes on inside the datagram exactly when** its DATA lies there, or is
not passed on at all. -/
theorem unwrap_data_iff {r : Recv} {msg : StunMessage} {rest : List UInt8} (h : Parsed r msg rest)
    (hlong : r.payload.length ≤ stunAttrBufSize) (hdata : isDataIndication r.payload) :
    (∃ d, unwrap r msg = some d ∧ GoesOn r d) ↔ ∀ a ∈ lastData (attrs r.payload),
      a.len = 0 ∨ r.len < a.len ∨
        (a.off + a.len ≤ r.payload.length ∧
          (stunProbe (valueOf r.payload a) → Fits (overlay (valueOf r.payload a) r.payload))) := by
  rw [unwrap, if_pos (h.indication.mpr hdata), h.data]
  cases hlast : lastData (attrs r.payload) with
  | none => exact iff_of_true ⟨.drop, rfl, goesOn_drop r⟩ fun _ h => by cases h
  | some a =>
    obtain ⟨hmem, hisData⟩ := mem_of_lastData hlast
    simp only [Option.map_some, Attr.range, Option.mem_def, Option.some.injEq, forall_eq']
    by_cases hdrop : a.len = 0 ∨ r.len < a.len
    · rw [if_pos hdrop]
      exact iff_of_true ⟨.drop, rfl, goesOn_drop r⟩ (hdrop.imp_right .inl)
    · rw [if_neg hdrop]
      obtain ⟨hempty, hlonger⟩ := not_or.mp hdrop
      rw [or_iff_right hempty, or_iff_right hlonger]
      by_cases hinside : a.off + a.len ≤ r.payload.length
      · have hvalue := length_valueOf hinside
        rw [h.slice hinside, and_iff_right hinside,
          ← dispatch_inside_iff msg.peerAddr h.buf (by omega) hlong]
        refine ⟨?_, ?_⟩
        · rintro ⟨d, hd, hreads, -⟩
          exact ⟨d, hd, hreads⟩
        · rintro ⟨d, hd, hreads⟩
          refine ⟨d, hd, hreads, fun _ =>
            ⟨dispatch_payload hd ⟨a, hmem, hisData, hinside, rfl⟩, ?_⟩⟩
          rintro ⟨b, hb, hbData, hpast⟩
          have hsame := (lastData_of_past hb hbData hpast).symm.trans hlast
          obtain rfl := Option.some.inj hsame
          exact absurd hinside (by omega)
      · refine iff_of_false ?_ fun h => hinside h.1
        rintro ⟨d, hd, -, hgoes⟩
        obtain ⟨inner, -, hd⟩ := Option.bind_eq_some_iff.mp hd
        exact dispatch_ne_drop hd ((hgoes hdata).2 ⟨a, hmem, hisData, by omega⟩)

/-- Anything else is parsed again as it is. -/
theorem unwrap_other {r : Recv} {msg : StunMessage} {rest : List UInt8} (h : Parsed r msg rest)
    (hlong : r.payload.length ≤ stunAttrBufSize) (hfits : Fits r.payload)
    (hdata : ¬ isDataIndication r.payload) : ∃ d, unwrap r msg = some d ∧ GoesOn r d := by
  rw [unwrap, if_neg (mt h.indication.mp hdata)]
  obtain ⟨d, hd, hreads⟩ := (dispatch_inside_iff r.src h.buf le_rfl hlong).mpr fun _ => by
    rw [overlay_self]
    exact hfits
  exact ⟨d, hd, hreads, fun h => absurd h hdata⟩

theorem staysInside_of_unwrap {r : Recv} {msg : StunMessage} {d : Demux}
    (hprobe : stunProbe r.payload) (hread : readMessage r.stale r.payload = some msg)
    (hfirst : Inside r.payload.length (parseReads msg.buf.bytes))
    (hbuf : msg.buf.bytes = overlay r.payload r.stale.buf.bytes)
    (hd : unwrap r msg = some d) (hgoes : GoesOn r d) : StaysInside r := by
  have hdemux : demux r = some d := by
    rw [demux_eq hprobe, hread]
    exact hd
  refine ⟨?_, d, hdemux, fun hdata => ⟨(hgoes.2 hdata).1, fun hpast => ?_⟩⟩
  · rw [recvReads, if_pos hprobe, hdemux, inside_append, ← hbuf]
    exact ⟨hfirst, hgoes.1⟩
  · obtain rfl := (hgoes.2 hdata).2 hpast
    exact ⟨rfl, agentRecv_drop hdemux⟩

/-- The message of the first parse is the one over the old memory. -/
theorem readMessage_buf {msg m : StunMessage} {bytes : List UInt8}
    (h : readMessage msg bytes = some m) : m.buf.bytes = overlay bytes msg.buf.bytes := by
  obtain ⟨m', hm, hread⟩ := exists_readMessage msg (readMessage_length h)
  rw [stunParse_buf (hread.symm.trans h), hm]

/-- **The unwrapping stays inside the datagram exactly when** the attributes do, its own and
those of the payload. -/
theorem staysInside_iff (r : Recv) : StaysInside r ↔ AttrsInside r := by
  by_cases hprobe : stunProbe r.payload
  · rw [AttrsInside, imp_iff_right hprobe]
    refine ⟨?_, ?_⟩
    · rintro ⟨hreads, d, hdemux, hout⟩
      rw [recvReads, if_pos hprobe, hdemux, inside_append] at hreads
      rw [demux_eq hprobe] at hdemux
      obtain ⟨msg, hread, hunwrap⟩ := Option.bind_eq_some_iff.mp hdemux
      have hlong := readMessage_length hread
      obtain ⟨e, rest, hstale, hlength, hover⟩ := overlay_stale r hlong
      have hfits : Fits r.payload := by
        rw [← hover, ← readMessage_inside_iff hprobe hstale hlength.ge (hlength.le.trans hlong)]
        refine ⟨msg, hread, ?_⟩
        rw [readMessage_buf hread, hlength]
        exact hreads.1
      obtain ⟨rest', hparsed⟩ := exists_parsed hprobe hread hfits
      refine ⟨hlong, hfits, fun hdata => ?_⟩
      refine (unwrap_data_iff hparsed hlong hdata).mp ⟨d, hunwrap, hreads.2, fun hdata => ?_⟩
      exact ⟨(hout hdata).1, fun hpast => ((hout hdata).2 hpast).1⟩
    · rintro ⟨hlong, hfits, hdata⟩
      obtain ⟨e, rest, hstale, hlength, hover⟩ := overlay_stale r hlong
      obtain ⟨msg, hread, hfirst⟩ := (readMessage_inside_iff hprobe hstale hlength.ge
        (hlength.le.trans hlong)).mpr (hover.symm ▸ hfits)
      rw [hlength] at hfirst
      obtain ⟨rest', hparsed⟩ := exists_parsed hprobe hread hfits
      obtain ⟨d, hd, hgoes⟩ : ∃ d, unwrap r msg = some d ∧ GoesOn r d := by
        by_cases hind : isDataIndication r.payload
        · exact (unwrap_data_iff hparsed hlong hind).mpr (hdata hind)
        · exact unwrap_other hparsed hlong hfits hind
      exact staysInside_of_unwrap hprobe hread hfirst (readMessage_buf hread) hd hgoes
  · exact iff_of_true (staysInside_media hprobe) fun h => absurd h hprobe

/-! ## A DATA attribute that runs past the end -/

/-- A Data indication of 28 bytes, whose DATA says it is 100 bytes long. -/
def longData : Recv where
  src := ⟨.v4 0x0A000001, 3478⟩
  datagram := [0, 0x17, 0, 8] ++ magicCookie ++ List.replicate 12 0 ++
    [0x00, 0x13, 0, 100, 0x80, 0x60, 0, 1]
  len := 1300
  stale := .zero
  now := 0

/-- Four of its bytes and 96 of what was there before are delivered. -/
theorem staysInside_longData : ¬ StaysInside longData := by
  rintro ⟨-, d, hdemux, hout⟩
  have hpast : (attrs longData.payload).any fun a =>
      a.isData && decide (longData.payload.length < a.off + a.len) := by
    decide +kernel
  obtain ⟨a, ha, hlong⟩ := List.any_eq_true.mp hpast
  rw [Bool.and_eq_true, decide_eq_true_eq] at hlong
  have hdrop := ((hout (by decide +kernel)).2 ⟨a, ha, hlong.1, hlong.2⟩).1
  have hret : (demux longData).any isMedia := by
    decide +kernel
  rw [hdemux, hdrop] at hret
  exact absurd hret Bool.false_ne_true

end PipecatVoice.TurnUnwrap
