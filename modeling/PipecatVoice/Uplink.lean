import PipecatVoice.G722Lockstep
import PipecatVoice.Lib.Feed
import PipecatVoice.SessionSteps

/-!
# The uplink stream

Each frame of a turn becomes a packet of the one stateful encoder. Packets wait
in the backlog until the peer is connected. The decoder at the far end starts
afresh with each connection, so it follows the encoder only if the packets a peer
is handed begin with the first one since the encoder was reset, and leave none
out. But the encoder is reset for a wake word, not for a connection.

* `UplinkHistory` — the packets as a `Feed` from the encoder to the peer;
* `uplinkFollows_iff` — the packets handed to each peer are the first ones since
  the reset, and the decoder is in lockstep, in exactly the runs where the feed
  loses none, no peer comes late, and none stays on.
-/

namespace PipecatVoice

open Runs

/-! ## The codec, packet by packet -/

/-- Successive packets of one encoder, and the state it ends in. -/
def encodeFrames (s : G722Codec) : List (List Int16) → G722Codec × List Packet
  | [] => (s, [])
  | amp :: amps =>
    let rest := encodeFrames (g722Encode s amp).1 amps
    (rest.1, (g722Encode s amp).2 :: rest.2)

theorem encodeFrames_concat (s : G722Codec) (amps : List (List Int16)) (amp : List Int16) :
    encodeFrames s (amps ++ [amp]) =
      ((g722Encode (encodeFrames s amps).1 amp).1,
        (encodeFrames s amps).2 ++ [(g722Encode (encodeFrames s amps).1 amp).2]) := by
  induction amps generalizing s with
  | nil => rfl
  | cons a amps ih => simp only [List.cons_append, encodeFrames, ih]

theorem encodeFrames_take (s : G722Codec) (amps : List (List Int16)) (n : ℕ) :
    (encodeFrames s (amps.take n)).2 = (encodeFrames s amps).2.take n := by
  induction amps generalizing s n with
  | nil => simp [encodeFrames]
  | cons amp amps ih =>
    cases n with
    | zero => rfl
    | succ n => simp only [List.take_succ_cons, encodeFrames, ih]

theorem encodeCalls_eq (s : G722Codec) (amps : List (List Int16)) :
    (encodeCalls s amps).2 = (encodeFrames s amps).2.flatten := by
  induction amps generalizing s with
  | nil => rfl
  | cons amp amps ih => simp only [encodeCalls, encodeFrames, List.flatten_cons, ih]

/-- A decoder fed the first `n` packets of an encoder is in lockstep with it. -/
theorem lockstep_take (amps : List (List Int16)) (n : ℕ) :
    (encodeCalls g722Init (amps.take n)).1.map adaptive =
      (decodeCalls g722Init ((encodeFrames g722Init amps).2.take n)).map adaptive := by
  rw [decodeCalls_eq, ← encodeFrames_take, ← encodeCalls_eq]
  exact adaptive_calls (amps.take n) rfl nbsInRange_init

/-! ## The feed -/

/-- What a run has sent. -/
structure UplinkHistory where
  /-- the packets, from the encoder to the latest peer -/
  feed : Feed Packet
  /-- what the encoder was given since its reset -/
  sources : List (List Int16)

/-- The packet the capture task hands to `sendAudio` in its next step. -/
def CaptureTask.hands (c : CaptureTask) : Option Packet :=
  match c.pc with
  | .send (_ + 1) => c.ring.pop.map Prod.fst
  | .sendLive => some c.wireBuf
  | _ => none

/-- How many packets make way for a new one: the oldest one of a full ring, or,
without a ring, the one that was not sent. -/
def CaptureTask.overflow (c : CaptureTask) (cfg : Config) (f : Feed Packet) : ℕ :=
  if cfg.ringOk then if c.ring.count < ringPkts then 0 else 1 else f.queue.length

/-- The history, one step on. -/
def recordUplink (cfg : Config) (h : UplinkHistory) (s : State) : Action → UplinkHistory
  | .main net =>
    if s.main.pc = .buildCreate ∧ net.created then { h with feed := h.feed.switch } else h
  | .capture mic =>
    match s.cap.pc with
    | .resetEnc => ⟨h.feed.reset, []⟩
    | .encode =>
      let amp := uplinkSource s.cap mic.muted
      ⟨(h.feed.skip (s.cap.overflow cfg h.feed)).make (g722Encode s.cap.g722Enc amp).2,
        h.sources ++ [amp]⟩
    | _ =>
      match s.cap.hands with
      | some pkt => { h with feed := h.feed.hand pkt }
      | none => h
  | _ => h

/-- A packet handed to the peer in this step continues a prefix of the packets
since the latest `g722_init`; and a fresh decoder that is given the peer's packets
has after each octet the adaptive state that the encoder had. -/
def uplinkFollows (x : State × UplinkHistory) : Action → Bool
  | .capture _ =>
    match x.1.cap.hands with
    | some pkt =>
      let handed := x.2.feed.handed ++ [x.2.feed.front pkt]
      handed <+: x.2.feed.produced &&
        (encodeCalls g722Init (x.2.sources.take handed.length)).1.map adaptive =
          (decodeCalls g722Init (handed.map Feed.Item.value)).map adaptive
    | none => true
  | _ => true

/-- A packet is handed to the peer in this step only if since the latest
`g722_init` no packet was dropped, when the peer was built no packet since then
had left the backlog, and at that reset the peer had been handed none. -/
def feedIntact (x : State × UplinkHistory) : Action → Bool
  | .capture _ =>
    x.1.cap.hands.isNone || (!x.2.feed.dropped && !x.2.feed.late && !x.2.feed.stale)
  | _ => true

namespace CapturePc

/-- The capture task has a new packet in its wire buffer. -/
def carries : CapturePc → Bool
  | .loadConnected | .lock | .testPeer | .sendLive => true
  | _ => false

/-- The capture task sends from the ring if there is one. -/
def sendsFrom (pc : CapturePc) (ringOk : Bool) : Bool :=
  match pc with
  | .send _ => ringOk
  | .sendLive => !ringOk
  | _ => true

/-- No turn has begun yet, or the encoder's reset is still to come. -/
def unwoken (pc : CapturePc) (active : Bool) : Bool :=
  pc ≠ .encode && (!active || pc = .ackLed || pc = .resetEnc)

theorem unwoken_mono {pc : CapturePc} {active active' : Bool} (h : pc.unwoken active)
    (hle : active' → active) : pc.unwoken active' := by
  rw [unwoken, Bool.and_eq_true] at h ⊢
  refine ⟨h.1, ?_⟩
  cases active' with
  | false => rfl
  | true =>
    rw [hle rfl] at h
    exact h.2

end CapturePc

section Steps

variable (cfg : Config) (us : ℕ) (mic : Mic) (sh : Shared) {c : CaptureTask}

theorem sendsFrom_of_captureStep (h : c.pc.sendsFrom cfg.ringOk) :
    (captureStep cfg us mic sh c).2.pc.sendsFrom cfg.ringOk := by
  obtain ⟨pc, _⟩ := c
  cases pc <;> simp only [captureStep]
  all_goals
    (repeat' split) <;> simp_all [CapturePc.sendsFrom]

theorem carries_of_captureStep (h : (captureStep cfg us mic sh c).2.pc.carries) :
    c.pc = .encode ∨ (c.pc.carries ∧ c.hands = none) := by
  obtain ⟨pc, _⟩ := c
  cases pc <;> simp only [captureStep] at h
  all_goals
    (repeat' split at h) <;> simp_all [CapturePc.carries, CaptureTask.hands]

/-- Away from the encoder and the sends, the packets stay where they are. -/
theorem captureStep_packets (hreset : c.pc ≠ .resetEnc) (hencode : c.pc ≠ .encode)
    (hhands : c.hands = none) :
    (captureStep cfg us mic sh c).2.ring = c.ring ∧
      (captureStep cfg us mic sh c).2.wireBuf = c.wireBuf ∧
      (captureStep cfg us mic sh c).2.g722Enc = c.g722Enc := by
  obtain ⟨pc, _⟩ := c
  cases pc <;> simp only [captureStep]
  all_goals
    (repeat' split) <;> simp_all [CaptureTask.hands]

theorem unwoken_of_captureStep (h : c.pc.unwoken sh.conversationActive)
    (hreset : c.pc ≠ .resetEnc) :
    (captureStep cfg us mic sh c).2.pc.unwoken
      (captureStep cfg us mic sh c).1.conversationActive := by
  obtain ⟨pc, _⟩ := c
  cases pc <;> simp only [captureStep]
  all_goals
    (repeat' split) <;> simp_all [CapturePc.unwoken]

theorem captureStep_resetEnc (h : c.pc = .resetEnc) : captureStep cfg us mic sh c =
    (sh, { c with g722Enc := g722Init, ring := c.ring.clear, pc := .resetReplied }) := by
  simp only [captureStep, h]

theorem captureStep_encode (h : c.pc = .encode) : captureStep cfg us mic sh c =
    (sh, { c with
      g722Enc := (g722Encode c.g722Enc (uplinkSource c mic.muted)).1
      wireBuf := (g722Encode c.g722Enc (uplinkSource c mic.muted)).2
      ring :=
        if cfg.ringOk then c.ring.push (g722Encode c.g722Enc (uplinkSource c mic.muted)).2
        else c.ring
      pc := .loadConnected }) := by
  simp only [captureStep, h]

/-- A send takes the packet it hands over out of the ring, or leaves the ring
alone. -/
theorem captureStep_hands {pkt : Packet} (h : c.hands = some pkt) :
    (captureStep cfg us mic sh c).2.g722Enc = c.g722Enc ∧
      ¬ (captureStep cfg us mic sh c).2.pc.carries ∧
      (captureStep cfg us mic sh c).1.conversationActive = sh.conversationActive ∧
      (c.pc.sendsFrom true → ∃ ring, c.ring.pop = some (pkt, ring) ∧
        (captureStep cfg us mic sh c).2.ring = ring) := by
  cases hpc : c.pc
  case send budget =>
    cases budget with
    | zero => simp [CaptureTask.hands, hpc] at h
    | succ budget =>
      obtain ⟨⟨front, ring⟩, hpop, rfl⟩ : ∃ r, c.ring.pop = some r ∧ r.1 = pkt := by
        simpa [CaptureTask.hands, hpc] using h
      simp [captureStep, hpc, hpop, CapturePc.carries]
  case sendLive => simp [captureStep, hpc, CapturePc.carries, CapturePc.sendsFrom]
  all_goals simp [CaptureTask.hands, hpc] at h

end Steps

section Records

variable {cfg : Config} {h : UplinkHistory} {s : State} {mic : Mic}

theorem recordUplink_resetEnc (hpc : s.cap.pc = .resetEnc) :
    recordUplink cfg h s (.capture mic) = ⟨h.feed.reset, []⟩ := by
  simp only [recordUplink, hpc]

theorem recordUplink_encode (hpc : s.cap.pc = .encode) :
    recordUplink cfg h s (.capture mic) =
      ⟨(h.feed.skip (s.cap.overflow cfg h.feed)).make
          (g722Encode s.cap.g722Enc (uplinkSource s.cap mic.muted)).2,
        h.sources ++ [uplinkSource s.cap mic.muted]⟩ := by
  simp only [recordUplink, hpc]

theorem recordUplink_hands {pkt : Packet} (hhands : s.cap.hands = some pkt) :
    recordUplink cfg h s (.capture mic) = { h with feed := h.feed.hand pkt } := by
  cases hpc : s.cap.pc
  case send budget => simp only [recordUplink, hpc, hhands]
  case sendLive => simp only [recordUplink, hpc, hhands]
  all_goals simp [CaptureTask.hands, hpc] at hhands

theorem recordUplink_idle (hreset : s.cap.pc ≠ .resetEnc) (hencode : s.cap.pc ≠ .encode)
    (hhands : s.cap.hands = none) : recordUplink cfg h s (.capture mic) = h := by
  cases hpc : s.cap.pc
  case resetEnc => exact absurd hpc hreset
  case encode => exact absurd hpc hencode
  all_goals simp only [recordUplink, hpc, hhands]

end Records

/-- What the history is to the capture task. -/
structure UplinkInv (cfg : Config) (x : State × UplinkHistory) : Prop where
  /-- the feed by itself -/
  feed : x.2.feed.Inv
  /-- the ring holds the queue -/
  ring : cfg.ringOk → x.1.cap.ring.toList = x.2.feed.queue
  /-- without a ring, the wire buffer does -/
  wire : cfg.ringOk = false → x.1.cap.pc.carries → x.2.feed.queue = [x.1.cap.wireBuf]
  /-- packets are sent from where they are -/
  sends : x.1.cap.pc.sendsFrom cfg.ringOk
  /-- the encoder has made the packets since its reset -/
  encoder :
    encodeFrames g722Init x.2.sources =
        (x.1.cap.g722Enc, x.2.feed.produced.map Feed.Item.value) ∨
      (x.2.feed.produced = [] ∧ x.1.cap.pc.unwoken x.1.sh.conversationActive)

section

variable {cfg : Config} {x : State × UplinkHistory}

/-- What the capture task hands over is at the front of the queue. -/
theorem UplinkInv.queue_of_hands (h : UplinkInv cfg x) {pkt : Packet}
    (hhands : x.1.cap.hands = some pkt) : ∃ rest, x.2.feed.queue = pkt :: rest := by
  cases hpc : x.1.cap.pc
  case send budget =>
    have hring : cfg.ringOk := by simpa [hpc, CapturePc.sendsFrom] using h.sends
    cases budget with
    | zero => simp [CaptureTask.hands, hpc] at hhands
    | succ budget =>
      obtain ⟨⟨pkt, ring⟩, hpop, rfl⟩ : ∃ r, x.1.cap.ring.pop = some r ∧ r.1 = pkt := by
        simpa [CaptureTask.hands, hpc] using hhands
      refine ⟨ring.toList, ?_⟩
      rw [← h.ring hring, RingBuf.toList_pop hpop]
  case sendLive =>
    have hring : cfg.ringOk = false := by simpa [hpc, CapturePc.sendsFrom] using h.sends
    obtain rfl : x.1.cap.wireBuf = pkt := by simpa [CaptureTask.hands, hpc] using hhands
    exact ⟨[], h.wire hring (by rw [hpc]; rfl)⟩
  all_goals simp [CaptureTask.hands, hpc] at hhands

theorem UplinkInv.main (h : UplinkInv cfg x) (net : Net) :
    UplinkInv cfg (observe (step cfg) (recordUplink cfg) x (.main net)) := by
  obtain ⟨s, hist⟩ := x
  have hencoder : encodeFrames g722Init hist.sources =
      (s.cap.g722Enc, hist.feed.produced.map Feed.Item.value) ∨
      (hist.feed.produced = [] ∧
        s.cap.pc.unwoken (mainStep cfg s.us net s.sh s.main).1.conversationActive) := by
    rcases h.encoder with hmade | ⟨hnone, hunwoken⟩
    · exact Or.inl hmade
    · refine Or.inr ⟨hnone, ?_⟩
      exact CapturePc.unwoken_mono hunwoken (active_of_mainStep cfg s.us net s.sh s.main)
  by_cases hbuild : s.main.pc = .buildCreate ∧ net.created
  · have hrec : recordUplink cfg hist s (.main net) = { hist with feed := hist.feed.switch } :=
      if_pos hbuild
    rw [observe, hrec]
    exact ⟨h.feed.switch, h.ring, h.wire, h.sends, hencoder⟩
  · have hrec : recordUplink cfg hist s (.main net) = hist := if_neg hbuild
    rw [observe, hrec]
    exact ⟨h.feed, h.ring, h.wire, h.sends, hencoder⟩

/-- The encoder is reset, and the ring emptied. -/
theorem UplinkInv.resetEnc (h : UplinkInv cfg x) (hpc : x.1.cap.pc = .resetEnc) (mic : Mic) :
    UplinkInv cfg (observe (step cfg) (recordUplink cfg) x (.capture mic)) := by
  have hstep := captureStep_resetEnc cfg x.1.us mic x.1.sh hpc
  rw [observe, recordUplink_resetEnc hpc]
  refine ⟨h.feed.reset, ?_, ?_, ?_, Or.inl ?_⟩ <;> rw [step_capture_cap, hstep]
  · exact fun _ => RingBuf.toList_clear _
  · exact fun _ => nofun
  · rfl
  · rfl

/-- What makes way for a new packet is in the queue. -/
theorem UplinkInv.overflow_le (h : UplinkInv cfg x) :
    x.2.feed.gone + x.1.cap.overflow cfg x.2.feed ≤ x.2.feed.produced.length := by
  have hgone := h.feed.gone_le
  have hlength := x.2.feed.length_queue
  rw [CaptureTask.overflow]
  split_ifs with hring hfew
  · exact hgone
  · have hcount := x.1.cap.ring.length_toList
    rw [h.ring hring, hlength] at hcount
    have hpos : 0 < ringPkts := by decide
    omega
  · omega

/-- The backlog after a new packet. -/
theorem UplinkInv.queue_encode (h : UplinkInv cfg x) (pkt : Packet) :
    ((x.2.feed.skip (x.1.cap.overflow cfg x.2.feed)).make pkt).queue =
      if cfg.ringOk then (x.1.cap.ring.push pkt).toList else [pkt] := by
  rw [Feed.queue_make h.overflow_le, Feed.queue_skip, CaptureTask.overflow]
  by_cases hring : cfg.ringOk
  · rw [if_pos hring, if_pos hring, RingBuf.toList_push, h.ring hring]
    split
    · rfl
    · rw [List.drop_one]
  · rw [if_neg hring, if_neg hring, List.drop_length]
    rfl

/-- A frame is encoded, and its packet put into the backlog. -/
theorem UplinkInv.encode (h : UplinkInv cfg x) (hpc : x.1.cap.pc = .encode) (mic : Mic) :
    UplinkInv cfg (observe (step cfg) (recordUplink cfg) x (.capture mic)) := by
  have hstep := captureStep_encode cfg x.1.us mic x.1.sh hpc
  have hqueue := h.queue_encode (g722Encode x.1.cap.g722Enc (uplinkSource x.1.cap mic.muted)).2
  have hmade : encodeFrames g722Init x.2.sources =
      (x.1.cap.g722Enc, x.2.feed.produced.map Feed.Item.value) := by
    rcases h.encoder with hmade | ⟨-, hunwoken⟩
    · exact hmade
    · simp [hpc, CapturePc.unwoken] at hunwoken
  rw [observe, recordUplink_encode hpc]
  refine ⟨(h.feed.skip h.overflow_le).make _, ?_, ?_, ?_, Or.inl ?_⟩ <;>
    rw [step_capture_cap, hstep]
  · intro hring
    rw [if_pos hring] at hqueue ⊢
    exact hqueue.symm
  · rintro hring -
    rw [hring] at hqueue
    exact hqueue
  · rfl
  · rw [encodeFrames_concat, hmade]
    simp [Feed.make, Feed.skip]

/-- A packet is handed to the peer. -/
theorem UplinkInv.hand (h : UplinkInv cfg x) {pkt : Packet} (hhands : x.1.cap.hands = some pkt)
    (mic : Mic) : UplinkInv cfg (observe (step cfg) (recordUplink cfg) x (.capture mic)) := by
  obtain ⟨rest, hqueue⟩ := h.queue_of_hands hhands
  obtain ⟨henc, hcarries, hactive, hring⟩ :=
    captureStep_hands cfg x.1.us mic x.1.sh hhands
  rw [observe, recordUplink_hands hhands]
  refine ⟨h.feed.hand (Feed.front_eq hqueue), ?_, ?_, ?_, Or.inl ?_⟩
  · intro hok
    obtain ⟨ring, hpop, hnew⟩ := hring (hok ▸ h.sends)
    rw [step_capture_cap, hnew, Feed.queue_hand, ← h.ring hok, RingBuf.toList_pop hpop,
      List.tail_cons]
  · exact fun _ hc => absurd hc hcarries
  · exact sendsFrom_of_captureStep _ _ _ _ h.sends
  · rw [step_capture_cap, henc]
    rcases h.encoder with hmade | ⟨hnone, -⟩
    · exact hmade
    · -- an empty stream has nothing to hand over
      have hfront := Feed.front_eq hqueue
      rw [hnone] at hfront
      cases hfront

theorem UplinkInv.capture (h : UplinkInv cfg x) (mic : Mic) :
    UplinkInv cfg (observe (step cfg) (recordUplink cfg) x (.capture mic)) := by
  by_cases hreset : x.1.cap.pc = .resetEnc
  · exact h.resetEnc hreset mic
  by_cases hencode : x.1.cap.pc = .encode
  · exact h.encode hencode mic
  rcases hhands : x.1.cap.hands with _ | pkt
  · obtain ⟨hring, hwire, henc⟩ :=
      captureStep_packets cfg x.1.us mic x.1.sh hreset hencode hhands
    rw [observe, recordUplink_idle hreset hencode hhands]
    refine ⟨h.feed, ?_, ?_, sendsFrom_of_captureStep _ _ _ _ h.sends, ?_⟩
    · rw [step_capture_cap, hring]
      exact h.ring
    · rintro hok hcarries
      rw [step_capture_cap, hwire]
      rcases carries_of_captureStep _ _ _ _ hcarries with hpc | ⟨hpc, -⟩
      · exact absurd hpc hencode
      · exact h.wire hok hpc
    · rw [step_capture_cap, henc]
      rcases h.encoder with hmade | ⟨hnone, hunwoken⟩
      · exact Or.inl hmade
      · exact Or.inr ⟨hnone, unwoken_of_captureStep _ _ _ _ hunwoken hreset⟩
  · exact h.hand hhands mic

theorem UplinkInv.step (h : UplinkInv cfg x) (a : Action) :
    UplinkInv cfg (observe (step cfg) (recordUplink cfg) x a) := by
  cases a with
  | main net => exact h.main net
  | capture mic => exact h.capture mic
  | elapse us => exact ⟨h.feed, h.ring, h.wire, h.sends, h.encoder⟩
  | playback muted => exact ⟨h.feed, h.ring, h.wire, h.sends, h.encoder⟩
  | web cmd => exact ⟨h.feed, h.ring, h.wire, h.sends, h.encoder⟩

/-- The decoder of a peer that is handed the first packets is in lockstep. -/
theorem UplinkInv.lockstep (h : UplinkInv cfg x) {items : List (Feed.Item Packet)}
    (hne : x.2.feed.produced ≠ []) (hpre : items <+: x.2.feed.produced) :
    (encodeCalls g722Init (x.2.sources.take items.length)).1.map adaptive =
      (decodeCalls g722Init (items.map Feed.Item.value)).map adaptive := by
  have hmade : (encodeFrames g722Init x.2.sources).2 = x.2.feed.produced.map Feed.Item.value := by
    rcases h.encoder with hmade | ⟨hnone, -⟩
    · rw [hmade]
    · exact absurd hnone hne
  have htake : items.map Feed.Item.value =
      (encodeFrames g722Init x.2.sources).2.take items.length := by
    rw [hmade, ← List.map_take, ← List.prefix_iff_eq_take.mp hpre]
  rw [htake]
  exact lockstep_take x.2.sources items.length

/-- A peer follows the encoder exactly if its feed is intact. -/
theorem UplinkInv.uplinkFollows_eq (h : UplinkInv cfg x) (a : Action) :
    uplinkFollows x a = feedIntact x a := by
  cases a with
  | capture mic =>
    rcases hhands : x.1.cap.hands with _ | pkt
    · simp [uplinkFollows, feedIntact, hhands]
    · obtain ⟨rest, hqueue⟩ := h.queue_of_hands hhands
      have hintact := h.feed.handed_prefix_iff hqueue
      have hne : x.2.feed.produced ≠ [] := by
        intro hnil
        have hfront := Feed.front_eq hqueue
        rw [hnil] at hfront
        cases hfront
      have hlock (hpre : x.2.feed.handed ++ [x.2.feed.front pkt] <+: x.2.feed.produced) :=
        h.lockstep hne hpre
      rw [Bool.eq_iff_iff]
      simp only [uplinkFollows, feedIntact, hhands, Option.isNone_some, Bool.false_or,
        Bool.and_eq_true, decide_eq_true_iff, Bool.not_eq_true', hintact, and_assoc] at hlock ⊢
      exact ⟨fun hfollows => ⟨hfollows.1, hfollows.2.1, hfollows.2.2.1⟩, fun hflags =>
        ⟨hflags.1, hflags.2.1, hflags.2.2, hlock hflags⟩⟩
  | _ => rfl

end

/-- Before the first step nothing is sent. -/
def UplinkHistory.start : UplinkHistory := ⟨Feed.empty, []⟩

theorem uplinkInv_start (cfg : Config) (us : ℕ) : UplinkInv cfg (start us, UplinkHistory.start) :=
  ⟨Feed.inv_empty, fun _ => rfl, fun _ => nofun, rfl, Or.inr ⟨rfl, rfl⟩⟩

/-- **The uplink stream**: what each peer is handed are the first packets since the
latest `g722_init`, in order and without a gap, and its decoder is in lockstep with
the encoder, in exactly the runs where, whenever a packet is handed over, none was
dropped since that reset, none had left the backlog when the peer was built, and
the peer had been handed none at the reset. -/
theorem uplinkFollows_iff (cfg : Config) (us : ℕ) (as : List Action) :
    Meets (observe (step cfg) (recordUplink cfg)) uplinkFollows
        (start us, UplinkHistory.start) as ↔
      Meets (observe (step cfg) (recordUplink cfg)) feedIntact
        (start us, UplinkHistory.start) as := by
  rw [meets_congr (I := UplinkInv cfg) (fun _ a h => h.step a) (fun _ a h => h.uplinkFollows_eq a)
    as (uplinkInv_start cfg us)]

/-- A packet is sent, the connection is lost, and the session brought up again
within the turn: the new peer is handed the second packet first. -/
theorem uplinkFollows_reconnect :
    ¬ Meets (observe (step device) (recordUplink device)) uplinkFollows
      (start 0, UplinkHistory.start)
      (wakeFrame ++ bringUp ++ List.replicate 8 (.main {}) ++ List.replicate 6 (.capture {}) ++
        List.replicate 9 (.main {}) ++ .main { consentLost := true } ::
        List.replicate 17 (.main {}) ++ bringUp ++ List.replicate 8 (.main {}) ++
        List.replicate 12 (.capture {})) := by
  -- the flags are easier to run than the codec
  rw [meets_congr (I := UplinkInv _) (fun _ a h => h.step a) (fun _ a h => h.uplinkFollows_eq a)
    _ (uplinkInv_start _ 0)]
  decide +kernel

end PipecatVoice
