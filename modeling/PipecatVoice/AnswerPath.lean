import PipecatVoice.DescriptionLines
import PipecatVoice.SdpMunge

/-!
# The answer, from the server to the device

The server rewrites the text of its answer and sends it; the device reads the text that comes.
Neither sees more than the lines.

* `Tells` — what a line of the answer says, before it is rewritten;
* `exists_says_kept` — what is left of the lines, and what that says;
* `setRemoteDescription_esp32Munge` — what the device makes of the text that comes.
-/

namespace PipecatVoice.AnswerPath

open BindingCheck CArray Decimal SessionDescription TextLines
open SdpMunge (Candidate MentionsSha Sdp SdpLine esp32Munge isLineBreak)
open TurnPairs (CandidateType)

variable {res : Resolver}

/-- The bytes of a text. -/
def utf8 (s : List Char) : CString := s.flatMap String.utf8EncodeChar

/-- The words for the types. -/
def typeName : CandidateType → List Char
  | .host => "host".toList
  | .srflx => "srflx".toList
  | .relay => "relay".toList
  | .prflx => "prflx".toList

/-- The words of a candidate are those of a remote one. -/
structure Reads (res : Resolver) (c : Candidate) (w : Words) (r : RemoteCandidate) : Prop where
  foundation : utf8 c.foundation.chars = w.foundation
  fields : (c.fields.map fun f => utf8 f.chars) =
    [decimal w.component, w.transport, decimal w.priority, w.addr, decimal w.port]
  type : c.type.chars = typeName r.type
  word : utf8 (typeName r.type) = w.type
  spell : w.Spell res r.type r.addr.ip
  remote : w.remote r.type r.addr.ip = r
  extensions : ∀ e ∈ c.extensions, ∀ b ∈ utf8 e.chars, isPlain b
  /-- it fits into the buffer, once it is a relay one -/
  short : (utf8 c.asRelay.text).length < 256

/-- It is no candidate. -/
def plain : Said → Bool
  | .candidate _ => false
  | _ => true

/-- What a line of the answer says. -/
inductive Tells (res : Resolver) : SdpLine → Said → Prop
  /-- a fingerprint that the device cannot check -/
  | sha {l : SdpLine} (h : MentionsSha l.text) : Tells res l .nothing
  | other {line : List Char} {hline : ¬ "a=candidate".toList <+: line} {m : Said}
      (hsha : ¬ MentionsSha line) (hm : plain m) (h : Says res (utf8 line) m) :
    Tells res (.other line hline) m
  | candidate {c : Candidate} {w : Words} {r : RemoteCandidate} (hsha : ¬ MentionsSha c.text)
      (h : Reads res c w r) : Tells res (.candidate c) (.candidate r)

/-- Candidates of the host and of a relay are left, as ones of a relay. -/
def relayOnly (r : RemoteCandidate) : Option RemoteCandidate :=
  if r.type = .host ∨ r.type = .relay then some { r with type := .relay } else none

/-- The candidates that are left. -/
def relayed (ms : List Said) : List RemoteCandidate :=
  (ms.filterMap Said.candidate?).filterMap relayOnly

/-! ## The bytes of a line -/

theorem utf8_append (s t : List Char) : utf8 (s ++ t) = utf8 s ++ utf8 t := List.flatMap_append ..

theorem utf8_spaced (ts : List (List Char)) :
    utf8 (Rewriting.spaced ts) = (ts.map utf8).flatMap (ascii " " ++ ·) := by
  induction ts with
  | nil => rfl
  | cons t ts ih =>
    rw [Rewriting.spaced_cons, List.map_cons, List.flatMap_cons, ← ih]
    exact (congrArg (ascii " " ++ ·) (utf8_append t _)).trans (List.append_assoc ..).symm

/-- The lines that are sent are those that come. -/
theorem utf8_crlfLines (ls : List (List Char)) : utf8 (crlfLines ls) = joined (ls.map utf8) := by
  induction ls with
  | nil => rfl
  | cons l ls ih =>
    rw [List.map_cons, joined_cons, ← ih, crlfLines, List.flatMap_cons, utf8_append, utf8_append,
      List.append_assoc]
    rfl

/-! ## The lines that are left -/

section Candidate

variable {c : Candidate} {w : Words} {r : RemoteCandidate}

/-- The words as those of a relay candidate. -/
def relayWords (w : Words) : Words := { w with type := ascii "relay" }

theorem spell_relayWords (h : Reads res c w r) : (relayWords w).Spell res .relay r.addr.ip := by
  have hword : ∀ b ∈ ascii "relay", isWord b := List.all_eq_true.mp (by decide)
  have hne : ascii "relay" ≠ [] := List.cons_ne_nil _ _
  have hlen : (ascii "relay").length < 16 := by decide
  exact { h.spell with word := hword, word_ne := hne, length_word := hlen, type := rfl }

theorem remote_relayWords (h : Reads res c w r) :
    (relayWords w).remote .relay r.addr.ip = { r with type := .relay } := by
  rw [← h.remote]
  rfl

/-- The words behind the type. -/
def behindType (c : Candidate) : CString :=
  (c.extensions.map fun e => utf8 e.chars).flatMap (ascii " " ++ ·)

theorem utf8_asRelay (h : Reads res c w r) :
    utf8 c.asRelay.text = ascii "a=candidate:" ++ (relayWords w).text (behindType c) := by
  have hhead : utf8 "a=candidate:".toList = ascii "a=candidate:" := by decide
  have htyp : utf8 "typ".toList = ascii "typ" := by decide
  have hrelay : utf8 "relay".toList = ascii "relay" := by decide
  have hblank : ascii " typ" = ascii " " ++ ascii "typ" := rfl
  rw [c.text_asRelay, utf8_append, utf8_append, utf8_append, utf8_spaced, utf8_spaced, List.map_map,
    List.map_cons, List.map_cons, List.map_map, hhead, htyp, hrelay, h.foundation]
  have hfields : (c.fields.map (utf8 ∘ fun f => f.chars)) = _ := h.fields
  rw [hfields]
  simp only [Words.text, relayWords, behindType, hblank, List.flatMap_cons, List.flatMap_nil,
    List.append_nil, List.append_assoc]
  rfl

theorem plain_behindType (h : Reads res c w r) : ∀ b ∈ behindType c, isPlain b := by
  have hblank : ∀ b ∈ ascii " ", isPlain b := List.all_eq_true.mp (by decide)
  intro b hb
  obtain ⟨t, ht, hb⟩ := List.mem_flatMap.mp hb
  obtain ⟨e, he, rfl⟩ := List.mem_map.mp ht
  obtain hb | hb := List.mem_append.mp hb
  · exact hblank b hb
  · exact h.extensions e he b hb

theorem head_behindType (c : Candidate) (rest : CString) :
    ∀ b ∈ (behindType c ++ (crlf ++ rest)).head?, isSpace b := by
  rw [behindType]
  cases c.extensions with
  | nil =>
    rintro b ⟨⟩
    rfl
  | cons e es =>
    rintro b ⟨⟩
    rfl

/-- **A candidate that is sent is read** as one of a relay. -/
theorem says_asRelay (h : Reads res c w r) :
    Says res (utf8 c.asRelay.text) (.candidate { r with type := .relay }) := by
  have hshort := h.short
  rw [utf8_asRelay h] at hshort ⊢
  rw [List.length_append, show (ascii "a=candidate:").length = 12 from rfl] at hshort
  refine .candidate ((spell_relayWords h).plain (plain_behindType h)) (by omega) fun rest => ?_
  rw [Words.text_append, iceCandidateFromDescription_text (spell_relayWords h)
    (head_behindType c rest), remote_relayWords h]

/-- It is left if it is one of the host or of a relay. -/
theorem norm?_candidate (h : Reads res c w r) :
    c.norm? = if r.type = .host ∨ r.type = .relay then some c.asRelay else none := by
  have htype : (c.type.chars = "host".toList ∨ c.type.chars = "relay".toList) ↔
      (r.type = .host ∨ r.type = .relay) := by
    rw [h.type]
    cases r.type <;> decide
  rw [Candidate.norm?]
  exact if_congr htype rfl rfl

end Candidate

/-- What is said of all but the candidates is the same, and the candidates are those left. -/
structure Passed (ms ms' : List Said) : Prop where
  ufrag : ms'.filterMap Said.ufrag? = ms.filterMap Said.ufrag?
  upwd : ms'.filterMap Said.upwd? = ms.filterMap Said.upwd?
  fingerprint : ms'.filterMap Said.fingerprint? = ms.filterMap Said.fingerprint?
  candidates : ms'.filterMap Said.candidate? = relayed ms
  source : ∀ want media, sourceOf want media ms' = sourceOf want media ms

namespace Passed

variable {ms ms' : List Said} {m : Said} {r : RemoteCandidate}

theorem nil : Passed [] [] := ⟨rfl, rfl, rfl, rfl, fun _ _ => rfl⟩

/-- A line that says nothing may be left out. -/
theorem nothing (h : Passed ms ms') : Passed (.nothing :: ms) ms' :=
  ⟨h.ufrag, h.upwd, h.fingerprint, h.candidates, h.source⟩

/-- A line that is no candidate is kept. -/
theorem keep (h : Passed ms ms') (hm : plain m) : Passed (m :: ms) (m :: ms') := by
  cases m with
  | candidate c => exact absurd hm Bool.false_ne_true
  | ufrag t =>
    exact ⟨congrArg (t :: ·) h.ufrag, h.upwd, h.fingerprint, h.candidates, fun w => h.source w⟩
  | upwd t =>
    exact ⟨h.ufrag, congrArg (t :: ·) h.upwd, h.fingerprint, h.candidates, fun w => h.source w⟩
  | fingerprint t =>
    exact ⟨h.ufrag, h.upwd, congrArg (t :: ·) h.fingerprint, h.candidates, fun w => h.source w⟩
  | media x =>
    exact ⟨h.ufrag, h.upwd, h.fingerprint, h.candidates, fun w _ => h.source w (some x)⟩
  | ssrc n =>
    exact ⟨h.ufrag, h.upwd, h.fingerprint, h.candidates, fun w x =>
      congrArg (Option.or · (if x = some w then some n else none)) (h.source w x)⟩
  | nothing => exact ⟨h.ufrag, h.upwd, h.fingerprint, h.candidates, fun w => h.source w⟩

/-- A candidate is kept as one of a relay, -/
theorem relay (h : Passed ms ms') (hr : r.type = .host ∨ r.type = .relay) :
    Passed (.candidate r :: ms) (.candidate { r with type := .relay } :: ms') := by
  refine ⟨h.ufrag, h.upwd, h.fingerprint, ?_, fun w => h.source w⟩
  have hkept : relayed (.candidate r :: ms) = { r with type := .relay } :: relayed ms :=
    List.filterMap_cons_some (if_pos hr)
  rw [hkept, ← h.candidates]
  rfl

/-- or is left out. -/
theorem drop (h : Passed ms ms') (hr : ¬ (r.type = .host ∨ r.type = .relay)) :
    Passed (.candidate r :: ms) ms' := by
  refine ⟨h.ufrag, h.upwd, h.fingerprint, ?_, fun w => h.source w⟩
  have hleft : relayed (.candidate r :: ms) = relayed ms := List.filterMap_cons_none (if_neg hr)
  rw [hleft, h.candidates]

end Passed

/-- **What is left of the lines**, and what it says. -/
theorem exists_says_kept {ls : List SdpLine} {ms : List Said} (h : List.Forall₂ (Tells res) ls ms) :
    ∃ ms', List.Forall₂ (Says res) ((ls.filterMap SdpLine.norm?).map fun l => utf8 l.text) ms' ∧
      Passed ms ms' := by
  induction h with
  | nil => exact ⟨[], .nil, .nil⟩
  | @cons l m _ _ hline _ ih =>
    obtain ⟨ms', hsays, hpassed⟩ := ih
    cases hline with
    | sha hsha =>
      have hnorm : l.norm? = none := if_pos hsha
      rw [List.filterMap_cons_none hnorm]
      exact ⟨ms', hsays, hpassed.nothing⟩
    | @other line hnot _ hsha hm hsay =>
      have hnorm : (SdpLine.other line hnot).norm? = some (.other line hnot) := if_neg hsha
      rw [List.filterMap_cons_some hnorm]
      exact ⟨m :: ms', .cons hsay hsays, hpassed.keep hm⟩
    | @candidate c w r hsha hreads =>
      have hnorm : (SdpLine.candidate c).norm? = c.norm?.map .candidate := if_neg hsha
      rw [norm?_candidate hreads] at hnorm
      by_cases hr : r.type = .host ∨ r.type = .relay
      · rw [if_pos hr] at hnorm
        rw [List.filterMap_cons_some hnorm]
        exact ⟨_, .cons (says_asRelay hreads) hsays, hpassed.relay hr⟩
      · rw [if_neg hr] at hnorm
        rw [List.filterMap_cons_none hnorm]
        exact ⟨ms', hsays, hpassed.drop hr⟩

/-! ## The text -/

/-- The types of the candidates are such that the code knows them. -/
theorem typed_of_tells {l : SdpLine} {m : Said} (h : Tells res l m) : l.Typed := by
  rintro c rfl hsha hprefix
  cases h with
  | sha h => exact absurd h hsha
  | @candidate _ w r _ hreads =>
    rw [hreads.type] at hprefix ⊢
    generalize r.type = type at hprefix ⊢
    revert hprefix
    cases type <;> decide

/-- Without a break in a line, the lines that are left are what is sent. -/
theorem esp32Munge_of_tells {s : Sdp} {ms : List Said} (h : List.Forall₂ (Tells res) s.lines ms)
    (hbreak : ∀ l ∈ s.lines, ∀ a ∈ l.text, isLineBreak a = false) (hleft : s.kept ≠ []) :
    esp32Munge s.text = crlfLines (s.kept.map SdpLine.text) := by
  have htyped : ∀ l ∈ s.lines, l.Typed := by
    intro l hl
    obtain ⟨i, hi, rfl⟩ := List.getElem_of_mem hl
    exact typed_of_tells (h.get hi (h.length_eq ▸ hi))
  refine s.esp32Munge_eq_iff.mpr ⟨hleft, Sdp.forall₂_iff.mpr ⟨htyped, ?_⟩⟩
  exact ((List.forall₂_and_left _ _).mpr ⟨hbreak, s.forall₂_lines⟩).imp fun _ _ h => .inl h.1

/-- **The device learns what the answer says**: the name, the password, the fingerprint that it can
check and the source of the audio; and it takes the candidates of the host and of a relay, all as
ones of a relay. Read once more, the answer changes nothing. -/
theorem setRemoteDescription_esp32Munge {s : Sdp} {ms : List Said}
    (h : List.Forall₂ (Tells res) s.lines ms)
    (hbreak : ∀ l ∈ s.lines, ∀ a ∈ l.text, isLineBreak a = false) {ufrag upwd fp : CString}
    (hufrag : ms.filterMap Said.ufrag? = [ufrag]) (hupwd : ms.filterMap Said.upwd? = [upwd])
    (hfp : ms.filterMap Said.fingerprint? = [fp]) (hne : ufrag ≠ [])
    (hnodup : ((relayed ms).map (·.foundation)).Nodup)
    (hroom : (relayed ms).length ≤ agentMaxCandidates) (buf buf' : CArray 256) :
    ∃ r, setRemoteDescription res buf .zero (utf8 (esp32Munge s.text)) = .ok r ∧
      r.ufrag.string? = some ufrag ∧ r.upwd.string? = some upwd ∧
      r.fingerprint.string? = some fp ∧ r.assrc = (sourceOf .audio none ms).getD 0 ∧
      r.candidates = relayed ms ∧
      setRemoteDescription res buf' r (utf8 (esp32Munge s.text)) = .ok r := by
  obtain ⟨ms', hsays, hpassed⟩ := exists_says_kept h
  have hleft : s.kept ≠ [] := by
    intro hnil
    rw [Sdp.kept] at hnil
    rw [hnil] at hsays
    cases hsays
    rw [← hpassed.ufrag] at hufrag
    cases hufrag
  have htext : utf8 (esp32Munge s.text) = joined (s.kept.map fun l => utf8 l.text) := by
    rw [esp32Munge_of_tells h hbreak hleft, utf8_crlfLines, List.map_map]
    rfl
  rw [htext]
  obtain ⟨r, hread, hname, hpassword, hmark, hsource, hcands, hagain⟩ :=
    setRemoteDescription_lines hsays (hpassed.ufrag.trans hufrag) (hpassed.upwd.trans hupwd)
      (hpassed.fingerprint.trans hfp) hne (hpassed.candidates ▸ hnodup)
      (hpassed.candidates ▸ hroom) buf buf'
  rw [hpassed.source] at hsource
  rw [hpassed.candidates] at hcands
  exact ⟨r, hread, hname, hpassword, hmark, hsource, hcands, hagain⟩

/-! ## A concrete answer -/

/-- A platform that knows no names. -/
def nameless : Resolver := ⟨fun _ => [], fun _ => none, fun _ => none⟩

/-- The pod's own address. -/
def podWords : Words :=
  ⟨ascii "c1c7e2a1", 1, ascii "udp", 2130706431, ascii "10.244.1.7", 54321, ascii "host"⟩

/-- A word that is written out. -/
def wordOf (chars : String)
    (h : chars.toList.all SdpMunge.notSpace ∧ chars.toList ∉ SdpMunge.keywords) : SdpMunge.Word :=
  SdpMunge.word chars h.1 h.2

theorem unrelated (r : SdpMunge.Word × SdpMunge.Word)
    (h : r ∈ (none : Option (SdpMunge.Word × SdpMunge.Word))) :
    r.1.chars ≠ [] ∧ r.2.chars ≠ [] := by
  cases h

def podCandidate : Candidate where
  foundation := (wordOf "c1c7e2a1" (by decide)).toToken
  fields := [wordOf "1" (by decide), wordOf "udp" (by decide), wordOf "2130706431" (by decide),
    wordOf "10.244.1.7" (by decide), wordOf "54321" (by decide)]
  type := wordOf "host" (by decide)
  related := none
  related_ne := unrelated
  host_unrelated := fun _ => rfl
  extensions := [wordOf "generation" (by decide), wordOf "0" (by decide)]

def podRemote : RemoteCandidate := podWords.remote .host (.v4 0x0af40107)

theorem plain_extensions : ∀ e ∈ podCandidate.extensions, ∀ b ∈ utf8 e.chars, isPlain b := by
  have hall : podCandidate.extensions.all fun e => (utf8 e.chars).all isPlain := by decide
  intro e he
  exact List.all_eq_true.mp (List.all_eq_true.mp hall e he)

theorem reads_podCandidate : Reads nameless podCandidate podWords podRemote where
  foundation := by decide
  fields := by decide
  type := rfl
  word := by decide
  spell :=
    { foundation := List.all_eq_true.mp (by decide)
      foundation_ne := by decide
      length_foundation := by decide
      transport := List.all_eq_true.mp (by decide)
      length_transport := by decide
      udp := .inr (List.prefix_refl _)
      addr := List.all_eq_true.mp (by decide)
      addr_ne := by decide
      length_addr := by decide
      ip := by decide +kernel
      word := List.all_eq_true.mp (by decide)
      word_ne := by decide
      length_word := by decide
      type := rfl }
  remote := rfl
  extensions := plain_extensions
  short := by decide +kernel

/-- An answer with audio and with a fingerprint that the device cannot check. -/
def podAnswer : Sdp where
  text := crlfLines ["s=-".toList, "m=audio 9 UDP/TLS/RTP/SAVPF 9".toList, podCandidate.text,
    "a=ice-ufrag:Xy12".toList, "a=ice-pwd:7vDq".toList, "a=fingerprint:sha-256 A5:5A".toList,
    "a=fingerprint:sha-512 5A:A5".toList, "a=ssrc:3735928559 cname:pod".toList]
  lines := [.other "s=-".toList (by decide),
    .other "m=audio 9 UDP/TLS/RTP/SAVPF 9".toList (by decide), .candidate podCandidate,
    .other "a=ice-ufrag:Xy12".toList (by decide), .other "a=ice-pwd:7vDq".toList (by decide),
    .other "a=fingerprint:sha-256 A5:5A".toList (by decide),
    .other "a=fingerprint:sha-512 5A:A5".toList (by decide),
    .other "a=ssrc:3735928559 cname:pod".toList (by decide)]
  reads := by decide +kernel

def podSaid : List Said :=
  [.nothing, .media .audio, .candidate podRemote, .ufrag (ascii "Xy12"), .upwd (ascii "7vDq"),
    .fingerprint (ascii "A5:5A"), .nothing, .ssrc 3735928559]

theorem tells_podAnswer : List.Forall₂ (Tells nameless) podAnswer.lines podSaid := by
  have haudio : utf8 "m=audio 9 UDP/TLS/RTP/SAVPF 9".toList =
      mediaHead .audio ++ ascii " 9 UDP/TLS/RTP/SAVPF 9" := by decide
  have hufrag : utf8 "a=ice-ufrag:Xy12".toList = ascii "a=ice-ufrag:" ++ ascii "Xy12" := by decide
  have hupwd : utf8 "a=ice-pwd:7vDq".toList = ascii "a=ice-pwd:" ++ ascii "7vDq" := by decide
  have hfp : utf8 "a=fingerprint:sha-256 A5:5A".toList =
      ascii "a=fingerprint:sha-256 " ++ ascii "A5:5A" := by decide
  have hssrc : utf8 "a=ssrc:3735928559 cname:pod".toList =
      ascii "a=ssrc:" ++ ascii "3735928559 cname:pod" := by decide
  refine .cons (.other (by decide) rfl (.nothing (by decide +kernel) (by decide +kernel)))
    (.cons (.other (by decide) rfl ?_)
      (.cons (.candidate (by decide +kernel) reads_podCandidate)
        (.cons (.other (by decide) rfl ?_) (.cons (.other (by decide) rfl ?_)
          (.cons (.other (by decide) rfl ?_) (.cons (.sha (.inr (by decide)))
            (.cons (.other (by decide) rfl ?_) .nil)))))))
  · rw [haudio]
    exact .media .audio (List.all_eq_true.mp (by decide)) (by decide)
  · rw [hufrag]
    exact .ufrag (List.all_eq_true.mp (by decide)) (by decide)
  · rw [hupwd]
    exact .upwd (List.all_eq_true.mp (by decide)) (by decide)
  · rw [hfp]
    exact .fingerprint (List.all_eq_true.mp (by decide)) (by decide)
  · rw [hssrc]
    exact .ssrc (List.all_eq_true.mp (by decide)) (by decide) (by decide +kernel)

theorem unbroken_podAnswer : ∀ l ∈ podAnswer.lines, ∀ a ∈ l.text, isLineBreak a = false := by
  have hall : podAnswer.lines.all fun l => l.text.all fun a => !isLineBreak a := by decide +kernel
  intro l hl a ha
  exact (Bool.not_eq_true' _).mp (List.all_eq_true.mp (List.all_eq_true.mp hall l hl) a ha)

theorem setRemoteDescription_esp32Munge_pod :
    ∃ r, setRemoteDescription nameless (.zero _) .zero (utf8 (esp32Munge podAnswer.text)) = .ok r ∧
      r.ufrag.string? = some (ascii "Xy12") ∧ r.upwd.string? = some (ascii "7vDq") ∧
      r.fingerprint.string? = some (ascii "A5:5A") ∧
      r.assrc = 3735928559 ∧ r.candidates = [{ podRemote with type := .relay }] ∧
      setRemoteDescription nameless (.zero _) r (utf8 (esp32Munge podAnswer.text)) = .ok r :=
  setRemoteDescription_esp32Munge tells_podAnswer unbroken_podAnswer rfl rfl rfl (by decide)
    (by decide +kernel) (by decide +kernel) (.zero _) (.zero _)

end PipecatVoice.AnswerPath
