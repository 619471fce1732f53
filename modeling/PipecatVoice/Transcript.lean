import Mathlib.Data.List.DropRight
import PipecatVoice.Lib.Framing

/-!
# The live transcript

`TranscriptObserver` of `bot.py` watches the frames the pipeline pushes and
broadcasts one event per finished turn. It sees a frame once per hop through the
pipeline, and takes no note of having seen it before.

* `onPushFrame` — the observer;
* `HopPattern` — an order in which the hops of one response can be seen;
* `broadcasts_complete_iff` — the orders in which the observer broadcasts every
  response once and whole, whatever its texts are.
-/

namespace PipecatVoice

open Framing (Token Collector flushes Stretch Quiet)

/-! ## The observer -/

/-- The text of a frame. -/
abbrev Text := List Char

/-- Texts are compared character by character. -/
instance Text.lawfulBEq : LawfulBEq Text := inferInstance

/-- The characters `str.strip` removes. -/
def pyIsSpace (c : Char) : Bool :=
  let n := c.toNat
  (0x09 ≤ n && n ≤ 0x0D) || (0x1C ≤ n && n ≤ 0x20) || n == 0x85 || n == 0xA0 || n == 0x1680 ||
    (0x2000 ≤ n && n ≤ 0x200A) || n == 0x2028 || n == 0x2029 || n == 0x202F || n == 0x205F ||
    n == 0x3000

/-- `str.strip` -/
def strip (s : Text) : Text := (s.dropWhile pyIsSpace).rdropWhile pyIsSpace

/-- The frames the observer tells apart. -/
inductive Frame where
  /-- a finalised speech-to-text result -/
  | transcription (text : Text)
  /-- the model begins to answer -/
  | llmFullResponseStart
  /-- a chunk of the answer -/
  | llmText (text : Text)
  /-- the answer is complete -/
  | llmFullResponseEnd
  /-- any other frame -/
  | other

/-- A frame pushed from one processor to the next. -/
structure FramePushed where
  /-- the frame -/
  frame : Frame
  /-- the pushing processor is a speech-to-text service -/
  sourceIsSTT : Bool

/-- Who said it. -/
inductive Role where
  | user
  | assistant
  deriving DecidableEq

/-- What is broadcast, less its time stamp. -/
structure TranscriptEvent where
  /-- the connection -/
  pcId : String
  /-- who said it -/
  role : Role
  /-- what was said -/
  text : Text
  deriving DecidableEq

/-- The observer's state. -/
structure TranscriptObserver where
  /-- chunks of the current answer -/
  assistantBuffer : List Text
  /-- an answer has begun and not ended -/
  inResponse : Bool

/-- `TranscriptObserver.__init__` -/
def TranscriptObserver.init : TranscriptObserver := ⟨[], false⟩

/-- The event for a text, unless the text is blank. -/
def broadcastText (pcId : String) (role : Role) (text : Text) : List TranscriptEvent :=
  if text ≠ [] then [⟨pcId, role, text⟩] else []

/-- `on_push_frame`: the observer after it, and what it broadcast. -/
def onPushFrame (pcId : String) (s : TranscriptObserver) (data : FramePushed) :
    TranscriptObserver × List TranscriptEvent :=
  match data.frame with
  | .transcription text =>
    (s, if data.sourceIsSTT then broadcastText pcId .user (strip text) else [])
  | .llmFullResponseStart => (⟨[], true⟩, [])
  | .llmText text =>
    if s.inResponse then
      (if text ≠ [] then { s with assistantBuffer := s.assistantBuffer ++ [text] } else s, [])
    else (s, [])
  | .llmFullResponseEnd =>
    (⟨[], false⟩, broadcastText pcId .assistant (strip s.assistantBuffer.flatten))
  | .other => (s, [])

/-- What an observer broadcasts over a sequence of pushes. -/
def broadcasts (pcId : String) (s : TranscriptObserver) :
    List FramePushed → List TranscriptEvent
  | [] => []
  | data :: rest => (onPushFrame pcId s data).2 ++ broadcasts pcId (onPushFrame pcId s data).1 rest

/-! ## Responses and their hops

The frames of a response with `n` texts are numbered: `0` is the start, `1` to
`n` are the texts, `n + 1` is the end. -/

/-- One observation must come before another: a later hop of the same frame, or
a later frame at the same hop. -/
def Precedes (x y : ℕ × ℕ) : Prop := x.1 = y.1 ∧ x.2 < y.2 ∨ x.2 = y.2 ∧ x.1 < y.1

instance : DecidableRel Precedes := fun x y =>
  inferInstanceAs (Decidable (x.1 = y.1 ∧ x.2 < y.2 ∨ x.2 = y.2 ∧ x.1 < y.1))

/-- An order in which the hops of one response are observed, as frame and hop
numbers. -/
structure HopPattern where
  /-- the number of texts -/
  textCount : ℕ
  /-- the observations, in order -/
  obs : List (ℕ × ℕ)
  /-- a frame is observed once per hop -/
  nodup : obs.Nodup
  /-- there are no other frames -/
  frame_le : ∀ x ∈ obs, x.1 ≤ textCount + 1
  /-- every frame is pushed at least once -/
  pushed : ∀ f ≤ textCount + 1, (f, 0) ∈ obs
  /-- a frame reaches a hop through the ones before; it may stop at any -/
  closed : ∀ x ∈ obs, ∀ k ≤ x.2, (x.1, k) ∈ obs
  /-- response order at every hop, hop order for every frame -/
  ordered : obs.Pairwise fun x y => ¬ Precedes y x

/-- A frame number as a token: the start, a text by its index, the end. -/
def frameToken (textCount f : ℕ) : Token ℕ :=
  if f = 0 then .start else if f ≤ textCount then .item (f - 1) else .stop

/-- The observations as tokens. -/
def HopPattern.tokens (p : HopPattern) : List (Token ℕ) :=
  p.obs.map fun x => frameToken p.textCount x.1

/-- A response: its texts, and the order of its hops. -/
structure Response where
  /-- the order of the hops -/
  pattern : HopPattern
  /-- the texts -/
  texts : Fin pattern.textCount → Text

/-- Text `i` of a response. -/
def Response.text (r : Response) (i : ℕ) : Text :=
  if h : i < r.pattern.textCount then r.texts ⟨i, h⟩ else []

/-- The frame a token stands for. -/
def tokenFrame (text : ℕ → Text) : Token ℕ → Frame
  | .start => .llmFullResponseStart
  | .item i => .llmText (text i)
  | .stop => .llmFullResponseEnd

/-- The pushes of one response. -/
def Response.pushes (r : Response) : List FramePushed :=
  r.pattern.tokens.map fun t => ⟨tokenFrame r.text t, false⟩

/-- The stripped concatenation of a response's texts. -/
def Response.whole (r : Response) : Text :=
  strip ((List.range r.pattern.textCount).map r.text).flatten

/-! ## The observer is a collector -/

theorem broadcasts_append (pcId : String) (s : TranscriptObserver) (u v : List FramePushed) :
    broadcasts pcId s (u ++ v) = broadcasts pcId s u ++
      broadcasts pcId (u.foldl (fun s data => (onPushFrame pcId s data).1) s) v := by
  induction u generalizing s with
  | nil => rfl
  | cons data u ih => simp only [List.cons_append, broadcasts, ih, List.foldl_cons,
      List.append_assoc]

/-- An observer that has collected the words of what a collector has collected. -/
def Follows (text : ℕ → Text) (s : TranscriptObserver) (c : Collector ℕ) : Prop :=
  s.assistantBuffer.flatten = (c.buffer.map text).flatten ∧ s.inResponse = c.isOpen

/-- The event for the texts handed out. -/
def flushEvent (pcId : String) (text : ℕ → Text) (l : List ℕ) : List TranscriptEvent :=
  broadcastText pcId .assistant (strip (l.map text).flatten)

/-- **One push**: the observer keeps following the collector, and broadcasts what
the collector hands out, put into words. -/
theorem onPushFrame_follows (pcId : String) {text : ℕ → Text} {s : TranscriptObserver}
    {c : Collector ℕ} (h : Follows text s c) (t : Token ℕ) (u : List (Token ℕ)) :
    Follows text (onPushFrame pcId s ⟨tokenFrame text t, false⟩).1 (c.next t) ∧
      (flushes c (t :: u)).flatMap (flushEvent pcId text) =
        (onPushFrame pcId s ⟨tokenFrame text t, false⟩).2 ++
          (flushes (c.next t) u).flatMap (flushEvent pcId text) := by
  obtain ⟨hbuf, hopen⟩ := h
  cases t with
  | start => exact ⟨⟨rfl, rfl⟩, rfl⟩
  | item i =>
    by_cases hc : c.isOpen = true
    · have hs : s.inResponse = true := hopen.trans hc
      refine ⟨?_, by simp [tokenFrame, onPushFrame, hs, flushes]⟩
      simp only [tokenFrame, onPushFrame, hs, Collector.next, hc, if_true]
      split_ifs with hne
      · exact ⟨by simp [hbuf], rfl⟩
      · -- an empty text is not appended, which the concatenation cannot tell
        exact ⟨by simp [hbuf, not_not.mp hne], hs⟩
    · have hs : s.inResponse = false := hopen.trans (by simpa using hc)
      refine ⟨?_, by simp [tokenFrame, onPushFrame, hs, flushes]⟩
      simp only [tokenFrame, onPushFrame, hs, Collector.next, if_neg hc]
      exact ⟨hbuf, hopen⟩
  | stop =>
    refine ⟨⟨rfl, rfl⟩, ?_⟩
    simp only [flushes, List.flatMap_cons, flushEvent, onPushFrame, tokenFrame, hbuf]

/-- What the observer broadcasts is what a collector of text indices hands out,
put into words. -/
theorem broadcasts_tokens (pcId : String) (text : ℕ → Text) (u : List (Token ℕ)) :
    ∀ {s : TranscriptObserver} {c : Collector ℕ}, Follows text s c →
      broadcasts pcId s (u.map fun t => ⟨tokenFrame text t, false⟩) =
        (flushes c u).flatMap (flushEvent pcId text) := by
  induction u with
  | nil => exact fun _ => rfl
  | cons t u ih =>
    intro s c h
    obtain ⟨hnext, hflush⟩ := onPushFrame_follows pcId h t u
    rw [hflush, List.map_cons, broadcasts, ih hnext]

/-! ## One response -/

theorem eq_zero_of_not_precedes_frame {f : ℕ} (h : ¬ Precedes (0, 0) (f, 0)) : f = 0 := by
  by_contra hf
  exact h (Or.inr ⟨rfl, Nat.pos_of_ne_zero hf⟩)

theorem eq_zero_of_not_precedes_hop {f k : ℕ} (h : ¬ Precedes (f, 0) (f, k)) : k = 0 := by
  by_contra hk
  exact h (Or.inl ⟨rfl, Nat.pos_of_ne_zero hk⟩)

/-- The first observation is the start at the first hop: it precedes every
other one, in one step or two. -/
theorem HopPattern.head_obs (p : HopPattern) : ∃ rest, p.obs = (0, 0) :: rest := by
  have hmem := p.pushed 0 (Nat.zero_le _)
  have hclosed := p.closed
  have hordered := p.ordered
  rcases hobs : p.obs with _ | ⟨⟨f, k⟩, rest⟩
  · rw [hobs] at hmem
    exact absurd hmem List.not_mem_nil
  · rw [hobs] at hmem hclosed hordered
    obtain ⟨hfirst, -⟩ := List.pairwise_cons.mp hordered
    -- a later hop of a frame cannot come before its first
    obtain rfl : k = 0 := by
      rcases List.mem_cons.mp (hclosed (f, k) List.mem_cons_self 0 (Nat.zero_le k)) with hx | hx
      · exact (Prod.ext_iff.mp hx).2.symm
      · exact eq_zero_of_not_precedes_hop (hfirst _ hx)
    -- another frame at the first hop cannot come before the start
    obtain rfl : f = 0 := by
      rcases List.mem_cons.mp hmem with h0 | h0
      · exact (Prod.ext_iff.mp h0).1.symm
      · exact eq_zero_of_not_precedes_frame (hfirst _ h0)
    exact ⟨rest, rfl⟩

theorem HopPattern.head_tokens (p : HopPattern) : ∃ u, p.tokens = .start :: u := by
  obtain ⟨rest, hrest⟩ := p.head_obs
  exact ⟨rest.map fun x => frameToken p.textCount x.1, by rw [tokens, hrest]; rfl⟩

/-- The observer broadcasts a response the same from every state: its first push
is a start. -/
theorem broadcasts_pushes (pcId : String) (r : Response) (s : TranscriptObserver) :
    broadcasts pcId s r.pushes =
      (flushes Collector.init r.pattern.tokens).flatMap (flushEvent pcId r.text) := by
  obtain ⟨u, hu⟩ := r.pattern.head_tokens
  have hinit : Follows r.text TranscriptObserver.init Collector.init := ⟨rfl, rfl⟩
  rw [← broadcasts_tokens pcId r.text _ hinit, Response.pushes, hu]
  rfl

/-- Responses that follow one another are broadcast one after the other. -/
theorem broadcasts_flatMap (pcId : String) (rs : List Response) (s : TranscriptObserver) :
    broadcasts pcId s (rs.flatMap Response.pushes) =
      rs.flatMap fun r =>
        (flushes Collector.init r.pattern.tokens).flatMap (flushEvent pcId r.text) := by
  induction rs generalizing s with
  | nil => rfl
  | cons r rs ih => rw [List.flatMap_cons, broadcasts_append, broadcasts_pushes, ih,
      List.flatMap_cons]

/-! ## Which orders are complete -/

/-- Between a start and an end all texts are observed, once each and in order,
and nothing else of the response is between any start and end. -/
def HopPattern.Clean (p : HopPattern) : Prop :=
  0 < p.textCount → ∃ pre post,
    p.tokens = pre ++ .start :: (List.range p.textCount).map .item ++ .stop :: post ∧
      Framing.Quiet pre ∧ Framing.Quiet post

theorem HopPattern.clean_iff (p : HopPattern) (hpos : 0 < p.textCount) :
    p.Clean ↔ (flushes Collector.init p.tokens).filter (· ≠ []) = [List.range p.textCount] := by
  have hne : List.range p.textCount ≠ [] := by
    rw [Ne, List.range_eq_nil]
    omega
  rw [Framing.filter_flushes_eq_singleton_iff hne]
  exact ⟨fun h => h hpos, fun h _ => h⟩

/-- Blank collections broadcast nothing. -/
theorem flatMap_flushEvent_filter (pcId : String) (text : ℕ → Text) (ls : List (List ℕ)) :
    ls.flatMap (flushEvent pcId text) = (ls.filter (· ≠ [])).flatMap (flushEvent pcId text) := by
  induction ls with
  | nil => rfl
  | cons l ls ih =>
    by_cases hl : l = []
    · subst hl
      rw [List.filter_cons_of_neg (by simp), ← ih]
      rfl
    · rw [List.filter_cons_of_pos (by simpa using hl), List.flatMap_cons, List.flatMap_cons, ih]

/-- What a complete transcript asks of a response: one event with
its whole text, unless that is blank. -/
def Response.event (pcId : String) (r : Response) : List TranscriptEvent :=
  broadcastText pcId .assistant r.whole

/-- A clean order broadcasts every response whole. -/
theorem HopPattern.Clean.flushEvents {r : Response} (h : r.pattern.Clean) (pcId : String) :
    (flushes Collector.init r.pattern.tokens).flatMap (flushEvent pcId r.text) =
      r.event pcId := by
  rw [flatMap_flushEvent_filter]
  rcases Nat.eq_zero_or_pos r.pattern.textCount with hzero | hpos
  · -- without texts there is nothing to collect
    have hquiet : (flushes Collector.init r.pattern.tokens).filter (· ≠ []) = [] := by
      rw [← Framing.quiet_iff]
      rintro l ⟨pre, post, hsplit⟩
      rcases l with _ | ⟨i, l⟩
      · rfl
      · have hmem : Token.item i ∈ r.pattern.tokens := by
          rw [hsplit]
          simp
        obtain ⟨x, hx, hitem⟩ := List.mem_map.mp hmem
        rw [frameToken, hzero] at hitem
        split_ifs at hitem
        omega
    rw [hquiet, Response.event, Response.whole, hzero]
    rfl
  · rw [(r.pattern.clean_iff hpos).mp h]
    rw [List.flatMap_cons, List.flatMap_nil, List.append_nil]
    rfl

/-! ### Texts that give an unclean order away -/

/-- A text that tells its index. -/
def indexText (i : ℕ) : Text := List.replicate i 'a' ++ ['b']

/-- The index texts form a code: their concatenation can be read back. -/
theorem indexText_injective : ∀ l l' : List ℕ,
    (l.map indexText).flatten = (l'.map indexText).flatten → l = l' := by
  have hcons : ∀ (i j : ℕ) (u v : Text), indexText i ++ u = indexText j ++ v → i = j ∧ u = v := by
    intro i
    induction i with
    | zero =>
      intro j u v h
      cases j with
      | zero => exact ⟨rfl, by simpa [indexText] using h⟩
      | succ j => simp [indexText, List.replicate_succ] at h
    | succ i ih =>
      intro j u v h
      cases j with
      | zero => simp [indexText, List.replicate_succ] at h
      | succ j =>
        simp only [indexText, List.replicate_succ, List.cons_append, List.cons.injEq,
          true_and] at h
        obtain ⟨rfl, huv⟩ := ih j u v h
        exact ⟨rfl, huv⟩
  intro l
  induction l with
  | nil =>
    rintro (_ | ⟨j, l'⟩) h
    · rfl
    · simp [indexText] at h
  | cons i l ih =>
    rintro (_ | ⟨j, l'⟩) h
    · simp [indexText] at h
    · rw [List.map_cons, List.map_cons, List.flatten_cons, List.flatten_cons] at h
      obtain ⟨rfl, hrest⟩ := hcons i j _ _ h
      rw [ih l' hrest]

/-- A text without white space is its own strip. -/
theorem strip_eq_self {s : Text} (h : ∀ c ∈ s, pyIsSpace c = false) : strip s = s := by
  have hdrop : s.dropWhile pyIsSpace = s := by
    rcases s with _ | ⟨c, s⟩
    · rfl
    · rw [List.dropWhile_cons_of_neg]
      rw [h c List.mem_cons_self]
      exact Bool.false_ne_true
  rw [strip, hdrop, List.rdropWhile_eq_self_iff]
  intro hne
  rw [h _ (List.getLast_mem hne)]
  exact Bool.false_ne_true

theorem strip_indexText (l : List ℕ) :
    strip (l.map indexText).flatten = (l.map indexText).flatten := by
  refine strip_eq_self ?_
  intro c hc
  obtain ⟨w, hw, hcw⟩ := List.mem_flatten.mp hc
  obtain ⟨i, -, rfl⟩ := List.mem_map.mp hw
  rcases List.mem_append.mp hcw with ha | hb
  · rw [List.eq_of_mem_replicate ha]
    decide
  · rw [List.mem_singleton.mp hb]
    decide

/-- A response whose texts tell their indices. -/
def indexResponse (p : HopPattern) : Response := ⟨p, fun i => indexText i⟩

/-- A response whose texts are empty. -/
def blankResponse (p : HopPattern) : Response := ⟨p, fun _ => []⟩

theorem blankResponse_flushEvent (pcId : String) (p : HopPattern) (l : List ℕ) :
    flushEvent pcId (blankResponse p).text l = [] := by
  have hflat : (l.map (blankResponse p).text).flatten = [] := by
    rw [List.flatten_eq_nil_iff]
    intro w hw
    obtain ⟨i, -, rfl⟩ := List.mem_map.mp hw
    by_cases hlt : i < p.textCount
    · exact dif_pos hlt
    · exact dif_neg hlt
  rw [flushEvent, hflat]
  rfl

theorem blankResponse_event (pcId : String) (p : HopPattern) :
    (blankResponse p).event pcId = [] :=
  blankResponse_flushEvent pcId p (List.range p.textCount)

/-- The words of texts a response has. -/
theorem indexResponse_map_text {p : HopPattern} {l : List ℕ} (h : ∀ i ∈ l, i < p.textCount) :
    l.map (indexResponse p).text = l.map indexText := by
  refine List.map_congr_left ?_
  intro i hi
  exact dif_pos (h i hi)

/-- The event for texts that tell their indices tells which they are. -/
theorem indexResponse_flushEvent (pcId : String) {p : HopPattern} {l : List ℕ} (hne : l ≠ [])
    (h : ∀ i ∈ l, i < p.textCount) :
    flushEvent pcId (indexResponse p).text l =
      [⟨pcId, .assistant, (l.map indexText).flatten⟩] := by
  have hwords : (l.map indexText).flatten ≠ [] := by
    intro hempty
    exact hne (indexText_injective l [] (hempty.trans rfl))
  rw [flushEvent, indexResponse_map_text h, strip_indexText, broadcastText, if_pos hwords]

/-- Only texts of the response are handed out. -/
theorem HopPattern.lt_textCount_of_mem_flushes {p : HopPattern} {l : List ℕ}
    (h : l ∈ flushes Collector.init p.tokens) : ∀ i ∈ l, i < p.textCount := by
  intro i hi
  have hne : l ≠ [] := List.ne_nil_of_mem hi
  obtain ⟨pre, post, hsplit⟩ := (Framing.mem_flushes_iff hne).mp h
  have hmem : Token.item i ∈ p.tokens := by
    rw [hsplit]
    simp [hi]
  obtain ⟨x, -, hitem⟩ := List.mem_map.mp hmem
  rw [frameToken] at hitem
  split_ifs at hitem
  obtain rfl : x.1 - 1 = i := by simpa using hitem
  omega

/-- An order that broadcasts texts telling their indices whole is clean. -/
theorem HopPattern.clean_of_indexResponse {p : HopPattern} {pcId : String}
    (h : (flushes Collector.init p.tokens).flatMap (flushEvent pcId (indexResponse p).text) =
      (indexResponse p).event pcId) : p.Clean := by
  intro hpos
  have hrange : List.range p.textCount ≠ [] := by
    rw [Ne, List.range_eq_nil]
    omega
  refine (p.clean_iff hpos).mpr ?_ hpos
  set ls := (flushes Collector.init p.tokens).filter (· ≠ []) with hls
  have hleft : ls.flatMap (flushEvent pcId (indexResponse p).text) =
      ls.map fun l => ⟨pcId, .assistant, (l.map indexText).flatten⟩ := by
    rw [List.map_eq_flatMap]
    refine List.flatMap_congr ?_
    intro l hl
    obtain ⟨hmem, hne⟩ := List.mem_filter.mp hl
    exact indexResponse_flushEvent pcId (by simpa using hne) (lt_textCount_of_mem_flushes hmem)
  have hright : (indexResponse p).event pcId =
      [List.range p.textCount].map fun l => ⟨pcId, .assistant, (l.map indexText).flatten⟩ :=
    indexResponse_flushEvent pcId hrange (fun i hi => List.mem_range.mp hi)
  rw [flatMap_flushEvent_filter, ← hls, hleft, hright] at h
  refine List.map_injective_iff.mpr ?_ h
  intro l l' hll
  exact indexText_injective l l' (congrArg TranscriptEvent.text hll)

/-- **When the transcript is complete**: a sequence of hop orders makes the
observer broadcast every response once and whole, whatever the texts are,
exactly when every order is clean. -/
theorem broadcasts_complete_iff (pcId : String) (ps : List HopPattern) :
    (∀ rs : List Response, rs.map Response.pattern = ps →
        broadcasts pcId .init (rs.flatMap Response.pushes) =
          rs.flatMap (Response.event pcId)) ↔
      ∀ p ∈ ps, p.Clean := by
  simp only [broadcasts_flatMap]
  refine ⟨?_, ?_⟩
  · intro h p hp
    -- blank out the other responses
    obtain ⟨before, after, rfl⟩ := List.append_of_mem hp
    have hblank : ∀ qs : List HopPattern, (qs.map blankResponse).map Response.pattern = qs := by
      intro qs
      rw [List.map_map]
      exact List.map_id qs
    have hsplit := h (before.map blankResponse ++ indexResponse p :: after.map blankResponse)
      (by rw [List.map_append, List.map_cons, hblank, hblank]; rfl)
    have hquiet : ∀ qs : List HopPattern, ((qs.map blankResponse).flatMap fun r =>
        (flushes Collector.init r.pattern.tokens).flatMap (flushEvent pcId r.text)) = [] := by
      intro qs
      simp only [List.flatMap_eq_nil_iff, List.mem_map]
      rintro r ⟨q, -, rfl⟩ l -
      exact blankResponse_flushEvent pcId q l
    have hnone : ∀ qs : List HopPattern,
        (qs.map blankResponse).flatMap (Response.event pcId) = [] := by
      intro qs
      simp only [List.flatMap_eq_nil_iff, List.mem_map]
      rintro r ⟨q, -, rfl⟩
      exact blankResponse_event pcId q
    rw [List.flatMap_append, List.flatMap_cons, hquiet, hquiet, List.flatMap_append,
      List.flatMap_cons, hnone, hnone, List.nil_append, List.append_nil, List.nil_append,
      List.append_nil] at hsplit
    exact p.clean_of_indexResponse hsplit
  · rintro h rs rfl
    refine List.flatMap_congr ?_
    intro r hr
    exact (h r.pattern (List.mem_map_of_mem hr)).flushEvents pcId

/-- Every frame passes through two hops, the text at once. -/
def twoHops : HopPattern where
  textCount := 1
  obs := [(0, 0), (0, 1), (1, 0), (1, 1), (2, 0), (2, 1)]
  nodup := by decide
  frame_le := by decide
  pushed := by decide
  closed := by decide
  ordered := by decide

/-- The transcript of such a response says its text twice. -/
theorem broadcasts_twoHops :
    let r : Response := ⟨twoHops, fun _ => ['H', 'i']⟩
    broadcasts "pc" .init r.pushes = [⟨"pc", .assistant, ['H', 'i', 'H', 'i']⟩] ∧
      broadcasts "pc" .init r.pushes ≠ r.event "pc" := by
  decide +kernel

end PipecatVoice
