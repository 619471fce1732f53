import PipecatVoice.DescriptionLines

/-!
# Descriptions are read as they were written

What one agent writes, another reads: its name and password, the source of its audio, and its
candidates.

* `Sound` — what can be said of an agent;
* `createSdp_eq` — nothing that is written is cut;
* `setRemoteDescription_createSdp` — the description is read back.
-/

namespace PipecatVoice.SessionDescription

open BindingCheck CArray Decimal TurnPairs
open TurnAllocate (IceCandidate iceCandidateCreate)

variable {res : Resolver} {l : Local}

/-- What an agent says of itself can be said. -/
structure Sound (res : Resolver) (l : Local) : Prop where
  ufrag : ∀ b ∈ l.ufrag, isWord b
  upwd : ∀ b ∈ l.upwd, isWord b
  fingerprint : ∀ b ∈ l.fingerprint, isWord b
  /-- `utils_random_string` -/
  length_ufrag : l.ufrag.length = 4
  length_upwd : l.upwd.length = 24
  /-- the digest, two digits and a colon a byte -/
  length_fingerprint : l.fingerprint.length = 95
  candidates : ∀ c ∈ l.candidates, Told res c
  /-- the candidates are numbered -/
  nodup : (l.candidates.map (·.foundation)).Nodup
  length_candidates : l.candidates.length ≤ agentMaxCandidates

/-! ## What an agent says -/

/-- A candidate's line is printable, and not long. -/
theorem exists_candidateLine {c : IceCandidate} (h : Told res c) :
    ∃ t, candidateLine res c = ascii "a=candidate:" ++ t ∧ (∀ b ∈ t, isPlain b) ∧
      t.length ≤ 105 := by
  have htype : (∀ b ∈ (typeWord c.type).2, isPlain b) ∧
      (typeWord c.type).1.length + (typeWord c.type).2.length ≤ 28 := by
    cases c.type <;> exact ⟨List.all_eq_true.mp (by decide), by decide⟩
  refine ⟨_, candidateLine_eq c, (spell_wordsOf h).plain htype.1, ?_⟩
  have h₁ := length_decimal_le (k := 2) (by decide) h.foundation
  have h₂ := length_decimal_le (n := c.priority.toNat) (k := 10) (by decide)
    (Nat.lt_trans c.priority.toNat_lt (by decide))
  have h₃ := length_addrToString h.addr
  have h₄ := length_decimal_le (n := c.addr.port.toNat) (k := 5) (by decide)
    (Nat.lt_trans c.addr.port.toNat_lt (by decide))
  simp only [Words.text, wordsOf, h.component, h.transport, List.length_append,
    show (ascii " ").length = 1 from rfl, show (ascii "UDP").length = 3 from rfl,
    show (ascii " typ").length = 4 from rfl, show (decimal 1).length = 1 from rfl, ← Nat.add_assoc]
  omega

/-- The line of a candidate says which candidate it is. -/
theorem says_candidateLine {c : IceCandidate} (h : Told res c) :
    Says res (candidateLine res c) (.candidate (asRead c)) := by
  obtain ⟨t, ht, hplain, hlen⟩ := exists_candidateLine h
  rw [ht]
  refine .candidate hplain (by omega) fun rest => ?_
  rw [← List.append_assoc, ← ht]
  exact iceCandidateFromDescription_candidateLine h rest

/-- Lines that the reader looks for nothing in. -/
theorem says_nothing {lines : List CString} (h : ∀ line ∈ lines, Quiet line ∧ Skipped line) :
    List.Forall₂ (Says res) lines (List.replicate lines.length .nothing) := by
  induction lines with
  | nil => exact .nil
  | cons line lines ih =>
    obtain ⟨hline, hlines⟩ := List.forall_mem_cons.mp h
    exact .cons (.nothing hline.1 hline.2) (ih hlines)

/-- What an agent says, line by line. -/
def said (l : Local) : List Said :=
  List.replicate 6 Said.nothing ++
    [Said.ufrag l.ufrag, .upwd l.upwd, .fingerprint l.fingerprint, .nothing] ++
      ([Said.media .audio] ++ List.replicate 2 Said.nothing ++ [Said.ssrc 7] ++
        List.replicate 3 Said.nothing)

/-- **The lines before the candidates** say what the agent knows of itself. -/
theorem says_sdpLines (h : Sound res l) : List.Forall₂ (Says res) (sdpLines l) (said l) := by
  have hcreate : ∀ line ∈ sdpCreate, Quiet line ∧ Skipped line := by decide +kernel
  have hsetup : Quiet (setupValue l.role) ∧ Skipped (setupValue l.role) := by
    cases l.role <;> decide +kernel
  have hmap : ∀ line ∈ [ascii "c=IN IP4 0.0.0.0", ascii "a=rtpmap:9 G722/8000"],
      Quiet line ∧ Skipped line := by
    decide +kernel
  have hmid : ∀ line ∈ [ascii "a=sendrecv", ascii "a=mid:audio", ascii "a=rtcp-mux"],
      Quiet line ∧ Skipped line := by
    decide +kernel
  have hg722 : sdpAppendG722 = [mediaHead .audio ++ ascii " 9 UDP/TLS/RTP/SAVP 9"] ++
      [ascii "c=IN IP4 0.0.0.0", ascii "a=rtpmap:9 G722/8000"] ++
        [ascii "a=ssrc:" ++ ascii "7 cname:webrtc-g722"] ++
          [ascii "a=sendrecv", ascii "a=mid:audio", ascii "a=rtcp-mux"] := rfl
  refine List.rel_append (List.rel_append (says_nothing hcreate) ?_) ?_
  · -- the name, the password, the fingerprint and the role
    exact .cons (.ufrag h.ufrag (by rw [h.length_ufrag]; decide))
      (.cons (.upwd h.upwd (by rw [h.length_upwd]; decide))
        (.cons (.fingerprint h.fingerprint (by rw [h.length_fingerprint]; decide))
          (.cons (.nothing hsetup.1 hsetup.2) .nil)))
  · -- the audio, with its source
    rw [hg722]
    refine List.rel_append (List.rel_append (List.rel_append ?_ (says_nothing hmap)) ?_)
      (says_nothing hmid)
    · exact .cons (.media .audio (List.all_eq_true.mp (by decide)) (by decide)) .nil
    · exact .cons (.ssrc (List.all_eq_true.mp (by decide)) (by decide) (by decide)) .nil

/-! ## Nothing is cut -/

/-- A text for which there is room is not cut. -/
theorem appendTo_eq {n : ℕ} {s text : CString} (h : s.length + text.length < n) :
    appendTo n s text = s ++ text := by
  rw [appendTo, List.take_of_length_le (by omega)]

/-- The candidates, if they fit into a datagram, are a line each. -/
theorem agentGetLocalDescription_eq {cs : List IceCandidate}
    (h : (joined (cs.map (candidateLine res))).length < configMtu) :
    agentGetLocalDescription res cs = joined (cs.map (candidateLine res)) := by
  -- over the candidates, whatever the buffer holds already
  have hfold : ∀ s : CString, s.length + (joined (cs.map (candidateLine res))).length < configMtu →
      cs.foldl (fun s c => appendTo configMtu s (candidateLine res c ++ crlf)) s =
        s ++ joined (cs.map (candidateLine res)) := by
    clear h
    induction cs with
    | nil => exact fun s _ => (List.append_nil s).symm
    | cons c cs ih =>
      intro s hs
      rw [List.map_cons, joined_cons, ← List.append_assoc, List.length_append] at hs
      rw [List.foldl_cons, appendTo_eq (by omega), ih, List.map_cons, joined_cons,
        List.append_assoc, List.append_assoc]
      rw [List.length_append]
      omega
  exact hfold [] (by simpa using h)

/-- A line does not end in a line feed of its own, so it is given one. -/
theorem getLast?_line {line : CString} (h : ∀ b ∈ line, isText b) (hne : line ≠ []) (s : CString) :
    (s ++ line).getLast? ≠ some 10 := by
  intro hlast
  rw [List.getLast?_append_of_ne_nil _ hne] at hlast
  exact absurd (h 10 (List.mem_of_getLast? hlast)) (by decide)

/-- One more line, with its end. -/
theorem sdpAppend_line {line s : CString} (h : ∀ b ∈ line, isText b) (hne : line ≠ [])
    (hlen : s.length + line.length < configSdpBufferSize) :
    sdpAppend s line = s ++ (line ++ crlf) := by
  rw [sdpAppend, appendTo_eq hlen]
  simp only [if_neg (getLast?_line h hne s), List.append_assoc]

/-- More lines, as long as the buffer has room for them. -/
theorem foldl_sdpAppend {lines : List CString}
    (h : ∀ line ∈ lines, (∀ b ∈ line, isText b) ∧ line ≠ []) (s : CString)
    (hlen : s.length + (joined lines).length < configSdpBufferSize) :
    lines.foldl sdpAppend s = s ++ joined lines := by
  induction lines generalizing s with
  | nil => exact (List.append_nil s).symm
  | cons line lines ih =>
    obtain ⟨hline, hlines⟩ := List.forall_mem_cons.mp h
    rw [joined_cons, ← List.append_assoc, List.length_append, List.length_append] at hlen
    rw [List.foldl_cons, sdpAppend_line hline.1 hline.2 (by omega), ih hlines, joined_cons,
      List.append_assoc, List.append_assoc]
    rw [List.length_append, List.length_append]
    omega

/-- Lines that have their ends are not given another. -/
theorem getLast?_joined {lines : List CString} (h : lines ≠ []) :
    (joined lines).getLast? = some 10 := by
  obtain rfl | ⟨front, line, rfl⟩ := List.eq_nil_or_concat lines
  · exact absurd rfl h
  · rw [List.concat_eq_append, joined_append, joined_cons, List.getLast?_append_of_ne_nil,
      List.getLast?_append_of_ne_nil]
    · rfl
    · exact List.cons_ne_nil _ _
    · exact List.append_ne_nil_of_right_ne_nil _ (List.cons_ne_nil _ _)

/-- The room that lines take, with their ends. -/
theorem length_joined_le {lines : List CString} {k : ℕ} (h : ∀ line ∈ lines, line.length ≤ k) :
    (joined lines).length ≤ (k + 2) * lines.length := by
  induction lines with
  | nil => exact Nat.le_refl 0
  | cons line lines ih =>
    obtain ⟨hline, hlines⟩ := List.forall_mem_cons.mp h
    have hrest := ih hlines
    have hcrlf : crlf.length = 2 := rfl
    rw [joined_cons, List.length_append, List.length_append, hcrlf, List.length_cons, Nat.mul_succ]
    omega

/-- A line that says something fits into the reader's buffer. -/
theorem forall_line {lines : List CString} {ms : List Said}
    (h : List.Forall₂ (Says res) lines ms) :
    ∀ line ∈ lines, (∀ b ∈ line, isText b) ∧ line.length ≤ 255 := by
  induction h with
  | nil => exact List.forall_mem_nil _
  | cons hline _ ih => exact List.forall_mem_cons.mpr ⟨⟨hline.text, hline.length_le⟩, ih⟩

/-- The lines before the candidates are lines, and none is empty. -/
theorem line_sdpLines (h : Sound res l) :
    ∀ line ∈ sdpLines l, ((∀ b ∈ line, isText b) ∧ line ≠ []) ∧ line.length ≤ 255 := by
  have hne : ∀ line ∈ sdpLines l, line ≠ [] := by
    have hcreate : ∀ line ∈ sdpCreate, line ≠ [] := by decide
    have hg722 : ∀ line ∈ sdpAppendG722, line ≠ [] := by decide
    have hsetup : setupValue l.role ≠ [] := by cases l.role <;> decide
    rw [sdpLines, List.forall_mem_append, List.forall_mem_append]
    refine ⟨⟨hcreate, ?_⟩, hg722⟩
    exact List.forall_mem_cons.mpr ⟨List.cons_ne_nil _ _, List.forall_mem_cons.mpr
      ⟨List.cons_ne_nil _ _, List.forall_mem_cons.mpr
        ⟨List.cons_ne_nil _ _, List.forall_mem_singleton.mpr hsetup⟩⟩⟩
  intro line hline
  obtain ⟨htext, hlen⟩ := forall_line (says_sdpLines h) line hline
  exact ⟨⟨htext, hne line hline⟩, hlen⟩

/-- The description is its lines, none of them cut. -/
theorem createSdp_eq (h : Sound res l) :
    createSdp res l = joined (sdpLines l ++ l.candidates.map (candidateLine res)) := by
  -- ten candidates of at most 117 bytes, and 17 lines of at most 255
  have hcands : (joined (l.candidates.map (candidateLine res))).length ≤ 1190 := by
    have hlines : ∀ s ∈ l.candidates.map (candidateLine res), s.length ≤ 117 := by
      rintro s hs
      obtain ⟨c, hc, rfl⟩ := List.mem_map.mp hs
      obtain ⟨t, ht, -, hlen⟩ := exists_candidateLine (h.candidates c hc)
      rw [ht, List.length_append, show (ascii "a=candidate:").length = 12 from rfl]
      omega
    refine (length_joined_le hlines).trans ?_
    rw [List.length_map]
    exact Nat.mul_le_mul_left 119 h.length_candidates
  have hlines : (joined (sdpLines l)).length ≤ 4369 :=
    length_joined_le fun s hs => (line_sdpLines h s hs).2
  -- what is appended last has its end already
  have hlast : ∀ lines, (joined (sdpLines l ++ lines)).getLast? = some 10 := fun lines =>
    getLast?_joined (List.cons_ne_nil _ _)
  have hwhole : (joined (sdpLines l)).length +
      (joined (l.candidates.map (candidateLine res))).length < configSdpBufferSize :=
    Nat.lt_of_le_of_lt (Nat.add_le_add hlines hcands) (by decide)
  have hbefore : ([] : CString).length + (joined (sdpLines l)).length < configSdpBufferSize :=
    Nat.lt_of_le_of_lt (Nat.add_le_add (Nat.le_refl 0) hlines) (by decide)
  rw [createSdp, foldl_sdpAppend (fun s hs => (line_sdpLines h s hs).1) [] hbefore,
    agentGetLocalDescription_eq (Nat.lt_of_le_of_lt hcands (by decide)), sdpAppend,
    List.nil_append, appendTo_eq hwhole, ← joined_append]
  simp only [if_pos (hlast _)]

/-! ## What is read -/

/-- What the lines of the candidates say. -/
def saidCandidates (cs : List IceCandidate) : List Said := cs.map fun c => .candidate (asRead c)

/-- The candidates say what they are, one by one. -/
theorem says_candidates {cs : List IceCandidate} (h : ∀ c ∈ cs, Told res c) :
    List.Forall₂ (Says res) (cs.map (candidateLine res)) (saidCandidates cs) := by
  induction cs with
  | nil => exact .nil
  | cons c cs ih =>
    obtain ⟨hc, hcs⟩ := List.forall_mem_cons.mp h
    exact .cons (says_candidateLine hc) (ih hcs)

/-- Candidates say nothing of the rest. -/
theorem filterMap_saidCandidates {f : Said → Option CString} (h : ∀ c, f (.candidate c) = none)
    (cs : List IceCandidate) : (saidCandidates cs).filterMap f = [] := by
  induction cs with
  | nil => rfl
  | cons c cs ih => exact (List.filterMap_cons_none (h (asRead c))).trans ih

theorem candidates_saidCandidates (cs : List IceCandidate) :
    (saidCandidates cs).filterMap Said.candidate? = cs.map asRead := by
  induction cs with
  | nil => rfl
  | cons c cs ih => exact congrArg (asRead c :: ·) ih

/-- Candidates name no source. -/
theorem sourceOf_saidCandidates (want : Media) (media : Option Media) (cs : List IceCandidate) :
    sourceOf want media (saidCandidates cs) = none := by
  induction cs with
  | nil => rfl
  | cons c cs ih => exact ih

/-- **An agent reads what the other has written**: its name and password, the fingerprint, the
source of its audio and its candidates, in their order. Read once more, it changes nothing. -/
theorem setRemoteDescription_createSdp (h : Sound res l) (buf buf' : CArray 256) :
    ∃ r, setRemoteDescription res buf .zero (createSdp res l) = .ok r ∧
      r.ufrag.string? = some l.ufrag ∧ r.upwd.string? = some l.upwd ∧
      r.fingerprint.string? = some l.fingerprint ∧ r.assrc = (rtpEncoderInit .g722).ssrc ∧
      r.candidates = l.candidates.map asRead ∧
      setRemoteDescription res buf' r (createSdp res l) = .ok r := by
  have hsays := List.rel_append (says_sdpLines h) (says_candidates h.candidates)
  have hname : l.ufrag ≠ [] := List.length_pos_iff.mp (by rw [h.length_ufrag]; decide)
  have hsaid : ∀ {f : Said → Option CString}, (∀ c, f (.candidate c) = none) →
      (said l ++ saidCandidates l.candidates).filterMap f = (said l).filterMap f := fun hf => by
    rw [List.filterMap_append, filterMap_saidCandidates hf, List.append_nil]
  have hcands : (said l ++ saidCandidates l.candidates).filterMap Said.candidate? =
      l.candidates.map asRead := by
    rw [List.filterMap_append, candidates_saidCandidates]
    rfl
  -- the reader drops candidates of the same foundation, and these are numbered
  have hnumbered : ((l.candidates.map asRead).map (·.foundation)).Nodup := by
    have hmap : (fun c : RemoteCandidate => c.foundation) ∘ asRead = decimal ∘ (·.foundation) := rfl
    rw [List.map_map, hmap, ← List.map_map]
    exact h.nodup.map (Function.LeftInverse.injective value_decimal)
  -- the source is named behind the line of the audio
  have hsource : (sourceOf .audio none (said l ++ saidCandidates l.candidates)).getD 0 = 7 := by
    have hbefore : ∀ ms, sourceOf .audio none (said l ++ ms) =
      (sourceOf .audio (some .audio) ms).or (some 7) := fun _ => rfl
    rw [hbefore, sourceOf_saidCandidates]
    rfl
  have hroom : (l.candidates.map asRead).length ≤ agentMaxCandidates := by
    rw [List.length_map]
    exact h.length_candidates
  rw [← hcands] at hnumbered hroom
  obtain ⟨r, hread, hufrag, hupwd, hfp, hssrc, hrest⟩ := setRemoteDescription_lines hsays
    (hsaid fun _ => rfl : _ = [l.ufrag]) (hsaid fun _ => rfl : _ = [l.upwd])
    (hsaid fun _ => rfl : _ = [l.fingerprint]) hname hnumbered hroom buf buf'
  rw [createSdp_eq h]
  rw [hcands] at hrest
  exact ⟨r, hread, hufrag, hupwd, hfp, hssrc.trans hsource, hrest⟩

/-- A platform that knows one address. -/
def loopback : Resolver where
  ntop6 _ := ascii "::1"
  pton6 s := if s = ascii "::1" then some #v[0, 0, 0, 0, 0, 0, 0, 1] else none
  mdns _ := none

/-- A device with a relay and an address of its own. -/
def device : Local where
  ufrag := ascii "Iexb"
  upwd := ascii "IexbSoY7JulyMbjKwISsG9aa"
  fingerprint := (List.replicate 31 (ascii "A5:")).flatten ++ ascii "A5"
  role := .server
  candidates := [iceCandidateCreate 1 .relay ⟨.v4 0x24e71c32, 38143⟩,
    iceCandidateCreate 2 .host ⟨.v6 #v[0, 0, 0, 0, 0, 0, 0, 1], 5004⟩]

theorem sound_device : Sound loopback device where
  ufrag := List.all_eq_true.mp (by decide)
  upwd := List.all_eq_true.mp (by decide)
  fingerprint := List.all_eq_true.mp (by decide)
  length_ufrag := rfl
  length_upwd := rfl
  length_fingerprint := rfl
  candidates := List.forall_mem_cons.mpr
    ⟨told_iceCandidateCreate (by decide) (by decide) trivial, List.forall_mem_singleton.mpr
      (told_iceCandidateCreate (by decide) (by decide)
        ⟨by decide, by decide, by decide, by decide⟩)⟩
  nodup := by decide
  length_candidates := by decide

theorem setRemoteDescription_createSdp_device :
    ∃ r, setRemoteDescription loopback (.zero _) .zero (createSdp loopback device) = .ok r ∧
      r.ufrag.string? = some device.ufrag ∧ r.upwd.string? = some device.upwd ∧
      r.fingerprint.string? = some device.fingerprint ∧
      r.assrc = (rtpEncoderInit .g722).ssrc ∧ r.candidates = device.candidates.map asRead ∧
      setRemoteDescription loopback (.zero _) r (createSdp loopback device) = .ok r :=
  setRemoteDescription_createSdp sound_device (.zero _) (.zero _)

end PipecatVoice.SessionDescription
