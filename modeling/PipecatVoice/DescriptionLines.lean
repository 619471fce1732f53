import Mathlib
import PipecatVoice.CandidateLine

/-!
# What the lines of a description say

Both loops go through a description line by line. The first copies each line into a buffer and
looks for a few texts in it, the second compares the beginning of all that is left.

* `Said`, `Says` — what a line says;
* `Said.scan`, `Said.learn` — what the loops make of it;
* `mediaLoop_lines`, `agentSetRemoteDescription_lines` — the loops, over all lines;
* `setRemoteDescription_lines` — what a new connection makes of a description.
-/

namespace PipecatVoice.SessionDescription

open CArray Decimal

/-! ## Lines -/

/-- A byte within a line. -/
def isText (b : UInt8) : Bool := b ≠ 0 && b ≠ 10 && b ≠ 13

/-- A letter, an equals sign, and printable text without another. -/
def isLine : CString → Bool
  | x :: 61 :: t => isPlain x && t.all isPlain
  | _ => false

/-- The parts of a line. -/
theorem exists_of_isLine {line : CString} (h : isLine line) :
    ∃ x t, line = x :: 61 :: t ∧ isPlain x ∧ ∀ b ∈ t, isPlain b := by
  fun_cases isLine line with
  | case1 x t =>
    obtain ⟨hx, ht⟩ := (Bool.and_eq_true _ _).mp h
    exact ⟨x, t, rfl, hx, List.all_eq_true.mp ht⟩
  | case2 line hne =>
    rw [isLine] at h
    · exact absurd h Bool.false_ne_true
    · exact hne

/-- A line may go on with plain text. -/
theorem isLine_append {line t : CString} (hline : isLine line) (ht : ∀ b ∈ t, isPlain b) :
    isLine (line ++ t) := by
  obtain ⟨x, s, rfl, hx, hs⟩ := exists_of_isLine hline
  refine (Bool.and_eq_true _ _).mpr ⟨hx, List.all_eq_true.mpr fun b hb => ?_⟩
  obtain hb | hb := List.mem_append.mp hb
  · exact hs b hb
  · exact ht b hb

/-- A line has no break in it. -/
theorem isText_of_isLine {line : CString} (h : isLine line) : ∀ b ∈ line, isText b := by
  obtain ⟨x, t, rfl, hx, ht⟩ := exists_of_isLine h
  have hplain : ∀ {b}, isPlain b → isText b := fun {b} hb => by
    simp only [isPlain, Bool.and_eq_true, decide_eq_true_eq] at hb
    have hne : ∀ c : UInt8, c < 32 → b ≠ c := fun c hc heq =>
      absurd (heq ▸ hb.1.1) (UInt8.not_le.mpr hc)
    simp [isText, hne 0 (by decide), hne 10 (by decide), hne 13 (by decide)]
  exact List.forall_mem_cons.mpr
    ⟨hplain hx, List.forall_mem_cons.mpr ⟨by decide, fun b hb => hplain (ht b hb)⟩⟩

/-- The first line is what stands before the first break. -/
theorem firstLine_append {line : CString} (h : ∀ b ∈ line, isText b) (rest : CString) :
    firstLine (line ++ (crlf ++ rest)) = some (line, rest) := by
  induction line with
  | nil => rfl
  | cons b line ih =>
    obtain ⟨hb, hline⟩ := List.forall_mem_cons.mp h
    rw [List.cons_append, firstLine, ih hline]
    · rfl
    · rintro rest' rfl
      exact absurd hb (by decide)

/-- A text that is nowhere in a line. -/
theorem behind?_eq_none {pattern s : CString} (h : ¬ pattern <:+: s) :
    behind? pattern s = none := by
  induction s with
  | nil => rw [behind?, if_neg fun hnil : pattern = [] => h (hnil ▸ List.nil_infix)]
  | cons b s ih =>
    rw [behind?, if_neg fun hfront => h hfront.isInfix]
    exact ih fun hwithin => h (hwithin.trans (List.suffix_cons b s).isInfix)

/-- A text with an equals sign at its second place is in a line only at the beginning. -/
theorem infix_line_iff {y : UInt8} {p line : CString} (h : isLine line) :
    y :: 61 :: p <:+: line ↔ y :: 61 :: p <+: line := by
  refine ⟨?_, List.IsPrefix.isInfix⟩
  obtain ⟨x, t, rfl, -, ht⟩ := exists_of_isLine h
  have hrest : (61 : UInt8) ∉ t := fun hmem => absurd (ht 61 hmem) (by decide)
  intro hwithin
  obtain hfront | hwithin := List.infix_cons_iff.mp hwithin
  · exact hfront
  · -- further on it would need another equals sign
    obtain hfront | hwithin := List.infix_cons_iff.mp hwithin
    · exact absurd ((List.cons_prefix_cons.mp hfront).2.subset List.mem_cons_self) hrest
    · exact absurd (hwithin.subset (List.mem_cons_of_mem _ List.mem_cons_self)) hrest

/-- What stands behind a text that a line begins with. -/
theorem behind?_of_prefix {pattern line : CString} (h : pattern <+: line) (hne : pattern ≠ []) :
    behind? pattern line = some (line.drop pattern.length) := by
  cases line with
  | nil => exact absurd (List.prefix_nil.mp h) hne
  | cons b s => rw [behind?, if_pos h]

/-- Lines, each with its end. -/
def joined (lines : List CString) : CString := lines.flatMap (· ++ crlf)

theorem joined_cons (line : CString) (lines : List CString) :
    joined (line :: lines) = line ++ (crlf ++ joined lines) := by
  rw [joined, List.flatMap_cons, List.append_assoc]
  rfl

theorem joined_append (lines lines' : List CString) :
    joined (lines ++ lines') = joined lines ++ joined lines' :=
  List.flatMap_append ..

/-- A line that begins with one text does not begin with a quite different one. -/
theorem not_prefix_append {p head : CString} (h : ¬ p <+: head) (h' : ¬ head <+: p) (t : CString) :
    ¬ p <+: head ++ t := fun hp =>
  (List.prefix_or_prefix_of_prefix hp (List.prefix_append head t)).elim h h'

/-! ## What a line says -/

/-- What a line says. -/
inductive Said where
  | nothing
  /-- a name -/
  | ufrag (t : CString)
  /-- a password -/
  | upwd (t : CString)
  /-- a digest -/
  | fingerprint (t : CString)
  /-- the media that the lines behind it belong to -/
  | media (m : Media)
  /-- the source of a media -/
  | ssrc (n : UInt32)
  | candidate (c : RemoteCandidate)

/-- The beginning of the line of a media. -/
def mediaHead : Media → CString
  | .audio => ascii "m=audio"
  | .video => ascii "m=video"

/-- The texts that the first loop looks for. -/
def headings : List CString :=
  [ascii "a=fingerprint", ascii "a=ice-ufrag", ascii "m=video", ascii "m=audio", ascii "a=ssrc:"]

/-- The texts that the second loop looks for. -/
def iceHeadings : List CString := [ascii "a=ice-ufrag:", ascii "a=ice-pwd:", ascii "a=candidate:"]

/-- A line that says nothing of the media. -/
structure Quiet (line : CString) : Prop where
  text : ∀ b ∈ line, isText b
  /-- it fits into the buffer -/
  short : line.length < 256
  silent : ∀ p ∈ headings, ¬ p <:+: line

instance (line : CString) : Decidable (Quiet line) :=
  decidable_of_iff (line.all isText ∧ line.length < 256 ∧ ∀ p ∈ headings, ¬ p <:+: line)
    ⟨fun h => ⟨List.all_eq_true.mp h.1, h.2.1, h.2.2⟩,
      fun h => ⟨List.all_eq_true.mpr h.1, h.2, h.3⟩⟩

/-- A line that says nothing to the agent. -/
def Skipped (line : CString) : Prop := ∀ p ∈ iceHeadings, ¬ p <+: line

instance (line : CString) : Decidable (Skipped line) := inferInstanceAs (Decidable (∀ _ ∈ _, _))

/-- What a line says. -/
inductive Says (res : Resolver) : CString → Said → Prop
  | nothing {line : CString} (h : Quiet line) (h' : Skipped line) : Says res line .nothing
  | ufrag {t : CString} (ht : ∀ b ∈ t, isWord b) (hlen : t.length < 244) :
    Says res (ascii "a=ice-ufrag:" ++ t) (.ufrag t)
  | upwd {t : CString} (ht : ∀ b ∈ t, isWord b) (hlen : t.length < 246) :
    Says res (ascii "a=ice-pwd:" ++ t) (.upwd t)
  | fingerprint {t : CString} (ht : ∀ b ∈ t, isWord b) (hlen : t.length < 160) :
    Says res (ascii "a=fingerprint:sha-256 " ++ t) (.fingerprint t)
  | media (m : Media) {t : CString} (ht : ∀ b ∈ t, isPlain b) (hlen : t.length < 249) :
    Says res (mediaHead m ++ t) (.media m)
  | ssrc {t : CString} {n : UInt32} (ht : ∀ b ∈ t, isPlain b) (hlen : t.length < 249)
      (hn : strtoul t = n) :
    Says res (ascii "a=ssrc:" ++ t) (.ssrc n)
  | candidate {t : CString} {c : RemoteCandidate} (ht : ∀ b ∈ t, isPlain b) (hlen : t.length < 244)
      (hread : ∀ rest, iceCandidateFromDescription res
        (ascii "a=candidate:" ++ (t ++ (crlf ++ rest))) = .ok c) :
    Says res (ascii "a=candidate:" ++ t) (.candidate c)

variable {res : Resolver} {line : CString} {lines : List CString} {m : Said} {ms : List Said}

/-- What is said of the media. -/
def Said.scan (u : CString) (x : Scan) : Said → Scan
  | .ufrag t => { x with isUpdate := x.isUpdate || decide (u ≠ [] ∧ u <+: t) }
  | .fingerprint t => { x with remote := x.remote.setFingerprint t }
  | .media m => { x with media := some m }
  | .ssrc n =>
    match x.media with
    | some .audio => { x with remote := { x.remote with assrc := n } }
    | some .video => { x with remote := { x.remote with vssrc := n } }
    | none => x
  | .nothing | .upwd _ | .candidate _ => x

/-- A candidate that is not known yet. -/
def addCandidate (cs : List RemoteCandidate) (c : RemoteCandidate) :
    Except Failure (List RemoteCandidate) :=
  if agentMaxCandidates ≤ cs.length then .error .overflow
  else if cs.any (·.foundation = c.foundation) then .ok cs
  else .ok (cs ++ [c])

/-- What is said to the agent. -/
def Said.learn (r : Remote) : Said → Except Failure Remote
  | .ufrag t => copyRest r.ufrag t >>= fun ufrag => .ok { r with ufrag := ufrag }
  | .upwd t => copyRest r.upwd t >>= fun upwd => .ok { r with upwd := upwd }
  | .candidate c => addCandidate r.candidates c >>= fun cs => .ok { r with candidates := cs }
  | .nothing | .fingerprint _ | .media _ | .ssrc _ => .ok r

/-- A line is a beginning and plain text, unless it is quiet. -/
theorem Says.text (h : Says res line m) : ∀ b ∈ line, isText b := by
  have hword : ∀ {head t}, isLine head → (∀ b ∈ t, isWord b) → ∀ b ∈ head ++ t, isText b :=
    fun hhead ht => isText_of_isLine (isLine_append hhead fun b hb => isPlain_of_isWord (ht b hb))
  cases h with
  | nothing h => exact h.text
  | ufrag ht => exact hword (by decide) ht
  | upwd ht => exact hword (by decide) ht
  | fingerprint ht => exact hword (by decide) ht
  | media m ht => exact isText_of_isLine (isLine_append (by cases m <;> decide) ht)
  | ssrc ht => exact isText_of_isLine (isLine_append (by decide) ht)
  | candidate ht => exact isText_of_isLine (isLine_append (by decide) ht)

/-- Each fits into the buffer. -/
theorem Says.length_le (h : Says res line m) : line.length ≤ 255 := by
  cases h with
  | nothing h => exact Nat.le_of_lt_succ h.short
  | media m _ hlen =>
    have hhead : (mediaHead m).length = 7 := by cases m <;> rfl
    rw [List.length_append, hhead]
    omega
  | ufrag _ hlen | upwd _ hlen | fingerprint _ hlen | ssrc _ hlen _ | candidate _ hlen _ =>
    rw [List.length_append]
    exact (Nat.add_le_add_left (Nat.le_of_lt_succ hlen) _).trans (by decide)

/-! ## The first loop -/

/-- A line is copied into the buffer. -/
theorem exists_buf (buf : CArray 256) (h : ∀ b ∈ line, isText b) (hlen : line.length < 256) :
    ∃ b, buf.write? 0 (line ++ [0]) = some b ∧
      ∀ off ≤ line.length, stringAt b off = line.drop off := by
  obtain ⟨b, hwrite, htake⟩ := exists_write? buf 0 (line ++ [0]) (by
    rw [List.length_append, List.length_singleton]
    omega)
  refine ⟨b, hwrite, fun off hoff => ?_⟩
  have hbytes : b.bytes = line ++ (0 :: b.bytes.drop (line ++ [0]).length) := by
    rw [← List.take_append_drop (0 + (line ++ [0]).length) b.bytes, htake]
    simp
  have hzero : ∀ c ∈ line.drop off, (c ≠ 0 : Bool) := fun c hc => by
    have hc := h c (List.mem_of_mem_drop hc)
    simp only [isText, Bool.and_eq_true, decide_eq_true_eq] at hc
    exact decide_eq_true hc.1.1
  rw [stringAt, hbytes, List.drop_append_of_le_length hoff, List.takeWhile_append_of_pos hzero]
  simp

variable {u : CString}

/-- A line is read from the buffer that it was copied into. -/
theorem exists_readMedia (h : ∀ b ∈ line, isText b) (hlen : line.length < 256) (x : Scan)
    (hu : x.remote.ufrag.string? = some u) :
    ∃ buf, (∀ off ≤ line.length, stringAt buf off = line.drop off) ∧
      readMedia x line = .ok ((((Scan.readFingerprint { x with buf := buf } line).readUfrag u
        line).readMediaLine line).readSsrc line) := by
  obtain ⟨b, hwrite, hat⟩ := exists_buf x.buf h hlen
  refine ⟨b, hat, ?_⟩
  rw [readMedia, hwrite, hu]

/-- What is looked for is at the beginning of a line, or not in it. -/
theorem behind?_head {p head t : CString} (hp : p ∈ headings) (hline : isLine (head ++ t))
    (hhead : p <+: head ∨ ¬ head <+: p) :
    behind? p (head ++ t) = if p <+: head then some ((head ++ t).drop p.length) else none := by
  have hwithin : p <:+: head ++ t ↔ p <+: head ++ t := by
    simp only [headings, List.mem_cons, List.not_mem_nil, or_false] at hp
    obtain rfl | rfl | rfl | rfl | rfl := hp <;> exact infix_line_iff hline
  by_cases hfront : p <+: head
  · have hne : p ≠ [] := by
      rintro rfl
      exact absurd hp (by decide)
    rw [if_pos hfront, behind?_of_prefix (hfront.trans (List.prefix_append head t)) hne]
  · rw [if_neg hfront, behind?_eq_none fun h =>
      not_prefix_append hfront (hhead.resolve_left hfront) t (hwithin.mp h)]

section Read

variable (x : Scan)

/-- Each reader leaves a line alone in which it does not find its text. -/
theorem readFingerprint_none (h : behind? (ascii "a=fingerprint") line = none) :
    x.readFingerprint line = x := by
  rw [Scan.readFingerprint, h]
  rfl

theorem readUfrag_none (h : behind? (ascii "a=ice-ufrag") line = none) :
    x.readUfrag u line = x := by
  rw [Scan.readUfrag, h]
  exact if_neg fun h => absurd h.1 Bool.false_ne_true

theorem readMediaLine_none (hvideo : behind? (ascii "m=video") line = none)
    (haudio : behind? (ascii "m=audio") line = none) : x.readMediaLine line = x := by
  rw [Scan.readMediaLine, hvideo, haudio]
  rfl

theorem readSsrc_none (h : behind? (ascii "a=ssrc:") line = none) : x.readSsrc line = x := by
  rw [Scan.readSsrc, h]

/-- A fingerprint is taken from its place in the buffer, and so is a name. -/
theorem readFingerprint_some {s t : CString} (h : behind? (ascii "a=fingerprint") line = some s)
    (hat : stringAt x.buf 22 = t) : x.readFingerprint line = Said.scan u x (.fingerprint t) := by
  subst hat
  rw [Scan.readFingerprint, h]
  rfl

theorem readUfrag_some {s t : CString} (h : behind? (ascii "a=ice-ufrag") line = some s)
    (hat : stringAt x.buf 12 = t) : x.readUfrag u line = Said.scan u x (.ufrag t) := by
  subst hat
  rw [Scan.readUfrag, h, Said.scan]
  by_cases hu : u ≠ [] ∧ u <+: stringAt x.buf 12
  · rw [if_pos ⟨rfl, hu⟩, decide_eq_true hu, Bool.or_true]
  · rw [if_neg fun h => hu h.2, decide_eq_false hu, Bool.or_false]

/-- A line in which nothing is found. -/
theorem read_none (h : ∀ p ∈ headings, behind? p line = none) :
    (((x.readFingerprint line).readUfrag u line).readMediaLine line).readSsrc line = x := by
  rw [readFingerprint_none _ (h _ (by decide)), readUfrag_none _ (h _ (by decide)),
    readMediaLine_none _ (h _ (by decide)) (h _ (by decide)), readSsrc_none _ (h _ (by decide))]

end Read

/-- What is found in a line that begins with one of the texts. -/
theorem readMedia_head (head : CString) {t : CString} (ht : ∀ b ∈ t, isPlain b)
    (hlen : head.length + t.length < 256)
    (hhead : isLine head ∧ ∀ p ∈ headings, p <+: head ∨ ¬ head <+: p) (x : Scan)
    (hu : x.remote.ufrag.string? = some u) :
    ∃ buf, stringAt buf head.length = t ∧
      (∀ p ∈ headings, ¬ p <+: head → behind? p (head ++ t) = none) ∧
      (∀ p ∈ headings, p <+: head → behind? p (head ++ t) = some ((head ++ t).drop p.length)) ∧
      readMedia x (head ++ t) = .ok ((((Scan.readFingerprint { x with buf := buf }
        (head ++ t)).readUfrag u (head ++ t)).readMediaLine (head ++ t)).readSsrc (head ++ t)) := by
  have hline := isLine_append hhead.1 ht
  obtain ⟨b, hat, hread⟩ := exists_readMedia (isText_of_isLine hline)
    (by rwa [List.length_append]) x hu
  refine ⟨b, ?_, fun p hp h => ?_, fun p hp h => ?_, hread⟩
  · rw [hat _ (by rw [List.length_append]; omega), List.drop_left]
  · rw [behind?_head hp hline (hhead.2 p hp), if_neg h]
  · rw [behind?_head hp hline (hhead.2 p hp), if_pos h]

/-- **A line in the first loop.** -/
theorem readMedia_line (h : Says res line m) (x : Scan) (hu : x.remote.ufrag.string? = some u) :
    ∃ buf, readMedia x line = .ok { m.scan u x with buf := buf } := by
  cases h with
  | nothing h =>
    obtain ⟨b, -, hread⟩ := exists_readMedia h.text h.short x hu
    rw [read_none _ fun p hp => behind?_eq_none (h.silent p hp)] at hread
    exact ⟨b, hread⟩
  | ufrag ht hlen =>
    obtain ⟨b, hat, hnone, hsome, hread⟩ := readMedia_head (ascii "a=ice-ufrag:")
      (fun b hb => isPlain_of_isWord (ht b hb)) (by show 12 + _ < 256; omega) (by decide) x hu
    rw [readFingerprint_none _ (hnone _ (by decide) (by decide)),
      readUfrag_some _ (hsome _ (by decide) (by decide)) hat,
      readMediaLine_none _ (hnone _ (by decide) (by decide)) (hnone _ (by decide) (by decide)),
      readSsrc_none _ (hnone _ (by decide) (by decide))] at hread
    exact ⟨b, hread⟩
  | upwd ht hlen =>
    obtain ⟨b, -, hnone, -, hread⟩ := readMedia_head (ascii "a=ice-pwd:")
      (fun b hb => isPlain_of_isWord (ht b hb)) (by show 10 + _ < 256; omega) (by decide) x hu
    have hnot : ∀ p ∈ headings, ¬ p <+: ascii "a=ice-pwd:" := by decide
    rw [read_none _ fun p hp => hnone p hp (hnot p hp)] at hread
    exact ⟨b, hread⟩
  | fingerprint ht hlen =>
    obtain ⟨b, hat, hnone, hsome, hread⟩ := readMedia_head (ascii "a=fingerprint:sha-256 ")
      (fun b hb => isPlain_of_isWord (ht b hb)) (by show 22 + _ < 256; omega) (by decide) x hu
    rw [readFingerprint_some (u := u) _ (hsome _ (by decide) (by decide)) hat,
      readUfrag_none _ (hnone _ (by decide) (by decide)),
      readMediaLine_none _ (hnone _ (by decide) (by decide)) (hnone _ (by decide) (by decide)),
      readSsrc_none _ (hnone _ (by decide) (by decide))] at hread
    exact ⟨b, hread⟩
  | media m ht hlen =>
    have hlength : (mediaHead m).length = 7 := by cases m <;> rfl
    have hhead : isLine (mediaHead m) ∧
        ∀ p ∈ headings, p <+: mediaHead m ∨ ¬ mediaHead m <+: p := by
      cases m <;> decide
    obtain ⟨b, -, hnone, hsome, hread⟩ := readMedia_head (mediaHead m) ht (by omega) hhead x hu
    have hfp : ¬ ascii "a=fingerprint" <+: mediaHead m := by cases m <;> decide
    have hufrag : ¬ ascii "a=ice-ufrag" <+: mediaHead m := by cases m <;> decide
    have hssrc : ¬ ascii "a=ssrc:" <+: mediaHead m := by cases m <;> decide
    rw [readFingerprint_none _ (hnone _ (by decide) hfp),
      readUfrag_none _ (hnone _ (by decide) hufrag), readSsrc_none _ (hnone _ (by decide) hssrc),
      Scan.readMediaLine] at hread
    cases m with
    | audio =>
      rw [hnone (ascii "m=video") (by decide) (by decide),
        hsome (ascii "m=audio") (by decide) (by decide)] at hread
      exact ⟨b, hread⟩
    | video =>
      rw [hsome (ascii "m=video") (by decide) (by decide)] at hread
      exact ⟨b, hread⟩
  | ssrc ht hlen hn =>
    obtain ⟨b, -, hnone, hsome, hread⟩ := readMedia_head (ascii "a=ssrc:") ht
      (by show 7 + _ < 256; omega) (by decide) x hu
    rw [readFingerprint_none _ (hnone _ (by decide) (by decide)),
      readUfrag_none _ (hnone _ (by decide) (by decide)),
      readMediaLine_none _ (hnone _ (by decide) (by decide)) (hnone _ (by decide) (by decide)),
      Scan.readSsrc, hsome _ (by decide) (by decide), List.drop_left] at hread
    refine ⟨b, hread.trans (congrArg _ ?_)⟩
    subst hn
    obtain ⟨remote, media, isUpdate, buf⟩ := x
    obtain _ | _ | _ := media <;> rfl
  | candidate ht hlen _ =>
    obtain ⟨b, -, hnone, -, hread⟩ := readMedia_head (ascii "a=candidate:") ht
      (by show 12 + _ < 256; omega) (by decide) x hu
    have hnot : ∀ p ∈ headings, ¬ p <+: ascii "a=candidate:" := by decide
    rw [read_none _ fun p hp => hnone p hp (hnot p hp)] at hread
    exact ⟨b, hread⟩

/-- The first loop reads one line after the other. -/
theorem mediaLoop_cons (h : ∀ b ∈ line, isText b) (x : Scan) (lines : List CString) :
    mediaLoop x (joined (line :: lines)) = readMedia x line >>= (mediaLoop · (joined lines)) := by
  have hfirst := firstLine_append h (joined lines)
  rw [← joined_cons] at hfirst
  rw [mediaLoop]
  split
  · next heq =>
    rw [hfirst] at heq
    cases heq
  · next heq =>
    rw [hfirst] at heq
    obtain ⟨rfl, rfl⟩ := Prod.mk.inj (Option.some.inj heq)
    rfl

theorem mediaLoop_nil (x : Scan) : mediaLoop x (joined []) = .ok x := by
  rw [mediaLoop]
  rfl

/-- Nothing that is said in the first loop changes the name it compares with. -/
@[simp] theorem scan_ufrag (u : CString) (x : Scan) (m : Said) :
    (m.scan u x).remote.ufrag = x.remote.ufrag := by
  cases m with
  | ssrc n =>
    obtain ⟨remote, media, isUpdate, buf⟩ := x
    obtain _ | _ | _ := media <;> rfl
  | _ => rfl

/-- What the buffer holds does not matter. -/
theorem scan_buf (u : CString) (x : Scan) (buf : CArray 256) (m : Said) :
    m.scan u { x with buf := buf } = { m.scan u x with buf := buf } := by
  cases m with
  | ssrc n =>
    obtain ⟨remote, media, isUpdate, buf'⟩ := x
    obtain _ | _ | _ := media <;> rfl
  | _ => rfl

theorem foldl_scan_buf (u : CString) (x : Scan) (buf : CArray 256) (ms : List Said) :
    ms.foldl (Said.scan u) { x with buf := buf } =
      { ms.foldl (Said.scan u) x with buf := buf } := by
  induction ms generalizing x with
  | nil => rfl
  | cons m ms ih => rw [List.foldl_cons, List.foldl_cons, scan_buf, ih]

/-- **The first loop**, over all lines. -/
theorem mediaLoop_lines (h : List.Forall₂ (Says res) lines ms) (x : Scan)
    (hu : x.remote.ufrag.string? = some u) :
    ∃ buf, mediaLoop x (joined lines) = .ok { ms.foldl (Said.scan u) x with buf := buf } := by
  induction h generalizing x with
  | nil => exact ⟨x.buf, mediaLoop_nil x⟩
  | @cons line m lines ms hline _ ih =>
    obtain ⟨b, hread⟩ := readMedia_line hline x hu
    obtain ⟨b', hloop⟩ := ih { m.scan u x with buf := b } ((scan_ufrag u x m).symm ▸ hu)
    refine ⟨b', ?_⟩
    rw [mediaLoop_cons hline.text, hread, ok_bind, hloop, foldl_scan_buf]
    rfl

/-! ## The second loop -/

/-- A heading lies within its line. -/
theorem prefix_joined_cons {p : CString} (hp : p ∈ iceHeadings) (line : CString)
    (lines : List CString) : p <+: joined (line :: lines) ↔ p <+: line := by
  have hend : (13 : UInt8) ∉ p := by
    revert p
    decide
  rw [joined_cons]
  refine ⟨fun h => ?_, fun h => h.trans (List.prefix_append _ _)⟩
  obtain hshort | ⟨t, rfl⟩ := List.prefix_or_prefix_of_prefix h (List.prefix_append line _)
  · exact hshort
  · cases t with
    | nil => simp
    | cons b t =>
      -- the heading would reach the end of the line
      have hb := (List.cons_prefix_cons.mp ((List.prefix_append_right_inj line).mp h)).1
      exact absurd (List.mem_append_right line (hb ▸ List.mem_cons_self)) hend

/-- The second loop reads one line after the other, too. -/
theorem agentSetRemoteDescription_cons (h : ∀ b ∈ line, isText b) (r : Remote)
    (lines : List CString) :
    agentSetRemoteDescription res r (joined (line :: lines)) =
      readIce res r line (joined (line :: lines)) >>=
        (agentSetRemoteDescription res · (joined lines)) := by
  have hfirst := firstLine_append h (joined lines)
  rw [← joined_cons] at hfirst
  rw [agentSetRemoteDescription]
  split
  · next heq =>
    rw [hfirst] at heq
    cases heq
  · next heq =>
    rw [hfirst] at heq
    obtain ⟨rfl, rfl⟩ := Prod.mk.inj (Option.some.inj heq)
    rfl

theorem agentSetRemoteDescription_nil (r : Remote) :
    agentSetRemoteDescription res r (joined []) = .ok r := by
  rw [agentSetRemoteDescription]
  rfl

/-- **A line in the second loop.** -/
theorem readIce_line (h : Says res line m) (r : Remote) (lines : List CString) :
    readIce res r line (joined (line :: lines)) = m.learn r := by
  have hskip : ∀ {line}, Skipped line → readIce res r line (joined (line :: lines)) = .ok r := by
    intro line h
    have hnot : ∀ p ∈ iceHeadings, ¬ p <+: joined (line :: lines) := fun p hp hfront =>
      h p hp ((prefix_joined_cons hp line lines).mp hfront)
    rw [readIce, if_neg (hnot _ (by decide)), if_neg (hnot _ (by decide)),
      if_neg (hnot _ (by decide))]
  have hhead : ∀ {head t}, (∀ p ∈ iceHeadings, ¬ p <+: head ∧ ¬ head <+: p) →
      Skipped (head ++ t) := fun hhead p hp =>
    not_prefix_append (hhead p hp).1 (hhead p hp).2 _
  have hfound : ∀ {p} t, p ∈ iceHeadings → p <+: joined ((p ++ t) :: lines) := fun t hp =>
    (prefix_joined_cons hp _ _).mpr (List.prefix_append _ t)
  have hnot : ∀ {p head} t, p ∈ iceHeadings → ¬ p <+: head → ¬ head <+: p →
      ¬ p <+: joined ((head ++ t) :: lines) := fun t hp h h' hfront =>
    not_prefix_append h h' t ((prefix_joined_cons hp _ _).mp hfront)
  -- a name, a password or a candidate has its heading, and the other lines have none of the three
  cases h with
  | nothing _ h => exact hskip h
  | fingerprint _ _ => exact hskip (hhead (by decide))
  | media m _ _ => exact hskip (hhead (by cases m <;> decide))
  | ssrc _ _ _ => exact hskip (hhead (by decide))
  | @ufrag t _ _ =>
    rw [readIce, if_pos (hfound t (by decide)),
      List.drop_left' (show (ascii "a=ice-ufrag:").length = 12 from rfl)]
    rfl
  | @upwd t _ _ =>
    rw [readIce, if_neg (hnot t (by decide) (by decide) (by decide)),
      if_pos (hfound t (by decide)),
      List.drop_left' (show (ascii "a=ice-pwd:").length = 10 from rfl)]
    rfl
  | @candidate t c _ _ hread =>
    have hcandidate := hread (joined lines)
    rw [← List.append_assoc, ← joined_cons] at hcandidate
    rw [readIce, if_neg (hnot t (by decide) (by decide) (by decide)),
      if_neg (hnot t (by decide) (by decide) (by decide)), if_pos (hfound t (by decide)),
      hcandidate, Said.learn, addCandidate]
    -- it is learned unless its foundation is known
    by_cases hroom : agentMaxCandidates ≤ r.candidates.length
    · rw [if_pos hroom, if_pos hroom]
      rfl
    · rw [if_neg hroom, if_neg hroom]
      by_cases hany : r.candidates.any (·.foundation = c.foundation)
      · simp only [if_pos hany, ok_bind]
      · simp only [if_neg hany, ok_bind]

/-- **The second loop**, over all lines. -/
theorem agentSetRemoteDescription_lines (h : List.Forall₂ (Says res) lines ms) (r : Remote) :
    agentSetRemoteDescription res r (joined lines) = ms.foldlM Said.learn r := by
  induction h generalizing r with
  | nil => exact agentSetRemoteDescription_nil r
  | cons hline _ ih =>
    rw [agentSetRemoteDescription_cons hline.text, readIce_line hline, List.foldlM_cons]
    exact congrArg _ (funext ih)

/-! ## All that is said -/

def Said.ufrag? : Said → Option CString
  | .ufrag t => some t
  | _ => none

def Said.upwd? : Said → Option CString
  | .upwd t => some t
  | _ => none

def Said.fingerprint? : Said → Option CString
  | .fingerprint t => some t
  | _ => none

def Said.candidate? : Said → Option RemoteCandidate
  | .candidate c => some c
  | _ => none

/-- What a successful computation went through. -/
theorem exists_of_bind {α β : Type} {x : Except Failure α} {f : α → Except Failure β} {b : β}
    (h : x >>= f = .ok b) : ∃ a, x = .ok a ∧ f a = .ok b := by
  cases x with
  | ok a => exact ⟨a, rfl, h⟩
  | error e => cases h

/-- Each thing is learned for itself. -/
theorem foldlM_learn (r : Remote) {ufrag upwd : CArray 257} {cs : List RemoteCandidate}
    (hufrag : (ms.filterMap Said.ufrag?).foldlM copyRest r.ufrag = .ok ufrag)
    (hupwd : (ms.filterMap Said.upwd?).foldlM copyRest r.upwd = .ok upwd)
    (hcs : (ms.filterMap Said.candidate?).foldlM addCandidate r.candidates = .ok cs) :
    ms.foldlM Said.learn r = .ok { r with ufrag := ufrag, upwd := upwd, candidates := cs } := by
  induction ms generalizing r with
  | nil =>
    cases hufrag
    cases hupwd
    cases hcs
    rfl
  | cons m ms ih =>
    rw [List.foldlM_cons]
    cases m with
    | ufrag t =>
      rw [List.filterMap_cons_some (rfl : Said.ufrag? (.ufrag t) = some t), List.foldlM_cons]
        at hufrag
      obtain ⟨a, ha, hrest⟩ := exists_of_bind hufrag
      rw [Said.learn, ha, ok_bind, ok_bind]
      exact ih { r with ufrag := a } hrest hupwd hcs
    | upwd t =>
      rw [List.filterMap_cons_some (rfl : Said.upwd? (.upwd t) = some t), List.foldlM_cons]
        at hupwd
      obtain ⟨a, ha, hrest⟩ := exists_of_bind hupwd
      rw [Said.learn, ha, ok_bind, ok_bind]
      exact ih { r with upwd := a } hufrag hrest hcs
    | candidate c =>
      rw [List.filterMap_cons_some (rfl : Said.candidate? (.candidate c) = some c),
        List.foldlM_cons] at hcs
      obtain ⟨a, ha, hrest⟩ := exists_of_bind hcs
      rw [Said.learn, ha, ok_bind, ok_bind]
      exact ih { r with candidates := a } hufrag hupwd hrest
    | _ => exact ih r hufrag hupwd hcs

/-- New candidates are added one by one. -/
theorem foldlM_addCandidate {new : List RemoteCandidate}
    (hnodup : (new.map (·.foundation)).Nodup) (cs : List RemoteCandidate)
    (hnew : ∀ x ∈ cs, ∀ c ∈ new, x.foundation ≠ c.foundation)
    (hroom : cs.length + new.length ≤ agentMaxCandidates) :
    new.foldlM addCandidate cs = .ok (cs ++ new) := by
  induction new generalizing cs with
  | nil => rw [List.append_nil]; rfl
  | cons c new ih =>
    obtain ⟨hfresh, hnodup⟩ := List.nodup_cons.mp hnodup
    rw [List.length_cons] at hroom
    have hany : cs.any (·.foundation = c.foundation) = false :=
      List.any_eq_false.mpr fun x hx => by
        rw [decide_eq_true_eq]
        exact hnew x hx c List.mem_cons_self
    rw [List.foldlM_cons, addCandidate, if_neg (by omega)]
    simp only [hany, Bool.false_eq_true, if_false, ok_bind]
    rw [ih hnodup (cs ++ [c]), List.append_assoc, List.singleton_append]
    · intro x hx c' hc'
      obtain hx | hx := List.mem_append.mp hx
      · exact hnew x hx c' (List.mem_cons_of_mem c hc')
      · obtain rfl := List.mem_singleton.mp hx
        exact fun heq => hfresh (List.mem_map.mpr ⟨c', hc', heq.symm⟩)
    · rw [List.length_append, List.length_singleton]
      omega

/-- A name or a password in an array of zeros. -/
theorem exists_copyRest {t : CString} (ht : ∀ b ∈ t, isWord b) (hlen : t.length < 257) :
    ∃ a, copyRest (.zero 257) t = .ok a ∧ a.string? = some t := by
  have hzeros : (CArray.zero 257).bytes =
      [] ++ List.replicate t.length 0 ++ List.replicate (257 - t.length) 0 := by
    rw [List.nil_append, List.replicate_append_replicate, Nat.add_sub_cancel' hlen.le]
    rfl
  obtain ⟨a, hwrite, hbytes⟩ :=
    write?_append t hzeros (show 0 = [].length from rfl) List.length_replicate.symm
  exact ⟨a, by rw [copyRest, hwrite],
    string?_of_padded hbytes (fun h0 => absurd (ht 0 h0) (by decide)) hlen⟩

/-- What is said of the media and the fingerprint changes nothing else. -/
theorem foldl_scan (u : CString) (x : Scan) (ms : List Said) :
    (ms.foldl (Said.scan u) x).remote.ufrag = x.remote.ufrag ∧
      (ms.foldl (Said.scan u) x).remote.upwd = x.remote.upwd ∧
      (ms.foldl (Said.scan u) x).remote.candidates = x.remote.candidates ∧
      (ms.foldl (Said.scan u) x).remote.fingerprint = (ms.filterMap Said.fingerprint?).foldl
        (fun a t => a.strncpy t 160 (Nat.le_refl _)) x.remote.fingerprint ∧
      (ms.foldl (Said.scan u) x).isUpdate =
        (x.isUpdate || (ms.filterMap Said.ufrag?).any fun t => decide (u ≠ [] ∧ u <+: t)) := by
  induction ms generalizing x with
  | nil => exact ⟨rfl, rfl, rfl, rfl, (Bool.or_false _).symm⟩
  | cons m ms ih =>
    obtain ⟨h₁, h₂, h₃, h₄, h₅⟩ := ih (m.scan u x)
    rw [List.foldl_cons, h₁, h₂, h₃, h₄, h₅]
    cases m with
    | ssrc n =>
      obtain ⟨remote, media, isUpdate, buf⟩ := x
      obtain _ | _ | _ := media <;> exact ⟨rfl, rfl, rfl, rfl, rfl⟩
    | ufrag t => exact ⟨rfl, rfl, rfl, rfl, Bool.or_assoc ..⟩
    | _ => exact ⟨rfl, rfl, rfl, rfl, rfl⟩

/-- The source that a connection has of a media. -/
def Remote.source (r : Remote) : Media → UInt32
  | .audio => r.assrc
  | .video => r.vssrc

/-- The last source that is named of a media. -/
def sourceOf (want : Media) : Option Media → List Said → Option UInt32
  | _, [] => none
  | _, .media m :: ms => sourceOf want (some m) ms
  | media, .ssrc n :: ms =>
    (sourceOf want media ms).or (if media = some want then some n else none)
  | media, _ :: ms => sourceOf want media ms

/-- The source that is kept of a media is the last one named. -/
theorem foldl_scan_source (u : CString) (want : Media) (x : Scan) (ms : List Said) :
    (ms.foldl (Said.scan u) x).remote.source want =
      (sourceOf want x.media ms).getD (x.remote.source want) := by
  induction ms generalizing x with
  | nil => rfl
  | cons m ms ih =>
    rw [List.foldl_cons, ih]
    cases m with
    | ssrc n =>
      obtain ⟨remote, media, isUpdate, buf⟩ := x
      have hmedia : (Said.scan u ⟨remote, media, isUpdate, buf⟩ (.ssrc n)).media = media := by
        obtain _ | _ | _ := media <;> rfl
      rw [sourceOf, hmedia]
      generalize sourceOf want media ms = last
      obtain _ | _ | _ := media <;> cases want <;> cases last <;> rfl
    | _ => cases want <;> rfl

/-- What is said, some line says. -/
theorem exists_line (h : List.Forall₂ (Says res) lines ms) (hm : m ∈ ms) :
    ∃ line, Says res line m := by
  induction h with
  | nil => exact absurd hm List.not_mem_nil
  | cons hline _ ih =>
    obtain rfl | hm := List.mem_cons.mp hm
    · exact ⟨_, hline⟩
    · exact ih hm

theorem exists_says (h : List.Forall₂ (Says res) lines ms) {f : Said → Option CString}
    {t : CString} (ht : t ∈ ms.filterMap f) : ∃ line m, Says res line m ∧ f m = some t := by
  obtain ⟨m, hm, heq⟩ := List.mem_filterMap.mp ht
  obtain ⟨line, hline⟩ := exists_line h hm
  exact ⟨line, m, hline, heq⟩

/-- A name has a line to itself, so it fits into its array. -/
theorem sound_ufrag (h : List.Forall₂ (Says res) lines ms) {t : CString}
    (ht : t ∈ ms.filterMap Said.ufrag?) : (∀ b ∈ t, isWord b) ∧ t.length < 257 := by
  obtain ⟨line, m, hline, heq⟩ := exists_says h ht
  cases hline with
  | ufrag hword hlen => exact Option.some.inj heq ▸ ⟨hword, Nat.lt_trans hlen (by decide)⟩
  | _ => cases heq

/-- So does a password. -/
theorem sound_upwd (h : List.Forall₂ (Says res) lines ms) {t : CString}
    (ht : t ∈ ms.filterMap Said.upwd?) : (∀ b ∈ t, isWord b) ∧ t.length < 257 := by
  obtain ⟨line, m, hline, heq⟩ := exists_says h ht
  cases hline with
  | upwd hword hlen => exact Option.some.inj heq ▸ ⟨hword, Nat.lt_trans hlen (by decide)⟩
  | _ => cases heq

/-- And so does a fingerprint. -/
theorem sound_fingerprint (h : List.Forall₂ (Says res) lines ms) {t : CString}
    (ht : t ∈ ms.filterMap Said.fingerprint?) : (∀ b ∈ t, isWord b) ∧ t.length < 160 := by
  obtain ⟨line, m, hline, heq⟩ := exists_says h ht
  cases hline with
  | fingerprint hword hlen => exact Option.some.inj heq ▸ ⟨hword, hlen⟩
  | _ => cases heq

/-- Copying the same text again changes nothing. -/
theorem strncpy_strncpy (a : CArray 160) (s : CString) :
    (a.strncpy s 160 (Nat.le_refl _)).strncpy s 160 (Nat.le_refl _) =
      a.strncpy s 160 (Nat.le_refl _) := by
  have hbytes : ∀ a : CArray 160, (a.strncpy s 160 (Nat.le_refl _)).bytes =
      s.take 160 ++ List.replicate (160 - s.length) 0 := fun a => by
    show s.take 160 ++ List.replicate (160 - s.length) 0 ++ a.bytes.drop 160 = _
    rw [List.drop_of_length_le (Nat.le_of_eq a.length_eq), List.append_nil]
  have hext : ∀ {a b : CArray 160}, a.bytes = b.bytes → a = b := by
    rintro ⟨a, ha⟩ ⟨b, hb⟩ rfl
    rfl
  exact hext ((hbytes _).trans (hbytes a).symm)

/-- A description whose name is known already changes nothing that it has set before. -/
theorem setRemoteDescription_again (h : List.Forall₂ (Says res) lines ms) {ufrag fp : CString}
    (hufrag : ms.filterMap Said.ufrag? = [ufrag]) (hfp : ms.filterMap Said.fingerprint? = [fp])
    (hne : ufrag ≠ []) {r : Remote} (hknown : r.ufrag.string? = some ufrag)
    (hmark : r.fingerprint.strncpy fp 160 (Nat.le_refl _) = r.fingerprint)
    (hsource : ∀ want, (sourceOf want none ms).getD (r.source want) = r.source want)
    (buf : CArray 256) : setRemoteDescription res buf r (joined lines) = .ok r := by
  obtain ⟨b, hmedia⟩ := mediaLoop_lines h ⟨r, none, false, buf⟩ hknown
  obtain ⟨h₁, h₂, h₃, h₄, h₅⟩ := foldl_scan ufrag ⟨r, none, false, buf⟩ ms
  have hsame := fun want => (foldl_scan_source ufrag want ⟨r, none, false, buf⟩ ms).trans
    (hsource want)
  generalize ms.foldl (Said.scan ufrag) ⟨r, none, false, buf⟩ = x at *
  -- the name is the one that is known: only the first loop has run
  have hupdate : x.isUpdate = true := by
    rw [h₅, hufrag, List.any_cons, decide_eq_true ⟨hne, List.prefix_refl ufrag⟩]
    rfl
  have hfingerprint : x.remote.fingerprint = r.fingerprint := by
    rw [h₄, hfp]
    exact hmark
  -- and it has set everything to what it was
  have hremote : x.remote = r := by
    obtain ⟨⟨ufrag', upwd', candidates', assrc', vssrc', fingerprint'⟩, media, isUpdate, buf⟩ := x
    obtain ⟨ufrag, upwd, candidates, assrc, vssrc, fingerprint⟩ := r
    have haudio := hsame .audio
    have hvideo := hsame .video
    simp only [Remote.source] at h₁ h₂ h₃ hfingerprint haudio hvideo
    rw [h₁, h₂, h₃, hfingerprint, haudio, hvideo]
  rw [setRemoteDescription, hmedia, ok_bind]
  simp only [hupdate, if_true]
  exact congrArg Except.ok hremote

/-- **A description is learned**: the name, the password, the fingerprint, the source of the audio
and the candidates. Read once more, it changes nothing. -/
theorem setRemoteDescription_lines (h : List.Forall₂ (Says res) lines ms) {ufrag upwd fp : CString}
    (hufrag : ms.filterMap Said.ufrag? = [ufrag]) (hupwd : ms.filterMap Said.upwd? = [upwd])
    (hfp : ms.filterMap Said.fingerprint? = [fp]) (hne : ufrag ≠ [])
    (hnodup : ((ms.filterMap Said.candidate?).map (·.foundation)).Nodup)
    (hroom : (ms.filterMap Said.candidate?).length ≤ agentMaxCandidates) (buf buf' : CArray 256) :
    ∃ r, setRemoteDescription res buf .zero (joined lines) = .ok r ∧
      r.ufrag.string? = some ufrag ∧ r.upwd.string? = some upwd ∧
      r.fingerprint.string? = some fp ∧ r.assrc = (sourceOf .audio none ms).getD 0 ∧
      r.candidates = ms.filterMap Said.candidate? ∧
      setRemoteDescription res buf' r (joined lines) = .ok r := by
  obtain ⟨hword, hlen⟩ := sound_ufrag h (hufrag ▸ List.mem_singleton_self ufrag)
  obtain ⟨hword', hlen'⟩ := sound_upwd h (hupwd ▸ List.mem_singleton_self upwd)
  obtain ⟨hfpword, hfplen⟩ := sound_fingerprint h (hfp ▸ List.mem_singleton_self fp)
  obtain ⟨name, hname, hnamed⟩ := exists_copyRest hword hlen
  obtain ⟨password, hpassword, hknown⟩ := exists_copyRest hword' hlen'
  have hempty : (CArray.zero 257).string? = some [] :=
    string?_of_padded (s := []) rfl List.not_mem_nil (by decide)
  -- the first time
  obtain ⟨b, hmedia⟩ := mediaLoop_lines h ⟨.zero, none, false, buf⟩ hempty
  obtain ⟨h₁, h₂, h₃, h₄, h₅⟩ := foldl_scan [] ⟨.zero, none, false, buf⟩ ms
  have hsource := fun want => foldl_scan_source [] want ⟨.zero, none, false, buf⟩ ms
  generalize ms.foldl (Said.scan []) ⟨.zero, none, false, buf⟩ = x at *
  have hupdate : x.isUpdate = false := by
    rw [h₅, hufrag]
    rfl
  have hlearn : ms.foldlM Said.learn x.remote = .ok { x.remote with
      ufrag := name, upwd := password, candidates := ms.filterMap Said.candidate? } := by
    apply foldlM_learn
    · rw [hufrag, h₁, List.foldlM_cons]
      exact (congrArg (· >>= _) hname).trans rfl
    · rw [hupwd, h₂, List.foldlM_cons]
      exact (congrArg (· >>= _) hpassword).trans rfl
    · rw [h₃]
      exact foldlM_addCandidate hnodup [] (fun x hx => absurd hx List.not_mem_nil)
        (by simpa using hroom)
  refine ⟨{ x.remote with
    ufrag := name, upwd := password, candidates := ms.filterMap Said.candidate? }, ?_, hnamed,
    hknown, ?_, hsource .audio, rfl, ?_⟩
  · rw [setRemoteDescription, hmedia, ok_bind]
    simp only [hupdate, Bool.false_eq_true, if_false]
    rw [agentSetRemoteDescription_lines h, hlearn]
  · simp only [h₄, hfp, List.foldl_cons, List.foldl_nil]
    have hbytes := strncpy_zero_bytes fp (Nat.le_refl 160)
    rw [List.take_of_length_le hfplen.le] at hbytes
    exact string?_of_padded hbytes (fun h0 => absurd (hfpword 0 h0) (by decide)) hfplen
  · refine setRemoteDescription_again h hufrag hfp hne hnamed ?_ (fun want => ?_) buf'
    · simp only [h₄, hfp, List.foldl_cons, List.foldl_nil]
      exact strncpy_strncpy _ fp
    · have hwant : (sourceOf want none ms).getD (x.remote.source want) = x.remote.source want := by
        rw [hsource want]
        cases sourceOf want none ms <;> rfl
      -- the agent's part has no source
      cases want <;> exact hwant

end PipecatVoice.SessionDescription
