import Mathlib.Data.List.Forall2
import PipecatVoice.Lib.Rewriting
import PipecatVoice.Lib.TextLines

/-!
# The answer for the ESP32

`esp32_munge` rewrites a session description: it drops the fingerprints the device
cannot check and makes every candidate a relay one. It works on the text.

* `esp32Munge` — the function;
* `Candidate`, `Sdp` — descriptions whose candidate lines are well formed;
* `NormalForm` — what is to come out;
* `normalForm_iff` — when it does.
-/

namespace PipecatVoice.SdpMunge

open Rewriting TextLines

/-! ## The code -/

/-- The characters `str.splitlines` ends a line at. -/
def lineBreaks : List Char :=
  ['\n', '\r', '\x0b', '\x0c', '\x1c', '\x1d', '\x1e', '\x85', '\u2028', '\u2029']

def isLineBreak (c : Char) : Bool := c ∈ lineBreaks

/-- `str.splitlines` -/
def splitlines (s : List Char) : List (List Char) := linesBy isLineBreak s

/-- The characters `\s` stands for. -/
def whitespace : List Char :=
  lineBreaks ++ [' ', '\t', '\x1f', '\xa0', '\u1680', '\u2000', '\u2001', '\u2002', '\u2003',
    '\u2004', '\u2005', '\u2006', '\u2007', '\u2008', '\u2009', '\u200a', '\u202f', '\u205f',
    '\u3000']

/-- `\S` -/
def notSpace (c : Char) : Bool := c ∉ whitespace

/-- ` raddr \S+ rport \S+` -/
def relatedRe : Matcher :=
  lit " raddr ".toList (plus notSpace (lit " rport ".toList (plus notSpace some)))

/-- `"sha-384" in line or "sha-512" in line` -/
abbrev MentionsSha (line : List Char) : Prop :=
  "sha-384".toList <:+: line ∨ "sha-512".toList <:+: line

/-- What the loop appends for a line. -/
def mungeLine (line : List Char) : Option (List Char) :=
  if MentionsSha line then none
  else if "a=candidate".toList <+: line then
    if " typ host".toList <:+: line then
      some (substitute (lit " typ host".toList some) " typ relay".toList line)
    else if " typ relay".toList <:+: line then some (substitute relatedRe [] line)
    -- neither: dropped
    else none
  else some line

/-- `esp32_munge` -/
def esp32Munge (sdp : List Char) : List Char :=
  "\r\n".toList.intercalate ((splitlines sdp).filterMap mungeLine) ++ "\r\n".toList

/-! ## Session descriptions -/

/-- What stands between two spaces. -/
structure Token where
  /-- its characters -/
  chars : List Char
  /-- which are none that `\s` stands for -/
  visible : ∀ c ∈ chars, notSpace c

/-- The words with a meaning in a candidate line. -/
def keywords : List (List Char) := ["typ".toList, "raddr".toList, "rport".toList]

/-- A token that is not one of them. -/
structure Word extends Token where
  /-- no keyword -/
  plain : chars ∉ keywords

/-- The attribute of a candidate. -/
structure Candidate where
  /-- the foundation -/
  foundation : Token
  /-- the component, the transport, the priority, the address and the port -/
  fields : List Word
  /-- behind `typ` -/
  type : Word
  /-- behind `raddr` and `rport` -/
  related : Option (Word × Word)
  /-- which are not left out -/
  related_ne : ∀ r ∈ related, r.1.chars ≠ [] ∧ r.2.chars ≠ []
  /-- a host candidate has none -/
  host_unrelated : type.chars = "host".toList → related = none
  /-- names and values -/
  extensions : List Word

/-- The words of the related address and port. -/
def relatedWords : Option (Word × Word) → List (List Char)
  | none => []
  | some (raddr, rport) => ["raddr".toList, raddr.chars, "rport".toList, rport.chars]

namespace Candidate

/-- The words behind the foundation. -/
def words (c : Candidate) : List (List Char) :=
  c.fields.map (·.chars) ++ "typ".toList :: c.type.chars ::
    (relatedWords c.related ++ c.extensions.map (·.chars))

/-- The line. -/
def text (c : Candidate) : List Char :=
  "a=candidate:".toList ++ c.foundation.chars ++ spaced c.words

/-- The type is `relay`, there is no related address, and all else is as it was. -/
def asRelay (c : Candidate) : Candidate where
  foundation := c.foundation
  fields := c.fields
  type := ⟨⟨"relay".toList, List.all_eq_true.mp (by decide)⟩, by decide⟩
  related := none
  related_ne := nofun
  host_unrelated := fun _ => rfl
  extensions := c.extensions

/-- Host and relay candidates stay, as relay ones. -/
def norm? (c : Candidate) : Option Candidate :=
  if c.type.chars = "host".toList ∨ c.type.chars = "relay".toList then some c.asRelay else none

end Candidate

/-- A line of a description. -/
inductive SdpLine where
  | candidate (c : Candidate)
  | other (line : List Char) (h : ¬ "a=candidate".toList <+: line)

namespace SdpLine

/-- The line. -/
def text : SdpLine → List Char
  | .candidate c => c.text
  | .other line _ => line

/-- What is to become of it. -/
def norm? (l : SdpLine) : Option SdpLine :=
  if MentionsSha l.text then none
  else match l with
    | .candidate c => c.norm?.map .candidate
    | .other line h => some (.other line h)

end SdpLine

/-- The lines of a description end in CRLF or LF. -/
def sdpLines (s : List Char) : List (List Char) := linesBy (· = '\n') s

/-- A description whose candidate lines are well formed. -/
structure Sdp where
  /-- the text -/
  text : List Char
  /-- what its lines are -/
  lines : List SdpLine
  /-- these lines -/
  reads : sdpLines text = lines.map SdpLine.text

/-- The lines that are to stay. -/
def Sdp.kept (s : Sdp) : List SdpLine := s.lines.filterMap SdpLine.norm?

/-- What is to come out. -/
structure NormalForm (s : Sdp) : Prop where
  /-- the lines that stay, each with a CRLF -/
  text : esp32Munge s.text = crlfLines (s.kept.map SdpLine.text)
  /-- none of which mentions a hash the device cannot compute -/
  sha : ∀ l ∈ s.kept, ¬ MentionsSha l.text
  /-- and all candidates are relay ones without a related address -/
  relay : ∀ c, .candidate c ∈ s.kept → c.type.chars = "relay".toList ∧ c.related = none
  /-- once is enough -/
  idempotent : esp32Munge (esp32Munge s.text) = esp32Munge s.text

/-! ## What the code tests for -/

/-- A line the loop drops. -/
def Dropped (line : List Char) : Prop :=
  MentionsSha line ∨ ("a=candidate".toList <+: line ∧
    ¬ " typ host".toList <:+: line ∧ ¬ " typ relay".toList <:+: line)

theorem mungeLine_eq_none_iff (line : List Char) : mungeLine line = none ↔ Dropped line := by
  unfold mungeLine Dropped
  split_ifs with hsha hcandidate hhost hrelay
  · exact iff_of_true rfl (.inl hsha)
  · exact iff_of_false nofun (fun h => h.elim hsha fun h => h.2.1 hhost)
  · exact iff_of_false nofun (fun h => h.elim hsha fun h => h.2.2 hrelay)
  · exact iff_of_true rfl (.inr ⟨hcandidate, hhost, hrelay⟩)
  · exact iff_of_false nofun (fun h => h.elim hsha fun h => hcandidate h.1)

/-- The descriptions the code is made for. -/
structure Sdp.Regular (s : Sdp) : Prop where
  /-- some line stays -/
  left : s.kept ≠ []
  /-- no line has a break in it, unless it is to go and all it is torn to goes -/
  untorn : List.Forall₂ (fun l seg => (∀ a ∈ l.text, isLineBreak a = false) ∨
    (MentionsSha l.text ∧ ∀ piece ∈ splitlines seg, Dropped piece)) s.lines (segments s.text)
  /-- no other type begins like `host` or `relay` -/
  types : ∀ c, .candidate c ∈ s.lines → ¬ MentionsSha c.text →
    ("host".toList <+: c.type.chars ∨ "relay".toList <+: c.type.chars) →
      c.type.chars = "host".toList ∨ c.type.chars = "relay".toList

/-! ## Candidate lines -/

theorem isLineBreak_lf : isLineBreak '\n' := by decide

theorem isLineBreak_of_lf {c : Char} (h : decide (c = '\n') = true) : isLineBreak c = true := by
  rw [of_decide_eq_true h]
  exact isLineBreak_lf

theorem not_isLineBreak {c : Char} (h : notSpace c) : isLineBreak c = false := by
  have hc : c ∉ whitespace := of_decide_eq_true h
  exact decide_eq_false fun hbreak => hc (List.mem_append_left _ hbreak)

theorem Token.space_notMem (t : Token) : ' ' ∉ t.chars := by
  intro h
  have hvisible := t.visible ' ' h
  revert hvisible
  decide

theorem Word.ne_keyword (w : Word) {key : List Char} (h : key ∈ keywords) : w.chars ≠ key :=
  fun hw => w.plain (hw ▸ h)

theorem typ_mem : "typ".toList ∈ keywords := List.mem_cons_self

theorem raddr_mem : "raddr".toList ∈ keywords := List.mem_cons_of_mem _ List.mem_cons_self

theorem colon : "a=candidate:".toList = "a=candidate".toList ++ [':'] := by decide

namespace Candidate

variable (c : Candidate)

/-- The words behind the type. -/
def tail : List (List Char) := relatedWords c.related ++ c.extensions.map (·.chars)

theorem words_eq : c.words = c.fields.map (·.chars) ++ "typ".toList :: c.type.chars :: c.tail := rfl

theorem forall_fields {p : List Char → Prop} (h : ∀ w : Word, p w.chars) :
    ∀ t ∈ c.fields.map (·.chars), p t := by
  intro t ht
  obtain ⟨w, -, rfl⟩ := List.mem_map.mp ht
  exact h w

/-- What holds of all words, and of the names of the related address and port,
holds of all behind the type. -/
theorem forall_tail {p : List Char → Prop} (h : ∀ w : Word, p w.chars)
    (hraddr : p "raddr".toList) (hrport : p "rport".toList) : ∀ t ∈ c.tail, p t := by
  intro t ht
  rcases List.mem_append.mp ht with ht | ht
  · cases hrelated : c.related with
    | none =>
      rw [hrelated] at ht
      exact absurd ht List.not_mem_nil
    | some r =>
      rw [hrelated] at ht
      simp only [relatedWords, List.mem_cons, List.not_mem_nil, or_false] at ht
      rcases ht with rfl | rfl | rfl | rfl
      · exact hraddr
      · exact h r.1
      · exact hrport
      · exact h r.2
  · obtain ⟨w, -, rfl⟩ := List.mem_map.mp ht
    exact h w

theorem forall_words {p : List Char → Prop} (h : ∀ w : Word, p w.chars)
    (hkeywords : ∀ t ∈ keywords, p t) : ∀ t ∈ c.words, p t := by
  intro t ht
  rw [words_eq] at ht
  rcases List.mem_append.mp ht with ht | ht
  · exact c.forall_fields h t ht
  · rcases List.mem_cons.mp ht with rfl | ht
    · exact hkeywords _ (by decide)
    · rcases List.mem_cons.mp ht with rfl | ht
      · exact h c.type
      · exact c.forall_tail h (hkeywords _ (by decide)) (hkeywords _ (by decide)) t ht

theorem space_notMem_words : ∀ t ∈ c.words, ' ' ∉ t :=
  c.forall_words (fun w => w.space_notMem) (by decide)

theorem space_notMem_head : ' ' ∉ "a=candidate:".toList ++ c.foundation.chars := by
  rw [List.mem_append, not_or]
  exact ⟨by decide, c.foundation.space_notMem⟩

theorem text_words :
    c.text = "a=candidate:".toList ++ c.foundation.chars ++ spaced c.words := rfl

theorem candidate_prefix : "a=candidate".toList <+: c.text := by
  rw [text_words, List.append_assoc]
  exact (colon ▸ List.prefix_append _ _).trans (List.prefix_append _ _)

theorem typ_notMem_fields : "typ".toList ∉ c.fields.map (·.chars) :=
  fun h => c.forall_fields (p := (· ≠ "typ".toList)) (fun w => w.ne_keyword typ_mem) _ h rfl

theorem typ_notMem_tail : "typ".toList ∉ c.tail := by
  intro h
  have hne : ∀ t ∈ c.tail, t ≠ "typ".toList :=
    c.forall_tail (fun w => w.ne_keyword typ_mem) (by decide) (by decide)
  exact hne _ h rfl

/-- **The type is what is behind ` typ `**, and begins as that begins. -/
theorem typ_infix_iff {q : List Char} (hq : ' ' ∉ q) :
    ' ' :: ("typ".toList ++ ' ' :: q) <:+: c.text ↔ q <+: c.type.chars := by
  have hkey : ' ' ∉ "typ".toList := by decide
  refine (infix_word_iff hkey hq c.space_notMem_head c.space_notMem_words).trans ?_
  refine ⟨?_, fun h => ⟨_, _, _, c.words_eq, h⟩⟩
  rintro ⟨pre, u, post, hsplit, hu⟩
  have htail : "typ".toList ∉ c.type.chars :: c.tail := by
    rw [List.mem_cons, not_or]
    exact ⟨(c.type.ne_keyword typ_mem).symm, c.typ_notMem_tail⟩
  rw [words_eq] at hsplit
  obtain ⟨-, -, hrest⟩ :=
    (List.append_cons_inj_of_notMem c.typ_notMem_fields htail).mp hsplit
  obtain ⟨rfl, -⟩ := List.cons.inj hrest
  exact hu

theorem typ_host : " typ host".toList = ' ' :: ("typ".toList ++ ' ' :: "host".toList) := by decide

theorem typ_relay : " typ relay".toList = ' ' :: ("typ".toList ++ ' ' :: "relay".toList) := by
  decide

theorem raddr : " raddr ".toList = ' ' :: ("raddr".toList ++ ' ' :: []) := by decide

theorem rport : " rport ".toList = ' ' :: ("rport".toList ++ ' ' :: []) := by decide

/-- Words but `key` are passed over. -/
theorem substitute_text {m : Matcher} {new key : List Char} (hm : Keyed key m)
    {pre ts : List (List Char)} (hpre : ∀ t ∈ pre, ' ' ∉ t ∧ t ≠ key)
    (hwords : c.words = pre ++ ts) : substitute m new c.text =
      "a=candidate:".toList ++ c.foundation.chars ++
        (spaced pre ++ substitute m new (spaced ts)) := by
  rw [text_words, hm.substitute_append c.space_notMem_head, hwords, hm.substitute_spaced hpre]

theorem substitute_extensions {m : Matcher} {new key : List Char} (hm : Keyed key m)
    (hkey : ∀ w : Word, w.chars ≠ key) :
    substitute m new (spaced (c.extensions.map (·.chars))) =
      spaced (c.extensions.map (·.chars)) := by
  refine hm.substitute_eq_self (t := []) List.not_mem_nil ?_
  intro t ht
  obtain ⟨w, -, rfl⟩ := List.mem_map.mp ht
  exact ⟨w.space_notMem, hkey w⟩

theorem text_asRelay : c.asRelay.text =
    "a=candidate:".toList ++ c.foundation.chars ++ (spaced (c.fields.map (·.chars)) ++
      spaced ("typ".toList :: "relay".toList :: c.extensions.map (·.chars))) := by
  rw [← spaced_append]
  rfl

/-- **A host candidate becomes a relay one.** -/
theorem substitute_host (h : c.type.chars = "host".toList) :
    substitute (lit " typ host".toList some) " typ relay".toList c.text = c.asRelay.text := by
  have hkeyed : Keyed "typ".toList (lit " typ host".toList some) := by
    rw [typ_host]
    exact keyed_lit (by decide)
  have hwords : c.words = c.fields.map (·.chars) ++
      "typ".toList :: "host".toList :: c.extensions.map (·.chars) := by
    rw [words_eq, h, tail, c.host_unrelated h]
    rfl
  have hmatch (ts : List (List Char)) : lit " typ host".toList some
      (spaced ("typ".toList :: "host".toList :: ts)) = some (spaced ts) := by
    have hsplit : spaced ("typ".toList :: "host".toList :: ts) =
        " typ host".toList ++ spaced ts := by
      simp only [spaced_cons, typ_host, List.cons_append, List.append_assoc]
    rw [hsplit, lit_append]
  have hnew : spaced ("typ".toList :: "relay".toList :: c.extensions.map (·.chars)) =
      " typ relay".toList ++ spaced (c.extensions.map (·.chars)) := by
    simp only [spaced_cons, typ_relay, List.cons_append, List.append_assoc]
  have hpre : ∀ t ∈ c.fields.map (·.chars), ' ' ∉ t ∧ t ≠ "typ".toList :=
    c.forall_fields fun w => ⟨w.space_notMem, w.ne_keyword typ_mem⟩
  rw [c.substitute_text hkeyed hpre hwords, substitute_spaced_match (hmatch _) (by simp),
    c.substitute_extensions hkeyed fun w => w.ne_keyword typ_mem, text_asRelay, hnew]

/-- The pattern takes the related address and port as a whole. -/
theorem relatedRe_match {a b : Token} (ha : a.chars ≠ []) (hb : b.chars ≠ [])
    (ts : List (List Char)) :
    relatedRe (spaced ("raddr".toList :: a.chars :: "rport".toList :: b.chars :: ts)) =
      some (spaced ts) := by
  have hsplit : spaced ("raddr".toList :: a.chars :: "rport".toList :: b.chars :: ts) =
      " raddr ".toList ++ (a.chars ++ (" rport ".toList ++ (b.chars ++ spaced ts))) := by
    simp only [spaced_cons, raddr, rport, List.cons_append, List.append_assoc, List.nil_append]
  have hport : lit " rport ".toList (plus notSpace some)
      (" rport ".toList ++ (b.chars ++ spaced ts)) = some (spaced ts) := by
    rw [lit_append]
    refine plus_append hb b.visible ?_ rfl
    intro c hc
    rw [mem_head?_spaced hc]
    decide
  rw [hsplit, relatedRe, lit_append]
  refine plus_append ha a.visible ?_ hport
  intro c hc
  obtain rfl := Option.some.inj hc
  decide

/-- **A relay candidate loses its related address.** -/
theorem substitute_relay (h : c.type.chars = "relay".toList) :
    substitute relatedRe [] c.text = c.asRelay.text := by
  have hkeyed : Keyed "raddr".toList relatedRe := by
    rw [relatedRe, raddr]
    exact keyed_lit (by decide)
  have hpre : ∀ t ∈ c.fields.map (·.chars) ++ ["typ".toList, "relay".toList],
      ' ' ∉ t ∧ t ≠ "raddr".toList := by
    intro t ht
    rcases List.mem_append.mp ht with ht | ht
    · exact c.forall_fields (p := fun t => ' ' ∉ t ∧ t ≠ "raddr".toList)
        (fun w => ⟨w.space_notMem, w.ne_keyword raddr_mem⟩) t ht
    · have hall : ∀ t ∈ ["typ".toList, "relay".toList], ' ' ∉ t ∧ t ≠ "raddr".toList := by decide
      exact hall t ht
  have hwords : c.words = (c.fields.map (·.chars) ++ ["typ".toList, "relay".toList]) ++
      c.tail := by
    rw [words_eq, h, List.append_assoc]
    rfl
  have hafter : substitute relatedRe [] (spaced (c.extensions.map (·.chars))) =
      spaced (c.extensions.map (·.chars)) :=
    c.substitute_extensions hkeyed fun w => w.ne_keyword raddr_mem
  have htail : substitute relatedRe [] (spaced c.tail) = spaced (c.extensions.map (·.chars)) := by
    rw [tail]
    cases hrelated : c.related with
    | none => exact hafter
    | some r =>
      obtain ⟨ha, hb⟩ := c.related_ne r hrelated
      have hsuffix := List.suffix_append [r.1.chars, "rport".toList, r.2.chars]
        (c.extensions.map (·.chars))
      exact (substitute_spaced_match (relatedRe_match ha hb _) hsuffix).trans hafter
  have hspaced : spaced (c.fields.map (·.chars) ++ ["typ".toList, "relay".toList]) ++
      spaced (c.extensions.map (·.chars)) = spaced (c.fields.map (·.chars)) ++
        spaced ("typ".toList :: "relay".toList :: c.extensions.map (·.chars)) := by
    rw [← spaced_append, List.append_assoc, spaced_append]
    rfl
  rw [c.substitute_text hkeyed hpre hwords, htail, text_asRelay, hspaced]

theorem typ_host_infix_iff : " typ host".toList <:+: c.text ↔ "host".toList <+: c.type.chars := by
  rw [typ_host]
  exact c.typ_infix_iff (by decide)

theorem typ_relay_infix_iff :
    " typ relay".toList <:+: c.text ↔ "relay".toList <+: c.type.chars := by
  rw [typ_relay]
  exact c.typ_infix_iff (by decide)

/-- **A candidate that stays** is rewritten. -/
theorem mungeLine_text (hsha : ¬ MentionsSha c.text)
    (htype : c.type.chars = "host".toList ∨ c.type.chars = "relay".toList) :
    mungeLine c.text = some c.asRelay.text := by
  unfold mungeLine
  rw [if_neg hsha, if_pos c.candidate_prefix]
  rcases htype with h | h
  · rw [if_pos (c.typ_host_infix_iff.mpr ⟨[], (List.append_nil _).trans h.symm⟩),
      c.substitute_host h]
  · have hhost : ¬ " typ host".toList <:+: c.text := by
      rw [typ_host_infix_iff, h]
      decide
    rw [if_neg hhost, if_pos (c.typ_relay_infix_iff.mpr ⟨[], (List.append_nil _).trans h.symm⟩),
      c.substitute_relay h]

/-- Which candidates are dropped. -/
theorem dropped_text_iff : Dropped c.text ↔ MentionsSha c.text ∨
    ¬ ("host".toList <+: c.type.chars ∨ "relay".toList <+: c.type.chars) := by
  rw [Dropped, typ_host_infix_iff, typ_relay_infix_iff, and_iff_right c.candidate_prefix, not_or]

/-- A hash is not mentioned across words. -/
theorem infix_text {q : List Char} (hq : ' ' ∉ q) (hne : q ≠ [])
    (hkeyword : ¬ q <:+: "typ".toList)
    (hrelay : ¬ q <:+: "relay".toList) (h : q <:+: c.asRelay.text) : q <:+: c.text := by
  rw [text_asRelay, ← spaced_append, infix_spaced_iff hq hne] at h
  rw [text_words, infix_spaced_iff hq hne]
  rcases h with h | ⟨u, hu, h⟩
  · exact .inl h
  · refine .inr ⟨u, ?_, h⟩
    rw [words_eq]
    rcases List.mem_append.mp hu with hu | hu
    · exact List.mem_append_left _ hu
    · rcases List.mem_cons.mp hu with rfl | hu
      · exact absurd h hkeyword
      · rcases List.mem_cons.mp hu with rfl | hu
        · exact absurd h hrelay
        · refine List.mem_append_right _ (List.mem_cons_of_mem _ (List.mem_cons_of_mem _ ?_))
          exact List.mem_append_right _ hu

theorem not_mentionsSha_asRelay (h : ¬ MentionsSha c.text) : ¬ MentionsSha c.asRelay.text := by
  rintro (hsha | hsha)
  · exact h (.inl (c.infix_text (by decide) (by decide) (by decide) (by decide) hsha))
  · exact h (.inr (c.infix_text (by decide) (by decide) (by decide) (by decide) hsha))

/-- A candidate line has no line break in it. -/
theorem not_isLineBreak_text : ∀ a ∈ c.text, isLineBreak a = false := by
  have hhead : ∀ a ∈ "a=candidate:".toList, notSpace a := List.all_eq_true.mp (by decide)
  have hkeywords : ∀ t ∈ keywords, t.all notSpace := by decide
  have hwords : ∀ w ∈ c.words, ∀ a ∈ w, notSpace a :=
    c.forall_words (fun w => w.visible) fun t ht => List.all_eq_true.mp (hkeywords t ht)
  intro a ha
  rcases List.mem_append.mp ha with ha | ha
  · rcases List.mem_append.mp ha with ha | ha
    · exact not_isLineBreak (hhead a ha)
    · exact not_isLineBreak (c.foundation.visible a ha)
  · obtain ⟨w, hw, ha⟩ := List.mem_flatMap.mp ha
    rcases List.mem_cons.mp ha with rfl | ha
    · decide
    · exact not_isLineBreak (hwords w hw a ha)

end Candidate

/-! ## Lines -/

namespace SdpLine

variable {l l' : SdpLine}

/-- What stays, and in which form. -/
theorem norm?_eq_some (h : l.norm? = some l') :
    ¬ MentionsSha l.text ∧
      ((∃ c, l = .candidate c ∧ l' = .candidate c.asRelay ∧
        (c.type.chars = "host".toList ∨ c.type.chars = "relay".toList)) ∨
      ∃ line hline, l = .other line hline ∧ l' = l) := by
  unfold norm? at h
  split_ifs at h with hsha
  refine ⟨hsha, ?_⟩
  cases l with
  | candidate c =>
    obtain ⟨c', hc', rfl⟩ := Option.map_eq_some_iff.mp h
    unfold Candidate.norm? at hc'
    split_ifs at hc' with htype
    obtain rfl := Option.some.inj hc'
    exact .inl ⟨c, rfl, rfl, htype⟩
  | other line hline => exact .inr ⟨line, hline, rfl, (Option.some.inj h).symm⟩

/-- What does not. -/
theorem norm?_eq_none (h : l.norm? = none) :
    MentionsSha l.text ∨ ∃ c, l = .candidate c ∧
      ¬ (c.type.chars = "host".toList ∨ c.type.chars = "relay".toList) := by
  unfold norm? at h
  split_ifs at h with hsha
  · exact .inl hsha
  · cases l with
    | candidate c =>
      have hc := Option.map_eq_none_iff.mp h
      unfold Candidate.norm? at hc
      split_ifs at hc with htype
      exact .inr ⟨c, rfl, htype⟩
    | other line hline => cases h

theorem not_mentionsSha_norm? (h : l.norm? = some l') : ¬ MentionsSha l'.text := by
  obtain ⟨hsha, ⟨c, rfl, rfl, -⟩ | ⟨-, -, -, rfl⟩⟩ := norm?_eq_some h
  · exact c.not_mentionsSha_asRelay hsha
  · exact hsha

/-- **The code makes of a line that stays** what is to become of it. -/
theorem mungeLine_text (h : l.norm? = some l') : mungeLine l.text = some l'.text := by
  obtain ⟨hsha, ⟨c, rfl, rfl, htype⟩ | ⟨line, hline, rfl, rfl⟩⟩ := norm?_eq_some h
  · exact c.mungeLine_text hsha htype
  · unfold mungeLine
    rw [if_neg hsha]
    exact if_neg hline

/-- A line that has been rewritten is not rewritten again. -/
theorem norm?_norm? (h : l.norm? = some l') : l'.norm? = some l' := by
  have hsha := not_mentionsSha_norm? h
  obtain ⟨-, ⟨c, -, rfl, -⟩ | ⟨line, hline, rfl, rfl⟩⟩ := norm?_eq_some h
  · unfold norm?
    rw [if_neg hsha]
    exact congrArg (Option.map SdpLine.candidate) (if_pos (.inr rfl))
  · exact h

/-- It has no line break in it unless the line had. -/
theorem isLineBreak_norm? (h : l.norm? = some l') (hl' : ∀ a ∈ l'.text, isLineBreak a = false) :
    ∀ a ∈ l.text, isLineBreak a = false := by
  obtain ⟨-, ⟨c, rfl, -, -⟩ | ⟨-, -, -, rfl⟩⟩ := norm?_eq_some h
  · exact c.not_isLineBreak_text
  · exact hl'

end SdpLine

/-- The loop adds no line break to a line. -/
theorem not_isLineBreak_mungeLine {line line' : List Char} (h : mungeLine line = some line')
    (hline : ∀ a ∈ line, isLineBreak a = false) : ∀ a ∈ line', isLineBreak a = false := by
  have hnew : ∀ a ∈ " typ relay".toList, ! isLineBreak a := List.all_eq_true.mp (by decide)
  unfold mungeLine at h
  intro a ha
  split_ifs at h
  · obtain rfl := Option.some.inj h
    exact (mem_substituteFrom 0 ha).elim (fun ha => by simpa using hnew a ha) (hline a)
  · obtain rfl := Option.some.inj h
    exact (mem_substituteFrom 0 ha).elim (fun hnil => absurd hnil List.not_mem_nil) (hline a)
  · obtain rfl := Option.some.inj h
    exact hline a ha

/-! ## Texts -/

/-- The lines that come out. -/
def munged (s : List Char) : List (List Char) := (splitlines s).filterMap mungeLine

theorem munged_eq_flatMap (s : List Char) : munged s = (segments s).flatMap munged := by
  rw [munged, splitlines, linesBy_eq_flatMap_segments isLineBreak_lf, List.filterMap_flatMap]
  rfl

theorem not_isLineBreak_munged {s line : List Char} (h : line ∈ munged s) :
    ∀ a ∈ line, isLineBreak a = false := by
  obtain ⟨line', hline', hmunge⟩ := List.mem_filterMap.mp h
  exact not_isLineBreak_mungeLine hmunge (mem_linesBy hline')

/-- If no line is left, an empty one comes out. -/
theorem esp32Munge_eq (s : List Char) :
    esp32Munge s = crlfLines (if munged s = [] then [[]] else munged s) := by
  have hmunge : esp32Munge s =
      "\r\n".toList.intercalate (munged s) ++ "\r\n".toList := rfl
  rw [hmunge]
  split_ifs with hnil
  · rw [hnil, List.intercalate_nil]
    rfl
  · exact intercalate_crlf hnil

/-- **What has been rewritten is read back** line by line. -/
theorem munged_crlfLines {ls : List (List Char)}
    (hbreak : ∀ line ∈ ls, ∀ a ∈ line, isLineBreak a = false)
    (hfix : ∀ line ∈ ls, mungeLine line = some line) : munged (crlfLines ls) = ls := by
  rw [munged, splitlines, linesBy_crlfLines isLineBreak_lf hbreak, List.filterMap_congr hfix,
    List.filterMap_some]

namespace SdpLine

variable {l : SdpLine} {seg : List Char}

/-- The line that comes of a line, if any. -/
def stays (l : SdpLine) : List (List Char) := (l.norm?.map text).toList

theorem stays_of_some {l' : SdpLine} (h : l.norm? = some l') : l.stays = [l'.text] := by
  rw [stays, h]
  rfl

theorem stays_of_none (h : l.norm? = none) : l.stays = [] := by
  rw [stays, h]
  rfl

/-- The type of a candidate is none of those that only begin like `host` or `relay`. -/
def Typed (l : SdpLine) : Prop :=
  ∀ c, l = .candidate c → ¬ MentionsSha c.text →
    ("host".toList <+: c.type.chars ∨ "relay".toList <+: c.type.chars) →
      c.type.chars = "host".toList ∨ c.type.chars = "relay".toList

theorem typed_of_some {l' : SdpLine} (h : l.norm? = some l') : l.Typed := by
  rintro c rfl - -
  obtain ⟨-, ⟨c', hc, -, htype⟩ | ⟨line, hline, hc, -⟩⟩ := norm?_eq_some h
  · obtain rfl := SdpLine.candidate.inj hc
    exact htype
  · cases hc

/-- A line without a break in it is one line to the code. -/
theorem splitlines_eq (hread : sdpLines seg = [l.text])
    (hl : ∀ a ∈ l.text, isLineBreak a = false) : splitlines seg = [l.text] := by
  refine (linesBy_congr (fun _ => isLineBreak_of_lf) ?_).trans hread
  intro line hline
  rw [show linesBy (fun c => decide (c = '\n')) seg = [l.text] from hread] at hline
  obtain rfl := List.mem_singleton.mp hline
  exact hl

theorem munged_of_some {l' : SdpLine} (h : l.norm? = some l')
    (hone : splitlines seg = [l.text]) : munged seg = [l'.text] := by
  rw [munged, hone, List.filterMap_cons_some (mungeLine_text h), List.filterMap_nil]

theorem munged_eq_nil_iff : munged seg = [] ↔ ∀ piece ∈ splitlines seg, Dropped piece := by
  rw [munged, List.filterMap_eq_nil_iff]
  exact forall₂_congr fun piece _ => mungeLine_eq_none_iff piece

theorem length_stays_le (hread : sdpLines seg = [l.text])
    (hbreak : ∀ line ∈ l.stays, ∀ a ∈ line, isLineBreak a = false) :
    l.stays.length ≤ (munged seg).length := by
  cases hnorm : l.norm? with
  | none =>
    rw [stays_of_none hnorm]
    exact Nat.zero_le _
  | some l' =>
    rw [stays_of_some hnorm] at hbreak ⊢
    have hl' := hbreak _ List.mem_cons_self
    rw [munged_of_some hnorm (splitlines_eq hread (isLineBreak_norm? hnorm hl'))]

/-- **When the code is right about a line.** -/
theorem stays_eq_munged_iff (hread : sdpLines seg = [l.text]) :
    l.stays = munged seg ↔ l.Typed ∧ ((∀ a ∈ l.text, isLineBreak a = false) ∨
      (MentionsSha l.text ∧ ∀ piece ∈ splitlines seg, Dropped piece)) := by
  cases hnorm : l.norm? with
  | some l' =>
    have hsha := (norm?_eq_some hnorm).1
    rw [stays_of_some hnorm, and_iff_right (typed_of_some hnorm), or_iff_left (fun h => hsha h.1)]
    refine ⟨?_, fun hl => (munged_of_some hnorm (splitlines_eq hread hl)).symm⟩
    intro h
    have hl' : l'.text ∈ munged seg := h ▸ List.mem_singleton_self _
    exact isLineBreak_norm? hnorm (not_isLineBreak_munged hl')
  | none =>
    rw [stays_of_none hnorm, eq_comm, munged_eq_nil_iff]
    refine ⟨?_, ?_⟩
    · intro hdropped
      refine ⟨?_, ?_⟩
      · rintro c rfl hsha hprefix
        rw [splitlines_eq hread c.not_isLineBreak_text, List.forall_mem_singleton] at hdropped
        obtain hsha' | hprefix' := c.dropped_text_iff.mp hdropped
        · exact absurd hsha' hsha
        · exact absurd hprefix hprefix'
      · obtain hsha | ⟨c, rfl, -⟩ := norm?_eq_none hnorm
        · exact .inr ⟨hsha, hdropped⟩
        · exact .inl c.not_isLineBreak_text
    · rintro ⟨htyped, hl | ⟨-, hdropped⟩⟩
      · rw [splitlines_eq hread hl, List.forall_mem_singleton]
        obtain hsha | ⟨c, rfl, htype⟩ := norm?_eq_none hnorm
        · exact .inl hsha
        · rw [show (SdpLine.candidate c).text = c.text from rfl, c.dropped_text_iff]
          by_cases hsha : MentionsSha c.text
          · exact .inl hsha
          · exact .inr fun hprefix => htype (htyped c rfl hsha hprefix)
      · exact hdropped

end SdpLine

namespace Sdp

variable {s : Sdp}

theorem kept_eq_flatMap (s : Sdp) : s.kept.map SdpLine.text = s.lines.flatMap SdpLine.stays := by
  rw [kept, List.map_filterMap, List.filterMap_eq_flatMap_toList]
  rfl

/-- Each line and the segment it is read from. -/
theorem forall₂_lines (s : Sdp) :
    List.Forall₂ (fun l seg => sdpLines seg = [l.text]) s.lines (segments s.text) := by
  have h := forall₂_segments s.text
  rw [show linesBy (fun c => decide (c = '\n')) s.text = _ from s.reads,
    List.forall₂_map_left_iff] at h
  exact h

/-- A line that stays has no LF in it. -/
theorem lf_notMem_kept (s : Sdp) : ∀ line ∈ s.kept.map SdpLine.text, '\n' ∉ line := by
  intro line hline hlf
  obtain ⟨l', hl', rfl⟩ := List.mem_map.mp hline
  obtain ⟨l, hl, hnorm⟩ := List.mem_filterMap.mp hl'
  obtain ⟨-, ⟨c, -, rfl, -⟩ | ⟨-, -, -, rfl⟩⟩ := SdpLine.norm?_eq_some hnorm
  · have hbreak := c.asRelay.not_isLineBreak_text '\n' hlf
    rw [isLineBreak_lf] at hbreak
    cases hbreak
  · exact of_decide_eq_false (mem_linesBy (s.reads ▸ List.mem_map_of_mem hl) '\n' hlf) rfl

/-- No line that stays is missed, if there is no break in what stays. -/
theorem length_stays_le (hbreak : ∀ line ∈ s.kept.map SdpLine.text, ∀ a ∈ line,
    isLineBreak a = false) : List.Forall₂
      (fun l seg => l.stays.length ≤ (munged seg).length) s.lines (segments s.text) := by
  have hlines : ∀ l ∈ s.lines, ∀ line ∈ l.stays, ∀ a ∈ line, isLineBreak a = false := by
    intro l hl line hline
    refine hbreak line ?_
    rw [kept_eq_flatMap]
    exact List.mem_flatMap.mpr ⟨l, hl, hline⟩
  exact ((List.forall₂_and_left _ _).mpr ⟨hlines, s.forall₂_lines⟩).imp
    fun _ _ h => SdpLine.length_stays_le h.2 h.1

/-- **The right lines come out** if the code is right about each line. -/
theorem forall₂_iff : List.Forall₂ (fun l seg => l.stays = munged seg) s.lines (segments s.text) ↔
    (∀ l ∈ s.lines, l.Typed) ∧ List.Forall₂ (fun l seg => (∀ a ∈ l.text, isLineBreak a = false) ∨
      (MentionsSha l.text ∧ ∀ piece ∈ splitlines seg, Dropped piece)) s.lines
        (segments s.text) := by
  rw [← List.forall₂_and_left]
  refine ⟨?_, ?_⟩
  · exact List.Forall₂.mp (fun _ _ hread => (SdpLine.stays_eq_munged_iff hread).mp) s.forall₂_lines
  · exact List.Forall₂.mp (fun _ _ hread => (SdpLine.stays_eq_munged_iff hread).mpr) s.forall₂_lines

theorem munged_eq_kept
    (h : List.Forall₂ (fun l seg => l.stays = munged seg) s.lines (segments s.text)) :
    munged s.text = s.kept.map SdpLine.text := by
  have hle := h.imp fun _ _ h => Nat.le_of_eq (congrArg List.length h)
  rw [munged_eq_flatMap, kept_eq_flatMap, (flatMap_eq_flatMap_iff hle).mpr h]

/-- **The right text comes out** if the right lines do, and there are any. -/
theorem esp32Munge_eq_iff (s : Sdp) :
    esp32Munge s.text = crlfLines (s.kept.map SdpLine.text) ↔
      s.kept ≠ [] ∧ List.Forall₂ (fun l seg => l.stays = munged seg) s.lines (segments s.text) := by
  refine ⟨?_, ?_⟩
  · intro h
    rw [esp32Munge_eq] at h
    split_ifs at h with hnil
    · -- one empty line comes out, but no line is missed
      have hkept : [[]] = s.kept.map SdpLine.text := crlfLines_inj (by simp) s.lf_notMem_kept h
      have hbreak : ∀ line ∈ s.kept.map SdpLine.text, ∀ a ∈ line, isLineBreak a = false := by
        rw [← hkept]
        simp
      have hle := length_flatMap_le (length_stays_le hbreak)
      rw [← kept_eq_flatMap, ← munged_eq_flatMap, hnil, ← hkept] at hle
      exact absurd hle (by decide)
    · have hlf : ∀ line ∈ munged s.text, '\n' ∉ line := by
        intro line hline hlf
        exact Bool.false_ne_true ((not_isLineBreak_munged hline _ hlf).symm.trans isLineBreak_lf)
      have hkept : munged s.text = s.kept.map SdpLine.text :=
        crlfLines_inj hlf s.lf_notMem_kept h
      have hbreak : ∀ line ∈ s.kept.map SdpLine.text, ∀ a ∈ line, isLineBreak a = false := by
        rw [← hkept]
        exact fun _ => not_isLineBreak_munged
      refine ⟨?_, (flatMap_eq_flatMap_iff (length_stays_le hbreak)).mp ?_⟩
      · intro hleft
        rw [hleft] at hkept
        exact hnil hkept
      · rw [← kept_eq_flatMap, ← hkept, ← munged_eq_flatMap]
  · rintro ⟨hleft, hlines⟩
    rw [esp32Munge_eq, munged_eq_kept hlines, if_neg (mt List.map_eq_nil_iff.mp hleft)]

end Sdp

/-- **When the normal form comes out.** -/
theorem normalForm_iff (s : Sdp) : NormalForm s ↔ s.Regular := by
  refine ⟨?_, ?_⟩
  · intro h
    obtain ⟨hleft, hlines⟩ := s.esp32Munge_eq_iff.mp h.text
    obtain ⟨htyped, huntorn⟩ := Sdp.forall₂_iff.mp hlines
    exact ⟨hleft, huntorn, fun c hc => htyped _ hc c rfl⟩
  · intro h
    have htyped : ∀ l ∈ s.lines, l.Typed := by
      rintro l hl c rfl
      exact h.types c hl
    have hlines := Sdp.forall₂_iff.mpr ⟨htyped, h.untorn⟩
    have htext := s.esp32Munge_eq_iff.mpr ⟨h.left, hlines⟩
    refine ⟨htext, ?_, ?_, ?_⟩
    · intro l' hl'
      obtain ⟨l, -, hnorm⟩ := List.mem_filterMap.mp hl'
      exact SdpLine.not_mentionsSha_norm? hnorm
    · intro c hc
      obtain ⟨l, -, hnorm⟩ := List.mem_filterMap.mp hc
      obtain ⟨-, ⟨c', -, hc', -⟩ | ⟨line, hline, rfl, hc'⟩⟩ := SdpLine.norm?_eq_some hnorm
      · obtain rfl := SdpLine.candidate.inj hc'
        exact ⟨rfl, rfl⟩
      · cases hc'
    · have hbreak : ∀ line ∈ s.kept.map SdpLine.text, ∀ a ∈ line, isLineBreak a = false := by
        rw [← Sdp.munged_eq_kept hlines]
        exact fun _ => not_isLineBreak_munged
      have hfix : ∀ line ∈ s.kept.map SdpLine.text, mungeLine line = some line := by
        intro line hline
        obtain ⟨l', hl', rfl⟩ := List.mem_map.mp hline
        obtain ⟨l, -, hnorm⟩ := List.mem_filterMap.mp hl'
        exact SdpLine.mungeLine_text (SdpLine.norm?_norm? hnorm)
      rw [htext, esp32Munge_eq, munged_crlfLines hbreak hfix,
        if_neg (mt List.map_eq_nil_iff.mp h.left)]

/-- A token that is written out. -/
def word (chars : String) (visible : chars.toList.all notSpace)
    (plain : chars.toList ∉ keywords) : Word :=
  ⟨⟨chars.toList, List.all_eq_true.mp visible⟩, plain⟩

/-- A candidate of a type that only begins like `host`. -/
def hostx : Candidate where
  foundation := (word "1" (by decide) (by decide)).toToken
  fields := [word "1" (by decide) (by decide), word "udp" (by decide) (by decide),
    word "1" (by decide) (by decide), word "10.0.0.1" (by decide) (by decide),
    word "9" (by decide) (by decide)]
  type := word "hostx" (by decide) (by decide)
  related := none
  related_ne := nofun
  host_unrelated := fun _ => rfl
  extensions := []

def hostxSdp : Sdp where
  text := "v=0\r\na=candidate:1 1 udp 1 10.0.0.1 9 typ hostx\r\n".toList
  lines := [.other "v=0".toList (by decide), .candidate hostx]
  reads := by decide

/-- A session name with a line separator in it. -/
def separatorSdp : Sdp where
  text := "v=0\r\ns=a\u2028b\r\n".toList
  lines := [.other "v=0".toList (by decide), .other "s=a\u2028b".toList (by decide)]
  reads := by decide

/-- The one becomes a candidate of type `relayx`, the other two lines. -/
theorem not_normalForm : ¬ NormalForm hostxSdp ∧ ¬ NormalForm separatorSdp := by
  have hhostx : esp32Munge hostxSdp.text ≠ crlfLines (hostxSdp.kept.map SdpLine.text) := by decide
  have hseparator : esp32Munge separatorSdp.text ≠
      crlfLines (separatorSdp.kept.map SdpLine.text) := by decide
  exact ⟨fun h => hhostx h.text, fun h => hseparator h.text⟩

end PipecatVoice.SdpMunge
