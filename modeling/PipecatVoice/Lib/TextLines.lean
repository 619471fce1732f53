import Mathlib.Data.List.Infix
import Mathlib.Data.List.Basic
import Mathlib.Data.List.Forall2

/-!
# The lines of a text

What the lines of a text are depends on the characters that are taken for line
breaks. A CR and an LF are one break wherever an LF is one.

* `linesBy` — the lines, without their breaks;
* `segments` — the text cut behind each LF;
* `crlfLines` — a text of given lines.

`linesBy_eq_flatMap_segments` reads a text segment by segment, and
`linesBy_crlfLines` reads back what was written.
-/

namespace TextLines

variable {isBreak : Char → Bool} {c : Char} {s l : List Char}

/-- One more character at the front of the first line. -/
def consHead (c : Char) : List (List Char) → List (List Char)
  | [] => [[c]]
  | l :: ls => (c :: l) :: ls

/-- The lines of a text. The last one may lack its break. -/
def linesBy (isBreak : Char → Bool) : List Char → List (List Char)
  | [] => []
  | c :: s =>
    -- a CR in front of an LF is a part of the break
    if c = '\r' ∧ s.head? = some '\n' then linesBy isBreak s
    else if isBreak c then [] :: linesBy isBreak s
    else consHead c (linesBy isBreak s)

/-- The text cut behind each LF. -/
def segments : List Char → List (List Char)
  | [] => []
  | c :: s => if c = '\n' then [c] :: segments s else consHead c (segments s)

/-- A text of lines that end in CR and LF. -/
def crlfLines (ls : List (List Char)) : List Char := ls.flatMap (· ++ "\r\n".toList)

theorem consHead_append {ls ls' : List (List Char)} (h : ls ≠ []) :
    consHead c (ls ++ ls') = consHead c ls ++ ls' := by
  cases ls with
  | nil => exact absurd rfl h
  | cons l ls => rfl

theorem forall_mem_consHead {p : Char → Prop} {ls : List (List Char)}
    (h : ∀ l ∈ consHead c ls, ∀ a ∈ l, p a) : p c ∧ ∀ l ∈ ls, ∀ a ∈ l, p a := by
  cases ls with
  | nil => simpa [consHead] using h
  | cons l ls =>
    obtain ⟨hfirst, hrest⟩ := List.forall_mem_cons.mp h
    obtain ⟨hc, hl⟩ := List.forall_mem_cons.mp hfirst
    exact ⟨hc, List.forall_mem_cons.mpr ⟨hl, hrest⟩⟩

theorem linesBy_lf (h : isBreak '\n') (s : List Char) :
    linesBy isBreak ('\n' :: s) = [] :: linesBy isBreak s := by
  rw [linesBy, if_neg (fun hcr => absurd hcr.1 (by decide)), if_pos h]

/-! ## Segments -/

/-- **Texts are built** of segments. -/
theorem segment_induct {P : List Char → Prop} (nil : P [])
    (last : ∀ x, x ≠ [] → '\n' ∉ x → P x) (lf : ∀ x s, '\n' ∉ x → P s → P (x ++ '\n' :: s))
    (s : List Char) : P s := by
  induction hlen : s.length using Nat.strongRecOn generalizing s with
  | ind n ih =>
    by_cases hlf : '\n' ∈ s
    · obtain ⟨x, y, rfl, hx⟩ := List.eq_append_cons_of_mem hlf
      refine lf x y hx (ih y.length ?_ y rfl)
      rw [← hlen, List.length_append, List.length_cons]
      omega
    · by_cases hs : s = []
      · rw [hs]
        exact nil
      · exact last s hs hlf

theorem segments_last (hs : s ≠ []) (hlf : '\n' ∉ s) : segments s = [s] := by
  induction s with
  | nil => exact absurd rfl hs
  | cons c s ih =>
    obtain ⟨hc, hrest⟩ := not_or.mp (mt List.mem_cons.mpr hlf)
    rw [segments, if_neg (Ne.symm hc)]
    by_cases hnil : s = []
    · rw [hnil]
      rfl
    · rw [ih hnil hrest]
      rfl

theorem segments_lf {x : List Char} (hx : '\n' ∉ x) (s : List Char) :
    segments (x ++ '\n' :: s) = (x ++ ['\n']) :: segments s := by
  induction x with
  | nil => rfl
  | cons c x ih =>
    obtain ⟨hc, hrest⟩ := not_or.mp (mt List.mem_cons.mpr hx)
    rw [List.cons_append, segments, if_neg (Ne.symm hc), ih hrest]
    rfl

theorem linesBy_lf_ne_nil (h : isBreak '\n') (x : List Char) :
    linesBy isBreak (x ++ ['\n']) ≠ [] := by
  induction x with
  | nil =>
    rw [List.nil_append, linesBy_lf h]
    exact List.cons_ne_nil _ _
  | cons c x ih =>
    rw [List.cons_append, linesBy]
    split_ifs
    · exact ih
    · exact List.cons_ne_nil _ _
    · cases hlines : linesBy isBreak (x ++ ['\n']) with
      | nil => exact absurd hlines ih
      | cons l ls => exact List.cons_ne_nil _ _

/-- An LF parts what is before it from what is after it. -/
theorem linesBy_append_lf (h : isBreak '\n') (x s : List Char) :
    linesBy isBreak (x ++ '\n' :: s) = linesBy isBreak (x ++ ['\n']) ++ linesBy isBreak s := by
  induction x with
  | nil =>
    rw [List.nil_append, List.nil_append, linesBy_lf h, linesBy_lf h]
    rfl
  | cons c x ih =>
    have hhead : (x ++ '\n' :: s).head? = (x ++ ['\n']).head? := by cases x <;> rfl
    rw [List.cons_append, linesBy, hhead, List.cons_append, linesBy, ih]
    split_ifs
    · rfl
    · rfl
    · exact consHead_append (linesBy_lf_ne_nil h x)

/-- **The lines of a text** are those of its segments. -/
theorem linesBy_eq_flatMap_segments (h : isBreak '\n') (s : List Char) :
    linesBy isBreak s = (segments s).flatMap (linesBy isBreak) := by
  induction s using segment_induct with
  | nil => rfl
  | last x hx hlf => rw [segments_last hx hlf, List.flatMap_singleton]
  | lf x s hx ih => rw [segments_lf hx, List.flatMap_cons, linesBy_append_lf h, ih]

/-! ### If nothing but LF is a break -/

theorem linesBy_cons_of_one {x : List Char} (hc : c ≠ '\n') (hx : linesBy (· = '\n') x = [l]) :
    ∃ l, linesBy (· = '\n') (c :: x) = [l] := by
  rw [linesBy, hx, if_neg (mt of_decide_eq_true hc)]
  split_ifs
  · exact ⟨l, rfl⟩
  · exact ⟨c :: l, rfl⟩

theorem linesBy_one_lf {x : List Char} (hx : '\n' ∉ x) :
    ∃ l, linesBy (· = '\n') (x ++ ['\n']) = [l] := by
  induction x with
  | nil => exact ⟨[], rfl⟩
  | cons c x ih =>
    obtain ⟨hc, hrest⟩ := not_or.mp (mt List.mem_cons.mpr hx)
    obtain ⟨l, hl⟩ := ih hrest
    exact linesBy_cons_of_one (Ne.symm hc) hl

theorem linesBy_one_last {x : List Char} (hne : x ≠ []) (hx : '\n' ∉ x) :
    ∃ l, linesBy (· = '\n') x = [l] := by
  induction x with
  | nil => exact absurd rfl hne
  | cons c x ih =>
    obtain ⟨hc, hrest⟩ := not_or.mp (mt List.mem_cons.mpr hx)
    by_cases hnil : x = []
    · rw [hnil, linesBy, if_neg (fun hcr => absurd hcr.2 nofun),
        if_neg (mt of_decide_eq_true (Ne.symm hc))]
      exact ⟨[c], rfl⟩
    · obtain ⟨l, hl⟩ := ih hnil hrest
      exact linesBy_cons_of_one (Ne.symm hc) hl

/-- A segment is one line. -/
theorem linesBy_segment {seg : List Char} (h : seg ∈ segments s) :
    ∃ l, linesBy (· = '\n') seg = [l] := by
  induction s using segment_induct with
  | nil => exact absurd h List.not_mem_nil
  | last x hx hlf =>
    rw [segments_last hx hlf] at h
    obtain rfl := List.mem_singleton.mp h
    exact linesBy_one_last hx hlf
  | lf x s hx ih =>
    rw [segments_lf hx] at h
    rcases List.mem_cons.mp h with rfl | h
    · exact linesBy_one_lf hx
    · exact ih h

/-- **Each line has its segment.** -/
theorem forall₂_segments (s : List Char) :
    List.Forall₂ (fun l seg => linesBy (· = '\n') seg = [l]) (linesBy (· = '\n') s)
      (segments s) := by
  rw [linesBy_eq_flatMap_segments (decide_eq_true rfl)]
  have hone : ∀ seg ∈ segments s, ∃ l, linesBy (· = '\n') seg = [l] :=
    fun _ hseg => linesBy_segment hseg
  generalize segments s = segs at hone ⊢
  induction segs with
  | nil => exact List.Forall₂.nil
  | cons seg segs ih =>
    obtain ⟨⟨l, hl⟩, hrest⟩ := List.forall_mem_cons.mp hone
    rw [List.flatMap_cons, hl]
    exact List.Forall₂.cons hl (ih hrest)

theorem length_flatMap_le {α β γ : Type} {f : α → List γ} {g : β → List γ} {as : List α}
    {bs : List β} (h : List.Forall₂ (fun a b => (f a).length ≤ (g b).length) as bs) :
    (as.flatMap f).length ≤ (bs.flatMap g).length := by
  induction h with
  | nil => exact Nat.le_refl _
  | cons hab _ ih =>
    rw [List.flatMap_cons, List.flatMap_cons, List.length_append, List.length_append]
    exact Nat.add_le_add hab ih

/-- **Lists made piece by piece** are equal if the pieces are; and only then, if no
piece of the first is longer. -/
theorem flatMap_eq_flatMap_iff {α β γ : Type} {f : α → List γ} {g : β → List γ} {as : List α}
    {bs : List β} (h : List.Forall₂ (fun a b => (f a).length ≤ (g b).length) as bs) :
    as.flatMap f = bs.flatMap g ↔ List.Forall₂ (fun a b => f a = g b) as bs := by
  induction h with
  | nil => exact iff_of_true rfl List.Forall₂.nil
  | cons hab h ih =>
    rw [List.flatMap_cons, List.flatMap_cons, List.forall₂_cons, ← ih]
    refine ⟨?_, fun heq => by rw [heq.1, heq.2]⟩
    intro heq
    have hrest := length_flatMap_le h
    have hlen := congrArg List.length heq
    rw [List.length_append, List.length_append] at hlen
    exact List.append_inj heq (by omega)

/-! ## Breaks -/

theorem mem_linesBy (h : l ∈ linesBy isBreak s) : ∀ c ∈ l, isBreak c = false := by
  induction s generalizing l with
  | nil => exact absurd h List.not_mem_nil
  | cons c s ih =>
    rw [linesBy] at h
    split_ifs at h with hcr hbreak
    · exact ih h
    · rcases List.mem_cons.mp h with rfl | h
      · exact fun c hc => absurd hc List.not_mem_nil
      · exact ih h
    · have hc : isBreak c = false := Bool.eq_false_iff.mpr hbreak
      cases hlines : linesBy isBreak s with
      | nil =>
        rw [hlines] at h
        obtain rfl := List.mem_singleton.mp h
        simpa using hc
      | cons l' ls =>
        rw [hlines] at h ih
        rcases List.mem_cons.mp h with rfl | h
        · rw [List.forall_mem_cons]
          exact ⟨hc, ih List.mem_cons_self⟩
        · exact ih (List.mem_cons_of_mem _ h)

/-- **Fewer breaks make the same lines**, if no line has one of the others in it. -/
theorem linesBy_congr {isBreak' : Char → Bool} (himp : ∀ c, isBreak' c → isBreak c)
    (h : ∀ l ∈ linesBy isBreak' s, ∀ c ∈ l, isBreak c = false) :
    linesBy isBreak s = linesBy isBreak' s := by
  induction s with
  | nil => rfl
  | cons c s ih =>
    rw [linesBy] at h
    rw [linesBy, linesBy]
    by_cases hcr : c = '\r' ∧ s.head? = some '\n'
    · rw [if_pos hcr] at h
      rw [if_pos hcr, if_pos hcr, ih h]
    · rw [if_neg hcr] at h
      rw [if_neg hcr, if_neg hcr]
      by_cases hbreak : isBreak' c
      · rw [if_pos hbreak] at h
        rw [if_pos hbreak, if_pos (himp c hbreak), ih (List.forall_mem_cons.mp h).2]
      · rw [if_neg hbreak] at h
        obtain ⟨hc, hrest⟩ := forall_mem_consHead h
        rw [if_neg hbreak, if_neg (Bool.eq_false_iff.mp hc), ih hrest]

/-- **A line is read back**, and what comes after it. -/
theorem linesBy_append_crlf (h : isBreak '\n') (hl : ∀ c ∈ l, isBreak c = false) (s : List Char) :
    linesBy isBreak (l ++ '\r' :: '\n' :: s) = l :: linesBy isBreak s := by
  induction l with
  | nil => rw [List.nil_append, linesBy, if_pos ⟨rfl, rfl⟩, linesBy_lf h]
  | cons c l ih =>
    obtain ⟨hc, hrest⟩ := List.forall_mem_cons.mp hl
    have hhead : (l ++ '\r' :: '\n' :: s).head? ≠ some '\n' := by
      cases l with
      | nil => simp
      | cons d l =>
        intro hd
        obtain rfl := Option.some.inj hd
        exact Bool.false_ne_true ((hrest _ List.mem_cons_self).symm.trans h)
    rw [List.cons_append, linesBy, if_neg (fun hcr => hhead hcr.2), hc,
      if_neg Bool.false_ne_true, ih hrest]
    rfl

/-- **What is written is read back.** -/
theorem linesBy_crlfLines (h : isBreak '\n') {ls : List (List Char)}
    (hls : ∀ l ∈ ls, ∀ c ∈ l, isBreak c = false) : linesBy isBreak (crlfLines ls) = ls := by
  induction ls with
  | nil => rfl
  | cons l ls ih =>
    obtain ⟨hl, hrest⟩ := List.forall_mem_cons.mp hls
    rw [crlfLines, List.flatMap_cons, List.append_assoc]
    exact (linesBy_append_crlf h hl _).trans (congrArg (l :: ·) (ih hrest))

/-- Texts of the same lines only are the same. -/
theorem crlfLines_inj {ls ls' : List (List Char)} (hls : ∀ l ∈ ls, '\n' ∉ l)
    (hls' : ∀ l ∈ ls', '\n' ∉ l) (h : crlfLines ls = crlfLines ls') : ls = ls' := by
  have hread {ls : List (List Char)} (hls : ∀ l ∈ ls, '\n' ∉ l) :
      linesBy (· = '\n') (crlfLines ls) = ls := by
    refine linesBy_crlfLines (decide_eq_true rfl) ?_
    intro l hl c hc
    exact decide_eq_false fun hlf => hls l hl (hlf ▸ hc)
  rw [← hread hls, h, hread hls']

/-- Lines put together with CRLF between them and one at the end. -/
theorem intercalate_crlf {ls : List (List Char)} (h : ls ≠ []) :
    "\r\n".toList.intercalate ls ++ "\r\n".toList = crlfLines ls := by
  induction ls with
  | nil => exact absurd rfl h
  | cons l ls ih =>
    by_cases hnil : ls = []
    · rw [hnil, List.intercalate_singleton, crlfLines, List.flatMap_singleton]
    · rw [List.intercalate_cons_of_ne_nil hnil, List.append_assoc, List.append_assoc, ih hnil,
        ← List.append_assoc]
      rfl

end TextLines
