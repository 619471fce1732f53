import Mathlib.Data.List.Infix
import Mathlib.Data.List.Basic

/-!
# Substitution in texts of words

Replacing every match of a pattern, from left to right. A pattern is a matcher: it
says what is left behind a match at the front of a text. `lit` and `plus` make the
matchers of literal texts and of runs of characters, and `substitute` is the loop.

On a text of words with one space before each (`spaced`), a pattern that begins
with a space and a word (`Keyed`) matches at that word only. So the loop can be
followed word by word: `Keyed.substitute_append`, `Keyed.substitute_spaced`.
-/

namespace Rewriting

/-! ## Matching -/

/-- What is left of a text behind a match at its front. -/
abbrev Matcher := List Char → Option (List Char)

/-- The text `p`, then `k`. -/
def lit (p : List Char) (k : Matcher) : Matcher := fun s =>
  if p <+: s then k (s.drop p.length) else none

/-- As many characters of a kind as there are, but at least one, then `k`; fewer, if
`k` does not match then. -/
def plus (p : Char → Bool) (k : Matcher) : Matcher
  | [] => none
  | c :: s => if p c then (plus p k s).orElse fun _ => k s else none

/-- The loop: `skip` characters belong to the match before. -/
def substituteFrom (m : Matcher) (new : List Char) : ℕ → List Char → List Char
  | _, [] => []
  | skip + 1, _ :: s => substituteFrom m new skip s
  | 0, c :: s =>
    match m (c :: s) with
    | some rest => new ++ substituteFrom m new (s.length - rest.length) s
    | none => c :: substituteFrom m new 0 s

/-- Put `new` for every match. -/
def substitute (m : Matcher) (new s : List Char) : List Char := substituteFrom m new 0 s

variable {m k : Matcher} {p : Char → Bool} {new s t key q : List Char} {ts : List (List Char)}

theorem lit_append (p : List Char) : lit p k (p ++ s) = k s := by
  rw [lit, if_pos (List.prefix_append p s), List.drop_left]

/-- A run is taken as a whole if the rest matches then. -/
theorem plus_append {rest : List Char} (ht : t ≠ []) (hp : ∀ c ∈ t, p c)
    (hs : ∀ c ∈ s.head?, p c = false) (hk : k s = some rest) : plus p k (t ++ s) = some rest := by
  induction t with
  | nil => exact absurd rfl ht
  | cons c t ih =>
    obtain ⟨hc, hrest⟩ := List.forall_mem_cons.mp hp
    rw [List.cons_append, plus, if_pos hc]
    by_cases hnil : t = []
    · have hnone : plus p k s = none := by
        cases s with
        | nil => rfl
        | cons d s =>
          have hd := hs d rfl
          rw [plus, hd, if_neg Bool.false_ne_true]
      rw [hnil, List.nil_append, hnone, hk]
      rfl
    · rw [ih hnil hrest]
      rfl

theorem substituteFrom_eq (skip : ℕ) (s : List Char) :
    substituteFrom m new skip s = substitute m new (s.drop skip) := by
  induction skip generalizing s with
  | zero => rfl
  | succ skip ih =>
    cases s with
    | nil => rfl
    | cons c s => exact ih s

/-- A match is replaced. -/
theorem substitute_match {c : Char} {rest : List Char} (h : m (c :: s) = some rest)
    (hrest : rest <:+ s) : substitute m new (c :: s) = new ++ substitute m new rest := by
  obtain ⟨pre, rfl⟩ := hrest
  rw [substitute, substituteFrom, h]
  simp only
  rw [substituteFrom_eq, List.length_append, Nat.add_sub_cancel, List.drop_left]

theorem substitute_cons {c : Char} (h : m (c :: s) = none) :
    substitute m new (c :: s) = c :: substitute m new s := by
  rw [substitute, substituteFrom, h]
  rfl

/-- Nothing comes in but what is put for a match. -/
theorem mem_substituteFrom {c : Char} (skip : ℕ) (h : c ∈ substituteFrom m new skip s) :
    c ∈ new ∨ c ∈ s := by
  induction s generalizing skip with
  | nil =>
    rw [substituteFrom] at h
    exact absurd h List.not_mem_nil
  | cons d s ih =>
    have htail {skip : ℕ} (h : c ∈ substituteFrom m new skip s) : c ∈ new ∨ c ∈ d :: s :=
      (ih skip h).imp_right (List.mem_cons_of_mem d)
    cases skip with
    | succ skip => exact htail h
    | zero =>
      rw [substituteFrom] at h
      split at h
      · rcases List.mem_append.mp h with h | h
        · exact .inl h
        · exact htail h
      · rcases List.mem_cons.mp h with rfl | h
        · exact .inr List.mem_cons_self
        · exact htail h

/-! ## Words -/

/-- Words, with a space before each. -/
def spaced (ts : List (List Char)) : List Char := ts.flatMap (' ' :: ·)

@[simp] theorem spaced_nil : spaced [] = [] := rfl

theorem spaced_cons (t : List Char) (ts : List (List Char)) :
    spaced (t :: ts) = ' ' :: (t ++ spaced ts) := List.flatMap_cons

theorem spaced_append (ts ts' : List (List Char)) : spaced (ts ++ ts') = spaced ts ++ spaced ts' :=
  List.flatMap_append

theorem mem_head?_spaced {c : Char} (h : c ∈ (spaced ts).head?) : c = ' ' := by
  cases ts with
  | nil => cases h
  | cons t ts => exact (Option.some.inj h).symm

/-- Where a word ends. -/
theorem prefix_word_iff (hkey : ' ' ∉ key) (ht : ' ' ∉ t) :
    key ++ ' ' :: q <+: t ++ spaced ts ↔
      t = key ∧ ∃ u us, ts = u :: us ∧ q <+: u ++ spaced us := by
  induction key generalizing t with
  | nil =>
    cases t with
    | nil =>
      cases ts with
      | nil => simp
      | cons u us => simp [spaced_cons, List.cons_prefix_cons]
    | cons c t =>
      have hc : c ≠ ' ' := fun h => ht (h ▸ List.mem_cons_self)
      simp [List.cons_prefix_cons, hc.symm]
  | cons d key ih =>
    obtain ⟨hd, hkey⟩ := not_or.mp (mt List.mem_cons.mpr hkey)
    cases t with
    | nil =>
      cases ts with
      | nil => simp
      | cons u us => simp [spaced_cons, List.cons_prefix_cons, Ne.symm hd]
    | cons c t =>
      obtain ⟨hc, ht⟩ := not_or.mp (mt List.mem_cons.mpr ht)
      rw [List.cons_append, List.cons_append, List.cons_prefix_cons, ih hkey ht, List.cons.injEq,
        and_assoc, eq_comm]

/-- A text without spaces is not found across the end of a word. -/
theorem prefix_append_spaced_iff (hq : ' ' ∉ q) : q <+: t ++ spaced ts ↔ q <+: t := by
  induction q generalizing t with
  | nil => simp
  | cons d q ih =>
    obtain ⟨hd, hq⟩ := not_or.mp (mt List.mem_cons.mpr hq)
    cases t with
    | nil =>
      cases ts with
      | nil => simp
      | cons u us => simp [spaced_cons, List.cons_prefix_cons, Ne.symm hd]
    | cons c t => rw [List.cons_append, List.cons_prefix_cons, List.cons_prefix_cons, ih hq]

/-- Nor is it in two words at once. -/
theorem infix_spaced_iff (hq : ' ' ∉ q) (hne : q ≠ []) :
    q <:+: t ++ spaced ts ↔ q <:+: t ∨ ∃ u ∈ ts, q <:+: u := by
  induction ts generalizing t with
  | nil => simp
  | cons u us ih =>
    have hspace : ¬ q <+: ' ' :: (u ++ spaced us) := by
      intro h
      obtain ⟨d, q, rfl⟩ := List.exists_cons_of_ne_nil hne
      exact hq ((List.cons_prefix_cons.mp h).1 ▸ List.mem_cons_self)
    induction t with
    | nil =>
      rw [List.nil_append, spaced_cons, List.infix_cons_iff, or_iff_right hspace, ih,
        List.exists_mem_cons_iff, List.infix_nil, or_iff_right hne]
    | cons c t iht =>
      have hprefix : q <+: c :: (t ++ spaced (u :: us)) ↔ q <+: c :: t :=
        prefix_append_spaced_iff (t := c :: t) hq
      have hrest : q <:+: t ++ spaced (u :: us) ↔ q <:+: t ∨ ∃ v ∈ u :: us, q <:+: v := iht
      rw [List.cons_append, List.infix_cons_iff, hprefix, hrest, List.infix_cons_iff, or_assoc]

/-! ## Patterns that begin with a word -/

/-- A matcher that matches nothing but a space and the word `key`, and more. -/
structure Keyed (key : List Char) (m : Matcher) : Prop where
  /-- it begins with a space -/
  space : ∀ c s, c ≠ ' ' → m (c :: s) = none
  /-- and with the word -/
  word : ∀ t ts, ' ' ∉ t → t ≠ key → m (spaced (t :: ts)) = none

theorem keyed_lit (hkey : ' ' ∉ key) : Keyed key (lit (' ' :: (key ++ ' ' :: q)) k) where
  space := by
    intro c s hc
    rw [lit, if_neg fun h => hc (List.cons_prefix_cons.mp h).1.symm]
  word := by
    intro t ts ht hne
    rw [spaced_cons, lit, if_neg]
    intro h
    exact hne ((prefix_word_iff hkey ht).mp (List.cons_prefix_cons.mp h).2).1

/-- A word is passed over. -/
theorem Keyed.substitute_append (h : Keyed key m) (ht : ' ' ∉ t) :
    substitute m new (t ++ s) = t ++ substitute m new s := by
  induction t with
  | nil => rfl
  | cons c t ih =>
    obtain ⟨hc, ht⟩ := not_or.mp (mt List.mem_cons.mpr ht)
    rw [List.cons_append, substitute_cons (h.space c _ (Ne.symm hc)), ih ht]
    rfl

/-- **Words** are passed over up to the one the pattern begins with. -/
theorem Keyed.substitute_spaced (h : Keyed key m) {pre : List (List Char)}
    (hpre : ∀ t ∈ pre, ' ' ∉ t ∧ t ≠ key) :
    substitute m new (spaced (pre ++ ts)) = spaced pre ++ substitute m new (spaced ts) := by
  induction pre with
  | nil => rfl
  | cons t pre ih =>
    obtain ⟨⟨ht, hne⟩, hrest⟩ := List.forall_mem_cons.mp hpre
    have hnone := h.word t (pre ++ ts) ht hne
    rw [spaced_cons] at hnone
    rw [List.cons_append, spaced_cons, substitute_cons hnone, h.substitute_append ht, ih hrest,
      spaced_cons, List.cons_append, List.append_assoc]

/-- A text without the word is left as it is. -/
theorem Keyed.substitute_eq_self (h : Keyed key m) (ht : ' ' ∉ t)
    (hts : ∀ t ∈ ts, ' ' ∉ t ∧ t ≠ key) : substitute m new (t ++ spaced ts) = t ++ spaced ts := by
  have hspaced : substitute m new (spaced (ts ++ [])) = spaced ts ++ substitute m new [] :=
    h.substitute_spaced hts
  rw [List.append_nil] at hspaced
  rw [h.substitute_append ht, hspaced]
  exact congrArg (t ++ ·) (List.append_nil _)

/-- A match is replaced, and what is behind it is words again. -/
theorem substitute_spaced_match {us : List (List Char)}
    (h : m (spaced (t :: ts)) = some (spaced us)) (hus : us <:+ ts) :
    substitute m new (spaced (t :: ts)) = new ++ substitute m new (spaced us) := by
  obtain ⟨pre, rfl⟩ := hus
  rw [spaced_cons] at h ⊢
  refine substitute_match h ⟨t ++ spaced pre, ?_⟩
  rw [spaced_append, List.append_assoc]

/-- **Where a word and the beginning of the next are found.** -/
theorem infix_word_iff (hkey : ' ' ∉ key) (hq : ' ' ∉ q) (ht : ' ' ∉ t)
    (hts : ∀ t ∈ ts, ' ' ∉ t) :
    ' ' :: (key ++ ' ' :: q) <:+: t ++ spaced ts ↔
      ∃ pre u post, ts = pre ++ key :: u :: post ∧ q <+: u := by
  have hword {t : List Char} (ht : ' ' ∉ t) (s : List Char) :
      ' ' :: (key ++ ' ' :: q) <:+: t ++ s ↔ ' ' :: (key ++ ' ' :: q) <:+: s := by
    induction t with
    | nil => rfl
    | cons c t ih =>
      obtain ⟨hc, ht⟩ := not_or.mp (mt List.mem_cons.mpr ht)
      rw [List.cons_append, List.infix_cons_iff, ih ht, List.cons_prefix_cons,
        or_iff_right fun h => hc h.1]
  rw [hword ht]
  clear ht
  induction ts with
  | nil => simp
  | cons u us ih =>
    obtain ⟨hu, hus⟩ := List.forall_mem_cons.mp hts
    have hrest : ' ' :: (key ++ ' ' :: q) <:+: spaced us ↔
        ∃ pre u post, us = pre ++ key :: u :: post ∧ q <+: u := ih hus
    rw [spaced_cons, List.infix_cons_iff, List.cons_prefix_cons, prefix_word_iff hkey hu,
      hword hu, hrest]
    refine ⟨?_, ?_⟩
    · rintro (⟨-, rfl, v, vs, rfl, hv⟩ | ⟨pre, v, post, rfl, hv⟩)
      · exact ⟨[], v, vs, rfl, (prefix_append_spaced_iff hq).mp hv⟩
      · exact ⟨u :: pre, v, post, rfl, hv⟩
    · rintro ⟨pre, v, post, hsplit, hv⟩
      cases pre with
      | nil =>
        obtain ⟨rfl, rfl⟩ := List.cons.inj hsplit
        exact .inl ⟨rfl, rfl, v, post, rfl, (prefix_append_spaced_iff hq).mpr hv⟩
      | cons w pre =>
        obtain ⟨-, rfl⟩ := List.cons.inj hsplit
        exact .inr ⟨pre, v, post, rfl, hv⟩

end Rewriting
