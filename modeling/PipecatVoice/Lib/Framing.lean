import Mathlib.Data.List.Basic

/-!
# Collecting the items between a start and a stop

A stream of tokens: starts, items and stops. A collector keeps a buffer and a
flag: a start empties the buffer and raises the flag, an item is appended while
the flag is up, a stop hands the buffer out and lowers the flag. `flushes` lists
what the stops hand out.

A nonempty buffer handed out is a stretch of the stream, a start followed by
items followed by a stop (`mem_flushes_iff`), and the one stretch that is
nonempty can be read off the stream (`filter_flushes_eq_singleton_iff`).
-/

namespace Framing

variable {α : Type}

/-- A token of the stream. -/
inductive Token (α : Type) where
  /-- opens a stretch -/
  | start
  /-- belongs to the stretch it stands in -/
  | item (a : α)
  /-- closes a stretch -/
  | stop
  deriving DecidableEq

/-- The collector. -/
structure Collector (α : Type) where
  /-- items since the last start -/
  buffer : List α
  /-- a start has been seen and no stop since -/
  isOpen : Bool

/-- A collector that has seen nothing. -/
def Collector.init : Collector α := ⟨[], false⟩

/-- The collector after a token. -/
def Collector.next (c : Collector α) : Token α → Collector α
  | .start => ⟨[], true⟩
  | .item a => if c.isOpen then ⟨c.buffer ++ [a], true⟩ else c
  | .stop => ⟨[], false⟩

/-- What the stops of a stream hand out. -/
def flushes (c : Collector α) : List (Token α) → List (List α)
  | [] => []
  | .start :: u => flushes (c.next .start) u
  | .item a :: u => flushes (c.next (.item a)) u
  | .stop :: u => c.buffer :: flushes (c.next .stop) u

theorem flushes_append (c : Collector α) (u v : List (Token α)) :
    flushes c (u ++ v) = flushes c u ++ flushes (u.foldl Collector.next c) v := by
  induction u generalizing c with
  | nil => rfl
  | cons t u ih => cases t <;> simp only [List.cons_append, flushes, List.foldl_cons, ih]

/-- Whatever was collected before a start is forgotten. -/
theorem flushes_start (c c' : Collector α) (u : List (Token α)) :
    flushes c (.start :: u) = flushes c' (.start :: u) := rfl

theorem flushes_items (buffer l : List α) (u : List (Token α)) :
    flushes ⟨buffer, true⟩ (l.map .item ++ u) = flushes ⟨buffer ++ l, true⟩ u := by
  induction l generalizing buffer with
  | nil => rw [List.map_nil, List.nil_append, List.append_nil]
  | cons a l ih =>
    simp only [List.map_cons, List.cons_append, flushes, Collector.next, if_true]
    rw [ih, List.append_assoc, List.singleton_append]

/-- A stretch of the stream: a start, the items, a stop. -/
def Stretch (u : List (Token α)) (l : List α) : Prop :=
  ∃ pre post, u = pre ++ .start :: l.map .item ++ .stop :: post

/-- A stretch hands its items out, and splits the stream. -/
theorem flushes_stretch (c : Collector α) (pre post : List (Token α)) (l : List α) :
    flushes c (pre ++ .start :: l.map .item ++ .stop :: post) =
      flushes c pre ++ l :: flushes Collector.init post := by
  rw [List.append_assoc, flushes_append, List.cons_append, flushes_start _ Collector.init]
  simp only [flushes, Collector.next, flushes_items, List.nil_append]
  rfl

/-- What a collector with an open buffer hands out: the buffer with the items up
to the next stop, or a stretch. -/
theorem mem_flushes {c : Collector α} {u : List (Token α)} {l : List α}
    (h : l ∈ flushes c u) (hne : l ≠ []) (hopen : c.isOpen = false → c.buffer = []) :
    (∃ l' post, c.isOpen = true ∧ l = c.buffer ++ l' ∧ u = l'.map .item ++ .stop :: post) ∨
      Stretch u l := by
  induction u generalizing c with
  | nil => simp [flushes] at h
  | cons t u ih =>
    cases t with
    | start =>
      -- a fresh buffer: the stretch begins here or later
      right
      rcases ih h (fun _ => rfl) with ⟨l', post, -, rfl, rfl⟩ | ⟨pre, post, rfl⟩
      · exact ⟨[], post, rfl⟩
      · exact ⟨.start :: pre, post, by simp⟩
    | item a =>
      by_cases hc : c.isOpen = true
      · have hnext : c.next (.item a) = ⟨c.buffer ++ [a], true⟩ := by
          simp only [Collector.next, if_pos hc]
        rw [flushes, hnext] at h
        rcases ih h (by simp) with ⟨l', post, -, rfl, rfl⟩ | ⟨pre, post, rfl⟩
        · exact Or.inl ⟨a :: l', post, hc, by simp, by simp⟩
        · exact Or.inr ⟨.item a :: pre, post, by simp⟩
      · have hnext : c.next (.item a) = c := by simp only [Collector.next, if_neg hc]
        rw [flushes, hnext] at h
        rcases ih h hopen with ⟨l', post, hc', -⟩ | ⟨pre, post, rfl⟩
        · exact absurd hc' hc
        · exact Or.inr ⟨.item a :: pre, post, by simp⟩
    | stop =>
      rw [flushes] at h
      rcases List.mem_cons.mp h with rfl | h
      · -- the buffer itself: open, since it is not empty
        have hc : c.isOpen = true := by
          by_contra hc
          exact hne (hopen (by simpa using hc))
        exact Or.inl ⟨[], u, hc, by simp, by simp⟩
      · rcases ih h (fun _ => rfl) with ⟨l', post, hc, -⟩ | ⟨pre, post, rfl⟩
        · simp [Collector.next] at hc
        · exact Or.inr ⟨.stop :: pre, post, by simp⟩

/-- The nonempty buffers handed out are the nonempty stretches. -/
theorem mem_flushes_iff {u : List (Token α)} {l : List α} (hne : l ≠ []) :
    l ∈ flushes Collector.init u ↔ Stretch u l := by
  refine ⟨?_, ?_⟩
  · intro h
    rcases mem_flushes h hne (fun _ => rfl) with ⟨_, _, hopen, -⟩ | hstretch
    · simp [Collector.init] at hopen
    · exact hstretch
  · rintro ⟨pre, post, rfl⟩
    rw [flushes_stretch]
    simp

/-- A stream without a nonempty stretch. -/
def Quiet (u : List (Token α)) : Prop := ∀ l, Stretch u l → l = []

theorem quiet_iff [DecidableEq α] {u : List (Token α)} :
    Quiet u ↔ (flushes Collector.init u).filter (· ≠ []) = [] := by
  rw [List.filter_eq_nil_iff]
  refine ⟨?_, ?_⟩
  · intro h l hl
    by_cases hne : l = []
    · simp [hne]
    · exact absurd (h l ((mem_flushes_iff hne).mp hl)) hne
  · intro h l hl
    by_contra hne
    exact absurd (h l ((mem_flushes_iff hne).mpr hl)) (by simpa using hne)

/-- **The only stretch**: a stream hands out one nonempty buffer, `l`, exactly
when it is the stretch `l` between two quiet streams. -/
theorem filter_flushes_eq_singleton_iff [DecidableEq α] {u : List (Token α)} {l : List α}
    (hne : l ≠ []) :
    (flushes Collector.init u).filter (· ≠ []) = [l] ↔
      ∃ pre post, u = pre ++ .start :: l.map .item ++ .stop :: post ∧ Quiet pre ∧ Quiet post := by
  simp only [quiet_iff]
  refine ⟨?_, ?_⟩
  · intro h
    have hmem : l ∈ flushes Collector.init u := by
      have hl : l ∈ (flushes Collector.init u).filter (· ≠ []) := by
        rw [h]
        exact List.mem_singleton_self l
      exact List.mem_of_mem_filter hl
    obtain ⟨pre, post, rfl⟩ := (mem_flushes_iff hne).mp hmem
    rw [flushes_stretch, List.filter_append, List.filter_cons_of_pos (by simpa using hne)] at h
    -- two lists around `l` that make up `[l]` are empty
    have hlen := congrArg List.length h
    simp only [List.length_append, List.length_cons, List.length_nil] at hlen
    exact ⟨pre, post, rfl, List.length_eq_zero_iff.mp (by omega),
      List.length_eq_zero_iff.mp (by omega)⟩
  · rintro ⟨pre, post, rfl, hpre, hpost⟩
    rw [flushes_stretch, List.filter_append, List.filter_cons_of_pos (by simpa using hne), hpre,
      hpost]
    rfl

end Framing
