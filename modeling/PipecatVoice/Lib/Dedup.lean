import Mathlib.Data.Finset.Card
import Mathlib.Data.List.DropRight
import PipecatVoice.Lib.History
import PipecatVoice.Lib.Runs

/-!
# Repetitions through a bounded memory

A stream of items is to be passed on without repetitions: an item is a
repetition if one with its key came before (`firsts`). A filter that remembers
no more than the keys of the last few items it passed on (`Filter`) does so
exactly on the streams in which a key comes back soon enough (`Spaced`):
`passed_eq_firsts_iff`.
-/

namespace Dedup

universe u v

variable {α : Type u} {κ : Type v} [DecidableEq κ] {key : α → κ} {n : ℕ}

/-! ## First occurrences -/

/-- The items whose key did not come before. -/
def firsts (key : α → κ) : List α → List α
  | [] => []
  | a :: l => a :: (firsts key l).filter (key · ≠ key a)

theorem map_filter_ne (k : κ) (l : List α) :
    (l.filter (key · ≠ k)).map key = (l.map key).filter (· ≠ k) := by
  rw [List.filter_map]
  rfl

theorem map_firsts (l : List α) : (firsts key l).map key = firsts id (l.map key) := by
  induction l with
  | nil => rfl
  | cons a l ih => rw [firsts, List.map_cons, map_filter_ne, ih, List.map_cons, firsts]; rfl

theorem mem_map_firsts {k : κ} (l : List α) : k ∈ (firsts key l).map key ↔ k ∈ l.map key := by
  induction l with
  | nil => rfl
  | cons a l ih =>
    rw [firsts, List.map_cons, map_filter_ne, List.map_cons, List.mem_cons, List.mem_cons,
      List.mem_filter, ih]
    by_cases hk : k = key a
    · simp [hk]
    · simp [hk]

theorem nodup_map_firsts (l : List α) : ((firsts key l).map key).Nodup := by
  induction l with
  | nil => exact List.nodup_nil
  | cons a l ih =>
    rw [firsts, List.map_cons, map_filter_ne, List.nodup_cons]
    exact ⟨by simp, ih.filter _⟩

theorem firsts_append (l l' : List α) :
    firsts key (l ++ l') = firsts key l ++ (firsts key l').filter (key · ∉ l.map key) := by
  induction l with
  | nil => simp [firsts]
  | cons a l ih =>
    rw [List.cons_append, firsts, ih, List.filter_append, List.filter_filter, firsts,
      List.cons_append]
    congr 2
    apply List.filter_congr
    intro b _
    simp

/-- **One more item.** -/
theorem firsts_concat (l : List α) (a : α) :
    firsts key (l ++ [a]) = if key a ∈ l.map key then firsts key l else firsts key l ++ [a] := by
  rw [firsts_append, firsts, firsts, List.filter_nil, List.filter_singleton]
  split <;> rename_i hmem <;> simp [hmem]

/-! ## The filter -/

/-- A queue that keeps what was put into it last, oldest first. -/
structure Deque (κ : Type v) (maxlen : ℕ) where
  /-- what is in it -/
  items : List κ
  /-- no more than `maxlen` -/
  length_le : items.length ≤ maxlen

/-- What is too much falls out on the left. -/
def Deque.append {maxlen : ℕ} (d : Deque κ maxlen) (k : κ) : Deque κ maxlen where
  items := (d.items ++ [k]).rtake maxlen
  length_le := by rw [List.rtake, List.length_drop]; omega

omit [DecidableEq κ] in
theorem Deque.items_append {maxlen : ℕ} (d : Deque κ maxlen) (k : κ) :
    (d.append k).items = (d.items ++ [k]).rtake maxlen := rfl

omit [DecidableEq κ] in
theorem rtake_rtake_concat (l : List κ) (k : κ) :
    (l.rtake n ++ [k]).rtake n = (l ++ [k]).rtake n := by
  cases n with
  | zero => rw [List.rtake_zero, List.rtake_zero]
  | succ n =>
    rw [List.rtake_concat_succ, List.rtake_concat_succ, List.rtake_eq_reverse_take_reverse,
      List.rtake_eq_reverse_take_reverse, List.reverse_reverse, List.take_take,
      Nat.min_eq_left (Nat.le_succ n), ← List.rtake_eq_reverse_take_reverse]

/-- A filter that remembers `n` keys. -/
structure Filter (α : Type u) (κ : Type v) (n : ℕ) where
  /-- the keys it remembers -/
  seen : Deque κ n
  /-- the items passed on -/
  passed : List α

namespace Filter

/-- Nothing came yet. -/
def init : Filter α κ n := ⟨⟨[], Nat.zero_le n⟩, []⟩

/-- An item is passed on if its key is not remembered. -/
def step (key : α → κ) (s : Filter α κ n) (a : α) : Filter α κ n :=
  if key a ∈ s.seen.items then s else ⟨s.seen.append (key a), s.passed ++ [a]⟩

end Filter

/-- Between the first occurrence of a key and each later one, at most `n` others
occur for the first time. -/
def Spaced (n : ℕ) : List κ → Prop :=
  History.Obeys fun past k => ∀ xs ys, past = xs ++ k :: ys → k ∉ xs →
    (ys.toFinset \ insert k xs.toFinset).card ≤ n

omit [DecidableEq κ] in
/-- How far back a key is in what is remembered. -/
theorem mem_rtake_iff {k : κ} {xs ys : List κ} (hxs : k ∉ xs) (hys : k ∉ ys) :
    k ∈ (xs ++ k :: ys).rtake n ↔ ys.length < n := by
  have hdrop : k ∉ xs.drop ((xs ++ k :: ys).length - n) :=
    fun hmem => hxs (List.mem_of_mem_drop hmem)
  have hlen : (xs ++ k :: ys).length = xs.length + (ys.length + 1) := by simp
  rw [List.rtake, List.drop_append, List.mem_append, or_iff_right hdrop, hlen]
  by_cases hn : ys.length < n
  · rw [Nat.sub_eq_zero_of_le (by omega : _ ≤ xs.length)]
    simp [hn]
  · obtain ⟨j, hj⟩ : ∃ j, xs.length + (ys.length + 1) - n - xs.length = j + 1 :=
      ⟨ys.length - n, by omega⟩
    rw [hj, List.drop_succ_cons]
    exact iff_of_false (fun hmem => hys (List.mem_of_mem_drop hmem)) hn

/-- The keys first met after the first occurrence of `k`. -/
theorem firsts_split {k : κ} {xs : List κ} (hxs : k ∉ xs) (ys : List κ) :
    ∃ rest, firsts id (xs ++ k :: ys) = firsts id xs ++ k :: rest ∧ k ∉ rest ∧
      rest.length = (ys.toFinset \ insert k xs.toFinset).card := by
  refine ⟨(firsts id ys).filter fun j => j ≠ k ∧ j ∉ xs, ?_, by simp, ?_⟩
  · rw [firsts_append, firsts, List.filter_cons_of_pos (by simpa using hxs), List.filter_filter]
    congr 2
    apply List.filter_congr
    intro j _
    simp [Bool.and_comm]
  · have hnodup : (firsts id ys).Nodup := by
      have h : ((firsts id ys).map id).Nodup := nodup_map_firsts ys
      rwa [List.map_id] at h
    have hmem (j : κ) : j ∈ firsts id ys ↔ j ∈ ys := by
      have h : j ∈ (firsts id ys).map id ↔ j ∈ ys.map id := mem_map_firsts ys
      rwa [List.map_id, List.map_id] at h
    rw [← List.toFinset_card_of_nodup (hnodup.filter _)]
    congr 1
    ext j
    simp [hmem, not_or]

/-- A key is still remembered if few others came up since it did. -/
theorem soon_iff (past : List κ) (k : κ) :
    (∀ xs ys, past = xs ++ k :: ys → k ∉ xs → (ys.toFinset \ insert k xs.toFinset).card ≤ n) ↔
      (k ∈ past → k ∈ (firsts id past).rtake (n + 1)) := by
  have hsplit {xs ys : List κ} (hxs : k ∉ xs) : k ∈ (firsts id (xs ++ k :: ys)).rtake (n + 1) ↔
      (ys.toFinset \ insert k xs.toFinset).card ≤ n := by
    obtain ⟨rest, hfirsts, hrest, hcard⟩ := firsts_split hxs ys
    have hbefore : k ∉ firsts id xs := by
      intro hmem
      have hkeys := (mem_map_firsts xs).mp (List.mem_map_of_mem hmem)
      rw [List.map_id] at hkeys
      exact hxs hkeys
    rw [hfirsts, mem_rtake_iff hbefore hrest, hcard, Nat.lt_succ_iff]
  refine ⟨?_, ?_⟩
  · intro h hmem
    obtain ⟨xs, ys, rfl, hxs⟩ := List.eq_append_cons_of_mem hmem
    exact (hsplit hxs).mpr (h xs ys rfl hxs)
  · rintro h xs ys rfl hxs
    exact (hsplit hxs).mp (h (by simp))

/-! ## What the filter passes on -/

variable (key n) in
/-- The filter after a stream. -/
def filtered (l : List α) : Filter α κ n := Runs.run (Filter.step key) Filter.init l

theorem filtered_concat (l : List α) (a : α) :
    filtered key n (l ++ [a]) = (filtered key n l).step key a := by
  rw [filtered, Runs.run, List.foldl_append]
  rfl

/-- It remembers the keys of the items it passed on last. -/
theorem seen_filtered (l : List α) :
    (filtered key n l).seen.items = ((filtered key n l).passed.map key).rtake n := by
  induction l using List.reverseRecOn with
  | nil => exact (List.rtake_nil n).symm
  | append_singleton l a ih =>
    rw [filtered_concat, Filter.step]
    split
    · exact ih
    · rw [Deque.items_append, ih, rtake_rtake_concat, List.map_append, List.map_singleton]

/-- It passes on nothing but items of the stream. -/
theorem passed_subset (l : List α) : (filtered key n l).passed ⊆ l := by
  induction l using List.reverseRecOn with
  | nil => exact List.Subset.refl _
  | append_singleton l a ih =>
    rw [filtered_concat, Filter.step]
    split
    · exact fun b hb => List.mem_append_left _ (ih hb)
    · exact List.append_subset.mpr ⟨fun b hb => List.mem_append_left _ (ih hb), by simp⟩

/-- A key that did not come before is not remembered. -/
theorem notMem_seen {l : List α} {k : κ} (hk : k ∉ l.map key) :
    k ∉ (filtered key n l).seen.items := by
  rw [seen_filtered]
  intro hmem
  exact hk (List.map_subset key (passed_subset l) (List.mem_of_mem_drop hmem))

/-- Nothing new is held back. -/
theorem length_firsts_le (l : List α) :
    (firsts key l).length ≤ (filtered key n l).passed.length := by
  induction l using List.reverseRecOn with
  | nil => exact Nat.le_refl 0
  | append_singleton l a ih =>
    rw [filtered_concat, Filter.step, firsts_concat]
    by_cases hmem : key a ∈ l.map key
    · rw [if_pos hmem]
      split
      · exact ih
      · exact ih.trans (by simp)
    · rw [if_neg hmem, if_neg (notMem_seen hmem), List.length_append, List.length_append]
      exact Nat.add_le_add_right ih _

/-- What it passes on besides the first occurrences can be counted. -/
theorem passed_eq_of_length {l : List α}
    (h : (filtered key n l).passed.length = (firsts key l).length) :
    (filtered key n l).passed = firsts key l := by
  induction l using List.reverseRecOn with
  | nil => rfl
  | append_singleton l a ih =>
    have hle : (firsts key l).length ≤ (filtered key n l).passed.length := length_firsts_le l
    rw [filtered_concat, Filter.step, firsts_concat] at h ⊢
    by_cases hmem : key a ∈ l.map key
    · rw [if_pos hmem] at h ⊢
      split at h <;> rename_i hseen
      · rw [if_pos hseen]
        exact ih h
      · rw [List.length_append, List.length_singleton] at h
        omega
    · rw [if_neg hmem, if_neg (notMem_seen hmem)] at h ⊢
      rw [List.length_append, List.length_append] at h
      rw [ih (Nat.add_right_cancel h)]

/-- **The filter passes on the first occurrences, and nothing else**, exactly if
every key that comes back comes back soon enough. -/
theorem passed_eq_firsts_iff (l : List α) :
    (filtered key (n + 1) l).passed = firsts key l ↔ Spaced n (l.map key) := by
  induction l using List.reverseRecOn with
  | nil => exact iff_of_true rfl History.obeys_nil
  | append_singleton l a ih =>
    rw [List.map_append, List.map_singleton, Spaced, History.obeys_concat, soon_iff, ← Spaced, ← ih,
      filtered_concat, Filter.step, firsts_concat]
    by_cases hmem : key a ∈ l.map key
    · rw [if_pos hmem, imp_iff_right hmem]
      split
      · rename_i hseen
        refine ⟨fun h => ⟨h, ?_⟩, And.left⟩
        rwa [seen_filtered, h, map_firsts] at hseen
      · rename_i hseen
        refine iff_of_false ?_ ?_
        · intro h
          have hlen := congrArg List.length h
          have hle : (firsts key l).length ≤ (filtered key (n + 1) l).passed.length :=
            length_firsts_le l
          rw [List.length_append, List.length_singleton] at hlen
          omega
        · rintro ⟨h, hlast⟩
          rw [seen_filtered, h, map_firsts] at hseen
          exact hseen hlast
    · rw [if_neg hmem, if_neg (notMem_seen hmem)]
      refine ⟨fun h => ⟨List.append_cancel_right h, fun h => absurd h hmem⟩, ?_⟩
      rintro ⟨h, -⟩
      rw [h]

end Dedup
