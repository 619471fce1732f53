import Mathlib.Data.List.DropRight
import Mathlib.Data.List.Nodup
import Mathlib.Order.Lattice

/-!
# The newest of a sorted list

Of a list sorted by a key, oldest first, the last `n` are kept and the others
removed. A removed element has `n` others behind it that are not older
(`length_of_mem_take`), and with different keys the kept ones are those with
fewer than `n` newer ones (`mem_rtake_iff`). `retained` is what is left where
elements arrive at the end and the rest is removed each time.
-/

namespace Newest

variable {α β : Type*} [LinearOrder β] {key : α → β} {l : List α} {n : ℕ} {x : α}

/-- A place in a list without repetitions, by what is before it. -/
theorem mem_drop_iff {pre post : List α} (h : (pre ++ x :: post).Nodup) (k : ℕ) :
    x ∈ (pre ++ x :: post).drop k ↔ k ≤ pre.length := by
  have hx : x ∉ post := (List.nodup_cons.mp (List.nodup_append.mp h).2.1).1
  refine ⟨?_, ?_⟩
  · intro hmem
    by_contra hlt
    have hafter : k = pre.length + 1 + (k - pre.length - 1) := by omega
    have hdrop : (pre ++ x :: post).drop (pre.length + 1) = post := by
      rw [List.drop_append, List.drop_of_length_le (Nat.le_succ _), Nat.add_sub_cancel_left,
        List.nil_append, List.drop_succ_cons, List.drop_zero]
    rw [hafter, ← List.drop_drop, hdrop] at hmem
    exact hx (List.mem_of_mem_drop hmem)
  · intro hle
    rw [List.drop_append_of_le_length hle]
    exact List.mem_append_right _ List.mem_cons_self

/-- One more element, newer than the others. -/
theorem pairwise_concat (h : l.Pairwise fun a b => key a < key b) (hx : ∀ y ∈ l, key y < key x) :
    (l ++ [x]).Pairwise fun a b => key a < key b := by
  rw [List.pairwise_append]
  refine ⟨h, List.pairwise_singleton _ _, ?_⟩
  intro a ha b hb
  rw [List.mem_singleton.mp hb]
  exact hx a ha

/-- **The kept**: those with fewer than `n` newer ones. -/
theorem mem_rtake_iff (h : l.Pairwise fun a b => key a < key b) :
    x ∈ l.rtake n ↔ x ∈ l ∧ (l.filter fun y => key x < key y).length < n := by
  have hnodup : l.Nodup := h.imp fun hlt heq => absurd hlt (by rw [heq]; exact lt_irrefl _)
  by_cases hx : x ∈ l
  · obtain ⟨pre, post, rfl⟩ := List.append_of_mem hx
    obtain ⟨-, hcons, hcross⟩ := List.pairwise_append.mp h
    have hpre : pre.filter (fun y => key x < key y) = [] := by
      rw [List.filter_eq_nil_iff]
      intro y hy hlt
      exact absurd (of_decide_eq_true hlt) (not_lt_of_gt (hcross y hy x List.mem_cons_self))
    have hpost : post.filter (fun y => key x < key y) = post := by
      rw [List.filter_eq_self]
      intro y hy
      exact decide_eq_true (List.rel_of_pairwise_cons hcons hy)
    have hfilter : (pre ++ x :: post).filter (fun y => key x < key y) = post := by
      rw [List.filter_append, hpre, List.filter_cons_of_neg (by simp), hpost, List.nil_append]
    rw [List.rtake, mem_drop_iff hnodup, hfilter, and_iff_right hx, List.length_append,
      List.length_cons]
    omega
  · refine iff_of_false ?_ fun h => hx h.1
    exact fun hmem => hx (List.mem_of_mem_drop hmem)

/-- **The removed**: behind one of them there are `n` others, none of them
older. -/
theorem length_of_mem_take [DecidableEq α] (h : l.Pairwise fun a b => key a ≤ key b)
    (hnodup : l.Nodup) (hx : x ∈ l.take (l.length - n)) :
    n ≤ (l.filter fun y => y ≠ x ∧ key x ≤ key y).length := by
  obtain ⟨pre, post, rfl⟩ := List.append_of_mem (List.mem_of_mem_take hx)
  obtain ⟨-, hcons, -⟩ := List.pairwise_append.mp h
  have hpost : x ∉ post := (List.nodup_cons.mp (List.nodup_append.mp hnodup).2.1).1
  have hbefore : ¬ (pre ++ x :: post).length - n ≤ pre.length := by
    rw [← mem_drop_iff hnodup]
    intro hmem
    exact List.disjoint_take_drop hnodup le_rfl hx hmem
  have hsub : post.Sublist ((pre ++ x :: post).filter fun y => y ≠ x ∧ key x ≤ key y) := by
    have hself : post.filter (fun y => y ≠ x ∧ key x ≤ key y) = post := by
      rw [List.filter_eq_self]
      intro y hy
      refine decide_eq_true ⟨?_, List.rel_of_pairwise_cons hcons hy⟩
      rintro rfl
      exact hpost hy
    rw [List.filter_append]
    refine List.Sublist.trans ?_ (List.sublist_append_right _ _)
    have hrest := (List.sublist_cons_self x post).filter fun y => y ≠ x ∧ key x ≤ key y
    rwa [hself] at hrest
  have hle := hsub.length_le
  rw [List.length_append, List.length_cons] at hbefore
  omega

/-! ## Arrivals -/

/-- What is left of `l` after the arrivals `xs`, if each leaves the last `n`. -/
def retained (n : ℕ) (l : List α) : List α → List α
  | [] => l
  | x :: xs => (l ++ x :: xs).rtake n

theorem retained_of_ne_nil {xs : List α} (h : xs ≠ []) :
    retained n l xs = (l ++ xs).rtake n := by
  cases xs with
  | nil => exact absurd rfl h
  | cons x xs => rfl

theorem retained_sublist (n : ℕ) (l xs : List α) : (retained n l xs).Sublist (l ++ xs) := by
  cases xs with
  | nil =>
    rw [List.append_nil]
    exact List.Sublist.refl l
  | cons x xs => exact List.drop_sublist _ _

/-- **One more arrival** leaves the last `n` of what there was with it. -/
theorem retained_concat (hn : 0 < n) (l xs : List α) (x : α) :
    retained n l (xs ++ [x]) = (retained n l xs ++ [x]).rtake n := by
  obtain ⟨k, rfl⟩ : ∃ k, n = k + 1 := Nat.exists_eq_succ_of_ne_zero (Nat.pos_iff_ne_zero.mp hn)
  rw [retained_of_ne_nil (List.concat_ne_nil x xs), ← List.append_assoc, List.rtake_concat_succ,
    List.rtake_concat_succ]
  congr 1
  cases xs with
  | nil => rw [retained, List.append_nil]
  | cons x' xs =>
    rw [retained, List.rtake, List.rtake, List.rtake, List.drop_drop, List.length_drop]
    congr 1
    omega

/-- The last arrival is left. -/
theorem mem_retained_concat (hn : 0 < n) (l xs : List α) (x : α) :
    x ∈ retained n l (xs ++ [x]) := by
  obtain ⟨k, rfl⟩ : ∃ k, n = k + 1 := Nat.exists_eq_succ_of_ne_zero (Nat.pos_iff_ne_zero.mp hn)
  rw [retained_concat hn, List.rtake_concat_succ]
  exact List.mem_append_right _ List.mem_cons_self

theorem length_rtake (n : ℕ) (l : List α) : (l.rtake n).length = min n l.length := by
  rw [List.rtake, List.length_drop, Nat.sub_sub_eq_min, Nat.min_comm]

end Newest
