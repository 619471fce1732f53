import Mathlib.Data.List.Infix

/-!
# A budget of attempts

Somebody tries again after each failure, up to `n` failures in a row, and anything but a failure
gives the whole budget back.

* `Budget`, `note` — the failures in a row, and whether the budget was ever used up;
* `le_failures_iff`, `spent_iff` — both, as stretches of failures in what has happened.
-/

namespace RetryBudget

/-- What is known after some attempts. -/
structure Budget where
  /-- the failures in a row -/
  failures : ℕ
  /-- there were too many of them, once -/
  spent : Bool

/-- Before the first attempt. -/
def Budget.whole : Budget := ⟨0, false⟩

variable {α : Type}

/-- A last failure makes the stretch at the end longer by one. -/
theorem replicate_suffix_concat_self {m : ℕ} {failure : α} {l : List α} :
    List.replicate (m + 1) failure <:+ l ++ [failure] ↔ List.replicate m failure <:+ l := by
  rw [List.replicate_succ', List.suffix_concat_iff]
  refine ⟨?_, fun h => Or.inr ⟨_, rfl, h⟩⟩
  rintro (h | ⟨t, heq, h⟩)
  · exact absurd h (List.append_ne_nil_of_right_ne_nil _ (List.cons_ne_nil _ _))
  · rwa [List.append_cancel_right heq]

/-- Anything else ends it. -/
theorem not_replicate_suffix_concat {m : ℕ} (hm : 0 < m) {failure a : α} (h : a ≠ failure)
    (l : List α) : ¬ List.replicate m failure <:+ l ++ [a] := by
  obtain ⟨m, rfl⟩ := Nat.exists_eq_succ_of_ne_zero hm.ne'
  rw [List.replicate_succ', List.suffix_concat_iff]
  rintro (hnil | ⟨t, heq, -⟩)
  · exact List.append_ne_nil_of_right_ne_nil _ (List.cons_ne_nil _ _) hnil
  · exact h (List.head_eq_of_cons_eq (List.append_inj_right' heq rfl)).symm

variable [DecidableEq α]

/-- One more attempt, of a budget of `n`. -/
def note (n : ℕ) (failure : α) (b : Budget) (a : α) : Budget :=
  if a = failure then ⟨b.failures + 1, b.spent || n ≤ b.failures + 1⟩
  else { b with failures := 0 }

/-- The failures in a row are those at the end. -/
theorem le_failures_iff (n : ℕ) (failure : α) (l : List α) :
    ∀ {m : ℕ}, m ≤ (l.foldl (note n failure) .whole).failures ↔
      List.replicate m failure <:+ l := by
  induction l using List.reverseRecOn with
  | nil =>
    intro m
    rw [List.suffix_nil, List.replicate_eq_nil_iff]
    exact Nat.le_zero
  | append_singleton l a ih =>
    intro m
    rw [List.foldl_concat, note]
    obtain rfl | hm := Nat.eq_zero_or_pos m
    · exact iff_of_true (Nat.zero_le _) (List.nil_suffix)
    · split
      · next heq =>
        obtain ⟨m, rfl⟩ := Nat.exists_eq_succ_of_ne_zero hm.ne'
        rw [heq, replicate_suffix_concat_self, ← ih]
        exact Nat.succ_le_succ_iff
      · next hne =>
        exact iff_of_false (Nat.not_le.mpr hm) (not_replicate_suffix_concat hm hne l)

/-- **A budget is used up** exactly when so many attempts failed in a row, at whatever time. -/
theorem spent_iff {n : ℕ} (hn : 0 < n) (failure : α) (l : List α) :
    (l.foldl (note n failure) .whole).spent ↔ List.replicate n failure <:+: l := by
  induction l using List.reverseRecOn with
  | nil =>
    rw [List.infix_nil, List.replicate_eq_nil_iff]
    exact iff_of_false Bool.false_ne_true hn.ne'
  | append_singleton l a ih =>
    have hlast := le_failures_iff n failure (l ++ [a]) (m := n)
    rw [List.foldl_concat, note] at hlast ⊢
    rw [List.infix_concat_iff, ← hlast, ← ih]
    split
    · simp only [Bool.or_eq_true, decide_eq_true_eq]
      exact or_comm
    · exact (or_iff_right (Nat.not_le.mpr hn)).symm

end RetryBudget
