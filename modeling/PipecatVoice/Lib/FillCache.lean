import Mathlib.Data.List.Basic
import Mathlib.Logic.Function.Basic

/-!
# A cache that is filled where it is empty

Each key has an entry or none. Filling a key makes its entry with `fresh` if
there is none yet, and never looks at an entry that is there. So an entry is the
one its key was first filled with (`fill_of_some`), and after filling it is fresh
exactly when there was none, or a fresh one (`fill_eq_fresh_iff`).
-/

namespace FillCache

variable {κ τ : Type*} [DecidableEq κ]

/-- Fill one key. -/
def fillOne (fresh : κ → τ) (cache : κ → Option τ) (k : κ) : κ → Option τ :=
  if (cache k).isSome then cache else Function.update cache k (some (fresh k))

/-- Fill keys, one after the other. -/
def fill (fresh : κ → τ) (cache : κ → Option τ) (ks : List κ) : κ → Option τ :=
  ks.foldl (fillOne fresh) cache

variable {fresh : κ → τ} {cache : κ → Option τ}

theorem fillOne_self (k : κ) :
    fillOne fresh cache k k = some ((cache k).getD (fresh k)) := by
  rw [fillOne]
  cases hk : cache k with
  | none => simp
  | some t => simp [hk]

theorem fillOne_of_ne {k k' : κ} (h : k' ≠ k) : fillOne fresh cache k k' = cache k' := by
  rw [fillOne]
  split
  · rfl
  · exact Function.update_of_ne h _ _

/-- **Filling**, one key at a time. -/
theorem fill_apply (ks : List κ) (k : κ) :
    fill fresh cache ks k =
      if k ∈ ks then some ((cache k).getD (fresh k)) else cache k := by
  induction ks generalizing cache with
  | nil => rw [if_neg List.not_mem_nil, fill, List.foldl_nil]
  | cons k' ks ih =>
    have hrest : fill fresh cache (k' :: ks) k = fill fresh (fillOne fresh cache k') ks k := rfl
    rw [hrest, ih]
    by_cases hk : k = k'
    · subst hk
      rw [fillOne_self, if_pos List.mem_cons_self, Option.getD_some, ite_self]
    · simp only [fillOne_of_ne hk, List.mem_cons, hk, false_or]

/-- An entry that is there stays. -/
theorem fill_of_some {ks : List κ} {k : κ} {t : τ} (h : cache k = some t) :
    fill fresh cache ks k = some t := by
  rw [fill_apply, h, Option.getD_some, ite_self]

/-- **Staleness**: a filled entry is fresh exactly when no other was there. -/
theorem fill_eq_fresh_iff {ks : List κ} {k : κ} (hk : k ∈ ks) :
    fill fresh cache ks k = some (fresh k) ↔ ∀ t, cache k = some t → t = fresh k := by
  rw [fill_apply, if_pos hk, Option.some_inj]
  cases hcache : cache k with
  | none => simp
  | some t => simp

/-- What holds of every entry and of the fresh ones holds of the entries after
filling. -/
theorem forall_fill {P : κ → τ → Prop} (hfresh : ∀ k, P k (fresh k))
    (hcache : ∀ k t, cache k = some t → P k t) (ks : List κ) :
    ∀ k t, fill fresh cache ks k = some t → P k t := by
  intro k t ht
  rw [fill_apply] at ht
  split at ht
  · cases hk : cache k with
    | none =>
      rw [hk, Option.getD_none, Option.some_inj] at ht
      rw [← ht]
      exact hfresh k
    | some t' =>
      rw [hk, Option.getD_some] at ht
      exact hcache k t (hk.trans ht)
  · exact hcache k t ht

end FillCache
