import Mathlib.Data.List.Basic

/-!
# Tables of slots

A table of a fixed number of slots, each free or taken by a key. A key enters
the first free slot, if it is not in the table yet and there is one.

* `enter`, `leave` — the operations;
* `mem_enter_iff` — when a key is in the table afterwards;
* `nodup_enter`, `nodup_leave` — no key takes two slots;
* `none_mem_of_length_keys_lt` — with fewer keys than slots, one is free.
-/

namespace SlotTable

universe u

variable {α : Type u}

/-- The keys in the table. -/
def keys (table : List (Option α)) : List α := table.filterMap id

/-- Take the first free slot. -/
def fill (key : α) : List (Option α) → List (Option α)
  | [] => []
  | none :: rest => some key :: rest
  | some k :: rest => some k :: fill key rest

theorem mem_keys {table : List (Option α)} {k : α} : k ∈ keys table ↔ some k ∈ table := by
  rw [keys, List.mem_filterMap]
  exact ⟨fun ⟨_, hmem, heq⟩ => heq ▸ hmem, fun hmem => ⟨some k, hmem, rfl⟩⟩

/-- The key is in the table if it was, or if a slot was free. -/
theorem mem_fill {key k : α} {table : List (Option α)} :
    some k ∈ fill key table ↔ some k ∈ table ∨ k = key ∧ none ∈ table := by
  induction table with
  | nil =>
    rw [fill]
    exact ⟨Or.inl, fun h => h.elim id fun h => absurd h.2 List.not_mem_nil⟩
  | cons slot rest ih =>
    cases slot with
    | none =>
      simp only [fill, List.mem_cons, Option.some.injEq, reduceCtorEq, false_or, true_or,
        and_true]
      exact or_comm
    | some k' =>
      simp only [fill, List.mem_cons, Option.some.injEq, reduceCtorEq, false_or, ih]
      exact or_assoc.symm

theorem nodup_fill {key : α} {table : List (Option α)} (hnew : some key ∉ table) :
    (keys table).Nodup → (keys (fill key table)).Nodup := by
  induction table with
  | nil => exact id
  | cons slot rest ih =>
    obtain ⟨hne, hrest⟩ := not_or.mp (mt List.mem_cons.mpr hnew)
    intro hnodup
    cases slot with
    | none =>
      rw [fill]
      exact List.nodup_cons.mpr ⟨mt mem_keys.mp hrest, hnodup⟩
    | some k =>
      obtain ⟨hfirst, htail⟩ := List.nodup_cons.mp hnodup
      refine List.nodup_cons.mpr ⟨fun hmem => ?_, ih hrest htail⟩
      rcases mem_fill.mp (mem_keys.mp hmem) with hold | ⟨rfl, -⟩
      · exact hfirst (mem_keys.mpr hold)
      · exact hne rfl

theorem length_fill (key : α) (table : List (Option α)) :
    (fill key table).length = table.length := by
  induction table with
  | nil => rfl
  | cons slot rest ih =>
    cases slot with
    | none => rfl
    | some k => exact congrArg (· + 1) ih

/-- **With fewer keys than slots**, a slot is free. -/
theorem none_mem_of_length_keys_lt {table : List (Option α)}
    (h : (keys table).length < table.length) : none ∈ table := by
  induction table with
  | nil => cases h
  | cons slot rest ih =>
    cases slot with
    | none => exact List.mem_cons_self
    | some k => exact List.mem_cons_of_mem _ (ih (Nat.lt_of_succ_lt_succ h))

variable [DecidableEq α]

/-- Enter a key that is not in the table yet. -/
def enter (key : α) (table : List (Option α)) : List (Option α) :=
  if some key ∈ table then table else fill key table

/-- Free the slots of a key. -/
def leave (key : α) (table : List (Option α)) : List (Option α) :=
  table.map fun slot => if slot = some key then none else slot

/-- **Entering** succeeds for a key that is in the table, or if a slot is free. -/
theorem mem_enter_iff {key : α} {table : List (Option α)} :
    some key ∈ enter key table ↔ some key ∈ table ∨ none ∈ table := by
  rw [enter]
  split
  · rename_i hmem
    exact ⟨fun _ => Or.inl hmem, fun _ => hmem⟩
  · rw [mem_fill, eq_self_iff_true, true_and]

/-- **No key takes two slots** when one enters. -/
theorem nodup_enter {table : List (Option α)} (h : (keys table).Nodup) (key : α) :
    (keys (enter key table)).Nodup := by
  rw [enter]
  split
  · exact h
  · rename_i hnew
    exact nodup_fill hnew h

theorem length_enter (key : α) (table : List (Option α)) :
    (enter key table).length = table.length := by
  rw [enter]
  split
  · rfl
  · exact length_fill key table

theorem length_leave (key : α) (table : List (Option α)) :
    (leave key table).length = table.length := List.length_map _

/-- No other key enters. -/
theorem mem_of_mem_enter {key k : α} {table : List (Option α)} (h : some k ∈ enter key table)
    (hne : k ≠ key) : some k ∈ table := by
  rw [enter] at h
  split at h
  · exact h
  · exact (mem_fill.mp h).resolve_right fun hkey => hne hkey.1

theorem keys_leave (key : α) (table : List (Option α)) :
    keys (leave key table) = (keys table).filter (· ≠ key) := by
  induction table with
  | nil => rfl
  | cons slot rest ih =>
    cases slot with
    | none => exact ih
    | some k =>
      rw [leave, List.map_cons, ← leave]
      by_cases hkey : k = key
      · rw [if_pos (congrArg some hkey)]
        exact ih.trans (List.filter_cons_of_neg (by simp [hkey])).symm
      · rw [if_neg fun h => hkey (Option.some.inj h)]
        exact (congrArg (k :: ·) ih).trans (List.filter_cons_of_pos (by simp [hkey])).symm

theorem mem_of_mem_leave {key k : α} {table : List (Option α)} (h : some k ∈ leave key table) :
    some k ∈ table := by
  rw [← mem_keys, keys_leave] at h
  exact mem_keys.mp (List.mem_of_mem_filter h)

/-- **No key takes two slots** when one leaves. -/
theorem nodup_leave {table : List (Option α)} (h : (keys table).Nodup) (key : α) :
    (keys (leave key table)).Nodup := by
  rw [keys_leave]
  exact h.filter _

end SlotTable
