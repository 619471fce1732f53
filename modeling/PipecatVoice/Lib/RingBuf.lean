import Mathlib.Data.List.Basic
import Mathlib.Data.Int.ModEq

/-!
# A bounded queue in a circular array

A ring buffer keeps the index of its oldest cell and the number of cells in use.
A push into a full ring overwrites the oldest cell. `toList` is the queue it
stands for, oldest first; `toList_push`, `toList_pop` and `toList_clear` are what
the operations do to it.
-/

/-- A ring buffer of `n` cells. -/
structure RingBuf (α : Type) (n : ℕ) where
  /-- the cells -/
  cells : Vector α n
  /-- the oldest cell in use -/
  head : Fin n
  /-- cells in use -/
  count : ℕ
  /-- no more cells are in use than there are -/
  count_le : count ≤ n

namespace RingBuf

variable {α : Type} {n : ℕ}

@[simp] theorem get_set_self (v : Vector α n) (i : Fin n) (a : α) : (v.set i a).get i = a :=
  Vector.getElem_set_self _

theorem get_set_of_ne (v : Vector α n) {i j : Fin n} (h : i ≠ j) (a : α) :
    (v.set i a).get j = v.get j :=
  Vector.getElem_set_ne _ _ (Fin.val_ne_of_ne h)

theorem pos (r : RingBuf α n) : 0 < n := Nat.zero_lt_of_lt r.head.isLt

/-- The place of the cell `i` after the oldest one. -/
def slot (r : RingBuf α n) (i : ℕ) : Fin n := ⟨(r.head + i) % n, Nat.mod_lt _ r.pos⟩

/-- The queue, oldest first. -/
def toList (r : RingBuf α n) : List α := (List.range r.count).map fun i => r.cells.get (r.slot i)

/-- Append a value; a full ring drops its oldest one. -/
def push (r : RingBuf α n) (a : α) : RingBuf α n where
  cells := r.cells.set (r.slot r.count) a
  head := if r.count < n then r.head else r.slot 1
  count := if r.count < n then r.count + 1 else r.count
  count_le := by
    have := r.count_le
    split <;> omega

/-- Forget the oldest value. -/
def drop (r : RingBuf α n) : RingBuf α n where
  cells := r.cells
  head := r.slot 1
  count := r.count - 1
  count_le := Nat.le_trans (Nat.sub_le _ _) r.count_le

/-- Take the oldest value out. -/
def pop (r : RingBuf α n) : Option (α × RingBuf α n) :=
  if r.count = 0 then none else some (r.cells.get (r.slot 0), r.drop)

/-- Forget everything. -/
def clear (r : RingBuf α n) : RingBuf α n where
  cells := r.cells
  head := ⟨0, r.pos⟩
  count := 0
  count_le := Nat.zero_le n

@[simp] theorem push_count (r : RingBuf α n) (a : α) :
    (r.push a).count = if r.count < n then r.count + 1 else r.count := rfl

@[simp] theorem push_head (r : RingBuf α n) (a : α) :
    (r.push a).head = if r.count < n then r.head else r.slot 1 := rfl

@[simp] theorem drop_count (r : RingBuf α n) : r.drop.count = r.count - 1 := rfl

@[simp] theorem length_toList (r : RingBuf α n) : r.toList.length = r.count := by
  rw [toList, List.length_map, List.length_range]

@[simp] theorem toList_clear (r : RingBuf α n) : r.clear.toList = [] := rfl

/-- Two offsets less than a turn apart are different cells. -/
theorem slot_ne (r : RingBuf α n) {i j : ℕ} (hij : i < j) (hjn : j < i + n) :
    r.slot j ≠ r.slot i := by
  intro heq
  have hmod : r.head + i ≡ r.head + j [MOD n] := (Fin.ext_iff.mp heq).symm
  have hdvd : n ∣ (r.head + j) - (r.head + i) := (Nat.modEq_iff_dvd' (by omega)).mp hmod
  have hle := Nat.le_of_dvd (by omega) hdvd
  omega

theorem slot_congr {r r' : RingBuf α n} (h : r'.head = r.head) (i : ℕ) :
    r'.slot i = r.slot i := by
  simp only [slot, h]

/-- A ring whose head moved on by one counts its places from the next one. -/
theorem slot_succ {r r' : RingBuf α n} (h : r'.head = r.slot 1) (i : ℕ) :
    r'.slot i = r.slot (i + 1) := by
  have hplace : (r'.head + i) % n = (r.head + (i + 1)) % n := by
    rw [h, slot, Nat.mod_add_mod]
    congr 1
    omega
  exact Fin.ext hplace

/-- **A push**: the value goes to the end, and out of a full ring the oldest one
goes. -/
theorem toList_push (r : RingBuf α n) (a : α) :
    (r.push a).toList = (if r.count < n then r.toList else r.toList.tail) ++ [a] := by
  have hle := r.count_le
  have hpos := r.pos
  have hnew : (r.push a).cells.get (r.slot r.count) = a := get_set_self _ _ _
  have hold : ∀ i, r.slot r.count ≠ r.slot i →
      (r.push a).cells.get (r.slot i) = r.cells.get (r.slot i) :=
    fun i hi => get_set_of_ne _ hi _
  by_cases hfew : r.count < n
  · have hslot : ∀ i, (r.push a).slot i = r.slot i :=
      slot_congr (by rw [push_head, if_pos hfew])
    rw [if_pos hfew, toList, push_count, if_pos hfew, List.range_succ, List.map_append,
      List.map_singleton, hslot, hnew, toList]
    congr 1
    refine List.map_congr_left ?_
    intro i hi
    have hi := List.mem_range.mp hi
    rw [hslot, hold i (r.slot_ne hi (by omega))]
  · -- a full ring writes over its oldest cell and moves on to the next one
    obtain ⟨k, hk⟩ : ∃ k, r.count = k + 1 := ⟨r.count - 1, by omega⟩
    have hslot : ∀ i, (r.push a).slot i = r.slot (i + 1) :=
      slot_succ (by rw [push_head, if_neg hfew])
    have htail : r.toList.tail = (List.range k).map fun i => r.cells.get (r.slot (i + 1)) := by
      rw [toList, hk, List.range_succ_eq_map, List.map_cons, List.tail_cons, List.map_map]
      rfl
    have hpush : (r.push a).toList =
        (List.range (k + 1)).map fun i => (r.push a).cells.get (r.slot (i + 1)) := by
      rw [toList, push_count, if_neg hfew, hk]
      exact List.map_congr_left fun i _ => by rw [hslot]
    rw [if_neg hfew, htail, hpush, List.range_succ, List.map_append, List.map_singleton, ← hk,
      hnew]
    congr 1
    refine List.map_congr_left ?_
    intro i hi
    have hi := List.mem_range.mp hi
    exact hold (i + 1) (r.slot_ne (by omega) (by omega))

theorem toList_drop (r : RingBuf α n) : r.drop.toList = r.toList.tail := by
  have hslot : ∀ i, r.drop.slot i = r.slot (i + 1) := slot_succ rfl
  rcases hcount : r.count with _ | k
  · simp [toList, hcount]
  · rw [toList, toList, drop_count, hcount, Nat.add_sub_cancel, List.range_succ_eq_map,
      List.map_cons, List.tail_cons, List.map_map]
    refine List.map_congr_left ?_
    intro i _
    rw [hslot]
    rfl

/-- **A pop** takes the oldest value. -/
theorem toList_pop {r r' : RingBuf α n} {a : α} (h : r.pop = some (a, r')) :
    r.toList = a :: r'.toList := by
  rw [pop] at h
  split at h
  · exact absurd h (by simp)
  · rename_i hne
    obtain ⟨rfl, rfl⟩ : r.cells.get (r.slot 0) = a ∧ r.drop = r' := by simpa using h
    obtain ⟨k, hk⟩ := Nat.exists_eq_succ_of_ne_zero hne
    rw [toList_drop, toList, hk, Nat.succ_eq_add_one, List.range_succ_eq_map, List.map_cons,
      List.tail_cons]

end RingBuf
