import Mathlib.Data.List.DropRight
import Mathlib.Data.List.Rotate
import Mathlib.Data.Nat.Basic
import PipecatVoice.Lib.History

/-!
# The last few values of a stream, in a circular array

A sliding window keeps `n` cells, the index to write next and the number of
cells written since it was cleared. A push overwrites the oldest cell.
`contents` is what the window holds, oldest first; `contents_push` is the one
fact a development needs about it, together with `contents_perm`: a full window
holds its cells in some order. A development that keeps the history of the
pushes takes `contents_push_rtake` instead: the window holds its last values.
-/

/-- A circular array of the last values pushed. -/
structure SlidingWindow (α : Type) (n : ℕ) where
  /-- the cells -/
  cells : Vector α n
  /-- the cell written next -/
  next : Fin n
  /-- cells written since the window was cleared, at most all of them -/
  count : ℕ
  /-- no more cells are in use than there are -/
  count_le : count ≤ n

namespace SlidingWindow

variable {α : Type} {n : ℕ}

/-- The index after `i`, wrapping. -/
def wrapSucc (i : Fin n) : Fin n := ⟨(i + 1) % n, Nat.mod_lt _ (Nat.zero_lt_of_lt i.isLt)⟩

/-- Write the next cell. -/
def push (w : SlidingWindow α n) (a : α) : SlidingWindow α n where
  cells := w.cells.set w.next a
  next := wrapSucc w.next
  count := if w.count < n then w.count + 1 else w.count
  count_le := by
    have := w.count_le
    split <;> omega

/-- Forget everything: all cells become `a`. The next index stays. -/
def clear (w : SlidingWindow α n) (a : α) : SlidingWindow α n where
  cells := Vector.replicate n a
  next := w.next
  count := 0
  count_le := Nat.zero_le n

/-- The values held, oldest first. -/
def contents (w : SlidingWindow α n) : List α :=
  (w.cells.toList.rotate w.next).drop (n - w.count)

@[simp] theorem push_next (w : SlidingWindow α n) (a : α) :
    (w.push a).next = wrapSucc w.next := rfl

@[simp] theorem push_count (w : SlidingWindow α n) (a : α) :
    (w.push a).count = if w.count < n then w.count + 1 else w.count := rfl

@[simp] theorem clear_count (w : SlidingWindow α n) (a : α) : (w.clear a).count = 0 := rfl

@[simp] theorem length_contents (w : SlidingWindow α n) : w.contents.length = w.count := by
  have := w.count_le
  simp only [contents, List.length_drop, List.length_rotate, Vector.length_toList]
  omega

@[simp] theorem contents_clear (w : SlidingWindow α n) (a : α) : (w.clear a).contents = [] := by
  rw [← List.length_eq_zero_iff, length_contents, clear_count]

/-- Writing the cell where a rotated list begins moves that place to its end. -/
theorem rotate_set {l : List α} {i : ℕ} (hi : i < l.length) (a : α) :
    (l.set i a).rotate (i + 1) = (l.rotate i).tail ++ [a] := by
  have hlen : i + 1 ≤ (l.set i a).length := by
    rw [List.length_set]
    exact hi
  have htail : (l.drop i ++ l.take i).tail = l.drop (i + 1) ++ l.take i := by
    rw [List.drop_eq_getElem_cons hi, List.cons_append, List.tail_cons]
  rw [List.rotate_eq_drop_append_take hlen, List.rotate_eq_drop_append_take (Nat.le_of_lt hi),
    htail, List.drop_set_of_lt (Nat.lt_succ_self i), List.take_add_one, List.take_set,
    List.getElem?_set_self hi, List.append_assoc,
    List.set_eq_of_length_le (List.length_take_le i l)]
  rfl

theorem rotate_wrapSucc {l : List α} (hl : l.length = n) (i : Fin n) :
    l.rotate (wrapSucc i) = l.rotate (i + 1) := by
  rw [wrapSucc, ← List.rotate_mod l (i + 1), hl]

/-- **What a push does**: the value goes to the end, and out of a full window
the oldest one goes. -/
theorem contents_push (w : SlidingWindow α n) (a : α) :
    (w.push a).contents =
      (if w.count < n then w.contents else w.contents.tail) ++ [a] := by
  have hlen : w.cells.toList.length = n := Vector.length_toList
  have hnext : w.next < w.cells.toList.length := by rw [hlen]; exact w.next.isLt
  have hrot : (w.push a).cells.toList.rotate (w.push a).next =
      (w.cells.toList.rotate w.next).tail ++ [a] := by
    rw [push_next, rotate_wrapSucc Vector.length_toList, ← rotate_set hnext]
    rfl
  have hle := w.count_le
  have hpos : 0 < n := Nat.zero_lt_of_lt w.next.isLt
  rw [contents, hrot, push_count, contents]
  split
  · rename_i hlt
    rw [← List.drop_one, List.drop_append_of_le_length (by simp; omega), List.drop_drop]
    congr 2
    omega
  · have hcount : w.count = n := by omega
    simp [hcount]

/-- A full window holds its cells, in some order. -/
theorem contents_perm (w : SlidingWindow α n) (h : w.count = n) :
    w.contents.Perm w.cells.toList := by
  rw [contents, h, Nat.sub_self, List.drop_zero]
  exact List.rotate_perm _ _

/-- **The window is the tail of the history**, also after a push. -/
theorem contents_push_rtake {w : SlidingWindow α n} {l : List α} (h : w.contents = l.rtake n)
    (a : α) : (w.push a).contents = (l ++ [a]).rtake n := by
  rw [contents_push, History.rtake_concat (Nat.zero_lt_of_lt w.next.isLt), ← h, length_contents]

/-- It is full once the history is long enough. -/
theorem count_eq_iff {w : SlidingWindow α n} {l : List α} (h : w.contents = l.rtake n) :
    w.count = n ↔ n ≤ l.length := by
  have hcount : w.count = l.length - (l.length - n) := by
    rw [← length_contents, h, List.rtake, List.length_drop]
  omega

end SlidingWindow
