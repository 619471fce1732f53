import Mathlib.Data.List.Basic
import Mathlib.Order.Lattice

/-!
# Overlapping windows of a stream

Windows of `size` items, one every `step` items. A reader that takes the stream in
pieces keeps what it has seen of the windows to come: `rest`, always shorter than a
window. `windows_append_short` and `windows_append_full` say what the next items
make of the windows and the rest; with them a reader is followed item by item or
piece by piece. With `step = size` the windows are blocks that do not overlap.
-/

/-- The size of the windows, and how far each is from the one before it. -/
structure Overlap where
  /-- items in a window -/
  size : ℕ
  /-- items from the start of one to the start of the next -/
  step : ℕ
  /-- windows do not stand still -/
  step_pos : 0 < step
  /-- no item is left out -/
  step_le : step ≤ size

namespace Overlap

variable {α : Type*} (o : Overlap)

/-- Blocks that do not overlap. -/
def blocks (n : ℕ) (h : 0 < n) : Overlap := ⟨n, n, h, Nat.le_refl n⟩

/-- How many windows there are in so many items. -/
def count (n : ℕ) : ℕ := if n < o.size then 0 else (n - o.size) / o.step + 1

/-- The window that starts at the `k`-th step. -/
def window (xs : List α) (k : ℕ) : List α := (xs.drop (k * o.step)).take o.size

/-- The windows of a list. -/
def windows (xs : List α) : List (List α) := (List.range (o.count xs.length)).map (o.window xs)

/-- What lies in the window after the last. -/
def rest (xs : List α) : List α := xs.drop (o.count xs.length * o.step)

theorem size_pos : 0 < o.size := lt_of_lt_of_le o.step_pos o.step_le

theorem lt_count {k n : ℕ} : k < o.count n ↔ k * o.step + o.size ≤ n := by
  have hpos := o.step_pos
  rw [count]
  split
  · exact iff_of_false (Nat.not_lt_zero k) (by omega)
  · rw [Nat.lt_succ_iff, Nat.le_div_iff_mul_le hpos]
    omega

theorem count_zero : o.count 0 = 0 := if_pos o.size_pos

theorem count_mul_le (n : ℕ) : o.count n * o.step ≤ n := by
  have hle := o.step_le
  rcases Nat.eq_zero_or_pos (o.count n) with hzero | hpos
  · rw [hzero, Nat.zero_mul]
    exact Nat.zero_le n
  · have hlast := o.lt_count.mp (Nat.sub_lt hpos Nat.one_pos)
    have hmul : o.count n * o.step = (o.count n - 1) * o.step + o.step := by
      rw [← Nat.succ_mul, Nat.succ_eq_add_one, Nat.sub_add_cancel hpos]
    omega

theorem length_windows (xs : List α) : (o.windows xs).length = o.count xs.length := by
  rw [windows, List.length_map, List.length_range]

theorem count_mono {m n : ℕ} (h : m ≤ n) : o.count m ≤ o.count n := by
  rcases Nat.eq_zero_or_pos (o.count m) with hzero | hpos
  · rw [hzero]
    exact Nat.zero_le _
  · have hlast := o.lt_count.mp (Nat.sub_lt hpos Nat.one_pos)
    have hstill := o.lt_count.mpr (hlast.trans h)
    omega

theorem length_rest (xs : List α) :
    (o.rest xs).length = xs.length - o.count xs.length * o.step := List.length_drop ..

/-- The rest is shorter than a window. -/
theorem rest_lt (xs : List α) : (o.rest xs).length < o.size := by
  have hno := mt o.lt_count.mpr (Nat.lt_irrefl (o.count xs.length))
  have hpos := o.size_pos
  rw [length_rest]
  omega

theorem rest_nil : o.rest ([] : List α) = [] := List.drop_nil

theorem windows_nil : o.windows ([] : List α) = [] := by
  rw [windows, List.length_nil, count_zero]
  rfl

theorem count_append_short {xs ys : List α} (h : (o.rest xs ++ ys).length < o.size) :
    o.count (xs ++ ys).length = o.count xs.length := by
  have hle := o.count_mul_le xs.length
  rw [List.length_append, length_rest] at h
  refine le_antisymm (Nat.not_lt.mp fun hlt => ?_) (Nat.not_lt.mp fun hlt => ?_)
  · have hfits := o.lt_count.mp hlt
    rw [List.length_append] at hfits
    omega
  · have hfits := (o.lt_count.mp hlt).trans (Nat.le_add_right xs.length ys.length)
    rw [← List.length_append] at hfits
    exact Nat.lt_irrefl _ (o.lt_count.mpr hfits)

theorem count_append_full {xs ys : List α} (h : (o.rest xs ++ ys).length = o.size) :
    o.count (xs ++ ys).length = o.count xs.length + 1 := by
  have hle := o.count_mul_le xs.length
  have hpos := o.step_pos
  rw [List.length_append, length_rest] at h
  refine le_antisymm (Nat.not_lt.mp fun hlt => ?_) (o.lt_count.mpr ?_)
  · have hfits := o.lt_count.mp hlt
    rw [List.length_append, Nat.succ_mul] at hfits
    omega
  · rw [List.length_append]
    omega

/-- A window that is full stays as it is. -/
theorem window_append {xs : List α} (ys : List α) {k : ℕ} (h : k < o.count xs.length) :
    o.window (xs ++ ys) k = o.window xs k := by
  have hfits := o.lt_count.mp h
  rw [window, window, List.drop_append_of_le_length (by omega),
    List.take_append_of_le_length (by rw [List.length_drop]; omega)]

theorem map_window_append (xs ys : List α) :
    (List.range (o.count xs.length)).map (o.window (xs ++ ys)) = o.windows xs :=
  List.map_congr_left fun _ hk => o.window_append ys (List.mem_range.mp hk)

/-- **Items that do not fill the next window** are added to the rest. -/
theorem windows_append_short {xs ys : List α} (h : (o.rest xs ++ ys).length < o.size) :
    o.windows (xs ++ ys) = o.windows xs ∧ o.rest (xs ++ ys) = o.rest xs ++ ys := by
  have hcount := o.count_append_short h
  refine ⟨?_, ?_⟩
  · rw [windows, hcount, map_window_append]
  · rw [rest, hcount, List.drop_append_of_le_length (o.count_mul_le _), rest]

/-- **Items that fill it** make it a window; the next one starts a step further on. -/
theorem windows_append_full {xs ys : List α} (h : (o.rest xs ++ ys).length = o.size) :
    o.windows (xs ++ ys) = o.windows xs ++ [o.rest xs ++ ys] ∧
      o.rest (xs ++ ys) = (o.rest xs ++ ys).drop o.step := by
  have hcount := o.count_append_full h
  have hdrop : (xs ++ ys).drop (o.count xs.length * o.step) = o.rest xs ++ ys :=
    List.drop_append_of_le_length (o.count_mul_le _)
  refine ⟨?_, ?_⟩
  · rw [windows, hcount, List.range_succ, List.map_append, map_window_append, List.map_singleton,
      window, hdrop, List.take_of_length_le h.le]
  · rw [rest, hcount, Nat.succ_mul, ← List.drop_drop, hdrop]

end Overlap
