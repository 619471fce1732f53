import Mathlib.Algebra.BigOperators.Group.List.Basic
import Mathlib.Algebra.Ring.Defs
import Mathlib.Data.List.DropRight
import Mathlib.Data.List.GetD
import PipecatVoice.Lib.SlidingWindow

/-!
# A FIR filter over a circular history

The plain form of a FIR filter is the dot product of its coefficients with the
last samples, oldest first, and with zeros before the first one (`direct`). An
implementation keeps the last samples in an array that it writes in a circle,
and sums two segments of it (`circular`).

`Holds` ties the array to the samples; `Holds.push` is the write of one sample,
and `Holds.circular_eq` the equality of the two forms.
-/

namespace Fir

variable {R : Type} [Semiring R] {coeffs cells past : List R} {ptr : ℕ}

/-- A window, oldest first, times the coefficients. -/
def dot (coeffs window : List R) : R := (List.zipWith (fun v c => v * c) window coeffs).sum

/-- The direct form: the output after the samples `past`. -/
def direct (coeffs past : List R) : R :=
  dot coeffs ((List.replicate coeffs.length 0 ++ past).rtake coeffs.length)

/-- Two loops: from `pos` to the end of the array, then from its beginning. -/
def circular (coeffs cells : List R) (pos : ℕ) : R :=
  let n := cells.length
  let z := (List.range (n - pos)).foldl
    (fun z i => z + cells.getD (pos + i) 0 * coeffs.getD i 0) 0
  (List.range pos).foldl (fun z k => z + cells.getD k 0 * coeffs.getD (n - pos + k) 0) z

theorem foldl_range_add (f : ℕ → R) (n : ℕ) (z : R) :
    (List.range n).foldl (fun z i => z + f i) z = z + ((List.range n).map f).sum := by
  induction n with
  | zero => simp
  | succ n ih =>
    rw [List.range_succ, List.foldl_append, ih, List.map_append, List.sum_append, ← add_assoc]
    simp

/-- A dot product, index by index. -/
theorem dot_eq_range {window : List R} (h : window.length = coeffs.length) :
    dot coeffs window =
      ((List.range window.length).map fun i => window.getD i 0 * coeffs.getD i 0).sum := by
  rw [dot]
  congr 1
  apply List.ext_getElem
  · simp [h]
  · intro i hi _
    have hwindow : i < window.length := by
      rw [List.length_zipWith] at hi
      exact lt_of_lt_of_le hi (min_le_left _ _)
    rw [List.getElem_zipWith, List.getElem_map, List.getElem_range,
      List.getD_eq_getElem window 0 hwindow, List.getD_eq_getElem coeffs 0 (h ▸ hwindow)]

theorem getD_rotate {i pos : ℕ} (hi : i < cells.length) :
    (cells.rotate pos).getD i 0 = cells.getD ((i + pos) % cells.length) 0 := by
  rw [List.getD_eq_getElem?_getD, List.getElem?_rotate hi, List.getD_eq_getElem?_getD]

/-- **The two loops are the dot product** of the array read in a circle. -/
theorem circular_eq_dot (hlen : coeffs.length = cells.length) {pos : ℕ}
    (hpos : pos < cells.length) : circular coeffs cells pos = dot coeffs (cells.rotate pos) := by
  have hsplit : cells.length = (cells.length - pos) + pos := by omega
  have hfirst : ∀ i ∈ List.range (cells.length - pos),
      (cells.rotate pos).getD i 0 * coeffs.getD i 0 =
        cells.getD (pos + i) 0 * coeffs.getD i 0 := by
    intro i hi
    rw [List.mem_range] at hi
    rw [getD_rotate (by omega), Nat.mod_eq_of_lt (by omega), Nat.add_comm]
  have hsecond : ∀ k ∈ List.range pos,
      (cells.rotate pos).getD (cells.length - pos + k) 0 * coeffs.getD (cells.length - pos + k) 0 =
        cells.getD k 0 * coeffs.getD (cells.length - pos + k) 0 := by
    intro k hk
    rw [List.mem_range] at hk
    have hwrap : cells.length - pos + k + pos = k + cells.length := by omega
    rw [getD_rotate (by omega), hwrap, Nat.add_mod_right, Nat.mod_eq_of_lt (by omega)]
  rw [dot_eq_range (by rw [List.length_rotate, hlen]), List.length_rotate, circular]
  rw [foldl_range_add, foldl_range_add, zero_add]
  conv_rhs => rw [hsplit, List.range_add, List.map_append, List.sum_append, List.map_map]
  rw [List.map_congr_left hfirst, ← List.map_congr_left hsecond]
  rfl

/-! ## The history -/

/-- The array holds the last samples, from `ptr` on in a circle. -/
structure Holds (cells : List R) (ptr : ℕ) (past : List R) : Prop where
  ptr_lt : ptr < cells.length
  window : cells.rotate ptr = (List.replicate cells.length 0 ++ past).rtake cells.length

theorem Holds.zero {n : ℕ} (hn : 0 < n) : Holds (List.replicate n (0 : R)) 0 [] := by
  refine ⟨by simpa using hn, ?_⟩
  rw [List.rotate_zero, List.append_nil, List.length_replicate, List.rtake, List.length_replicate,
    Nat.sub_self, List.drop_zero]

/-- **One sample is written**, and the index advances in a circle. -/
theorem Holds.push (h : Holds cells ptr past) (a : R) :
    Holds (cells.set ptr a) (if ptr + 1 ≥ cells.length then 0 else ptr + 1) (past ++ [a]) := by
  have hptr := h.ptr_lt
  have hturn : (cells.set ptr a).rotate (if ptr + 1 ≥ cells.length then 0 else ptr + 1) =
      (cells.set ptr a).rotate (ptr + 1) := by
    split
    · have hend : ptr + 1 = (cells.set ptr a).length := by
        rw [List.length_set]
        omega
      rw [hend, List.rotate_length, List.rotate_zero]
    · rfl
  have hlast : (List.replicate cells.length 0 ++ (past ++ [a])).rtake cells.length =
      ((List.replicate cells.length 0 ++ past).rtake cells.length).tail ++ [a] := by
    rw [← List.append_assoc, List.rtake, List.rtake, ← List.drop_one, List.drop_drop,
      List.length_append, List.length_append, List.length_replicate, List.length_singleton,
      ← List.drop_append_of_le_length]
    · congr 1
      omega
    · rw [List.length_append, List.length_replicate]
      omega
  refine ⟨?_, ?_⟩
  · rw [List.length_set]
    split <;> omega
  · rw [hturn, SlidingWindow.rotate_set hptr, h.window, List.length_set, hlast]

/-- **The circular filter computes the direct form.** -/
theorem Holds.circular_eq (h : Holds cells ptr past) (hlen : coeffs.length = cells.length) :
    circular coeffs cells ptr = direct coeffs past := by
  rw [circular_eq_dot hlen h.ptr_lt, h.window, direct, hlen]

end Fir
