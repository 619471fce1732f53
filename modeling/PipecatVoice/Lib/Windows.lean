import Mathlib.Algebra.BigOperators.Group.List.Basic
import Mathlib.Algebra.Group.Basic
import Mathlib.Algebra.GroupWithZero.Nat
import Mathlib.Algebra.Order.BigOperators.Group.List
import Mathlib.Algebra.Order.Group.Nat
import Mathlib.Data.List.Basic

/-!
# Window sums from running sums

`cumsum` is the list of running sums, each with its own element in it;
`lagDiff n` subtracts from each entry the one `n` places earlier. Together they
give the sums of the windows of `n` elements, except that of the first one
(`lagDiff_cumsum`): the running sum before the first element is not in the list.

`cumsum_map` and `lagDiff_map` carry the two through any map that keeps sums
and differences, such as the one from the integers to a machine word.
-/

namespace Windows

variable {M N : Type*}

/-- The running sums, each with its own element. -/
def cumsum [Zero M] [Add M] (xs : List M) : List M := (xs.scanl (· + ·) 0).tail

/-- Each entry less the one `n` places earlier. -/
def lagDiff [Sub M] (n : ℕ) (ys : List M) : List M :=
  List.zipWith (· - ·) (ys.drop n) (ys.take (ys.length - n))

/-- The sum of the `n` elements from place `w` on. -/
def windowSum [Zero M] [Add M] (n : ℕ) (xs : List M) (w : ℕ) : M := ((xs.drop w).take n).sum

@[simp] theorem length_cumsum [Zero M] [Add M] (xs : List M) :
    (cumsum xs).length = xs.length := by
  simp [cumsum]

@[simp] theorem length_lagDiff [Sub M] (n : ℕ) (ys : List M) :
    (lagDiff n ys).length = ys.length - n := by
  simp [lagDiff]

theorem getElem_cumsum [AddCommMonoid M] {xs : List M} {i : ℕ} (h : i < (cumsum xs).length) :
    (cumsum xs)[i] = (xs.take (i + 1)).sum := by
  simp only [cumsum, List.getElem_tail, List.getElem_scanl]
  exact List.sum_eq_foldl.symm

/-- The elements up to the end of a window are those before it and its own. -/
theorem sum_take_add [AddMonoid M] (xs : List M) (w n : ℕ) :
    (xs.take (w + n)).sum = (xs.take w).sum + windowSum n xs w := by
  rw [List.take_add, List.sum_append, windowSum]

/-- **All windows but the first**: entry `i` of the differences is the sum of
the window that begins one place later. -/
theorem lagDiff_cumsum [AddCommGroup M] (n : ℕ) (xs : List M) :
    lagDiff n (cumsum xs) = (List.range (xs.length - n)).map fun i => windowSum n xs (i + 1) := by
  apply List.ext_getElem
  · simp
  · intro i h₁ h₂
    have hsplit := sum_take_add xs (i + 1) n
    have hplace : n + i + 1 = i + 1 + n := by omega
    simp only [lagDiff, List.getElem_zipWith, List.getElem_drop, List.getElem_take,
      getElem_cumsum, List.getElem_map, List.getElem_range]
    rw [hplace, hsplit, add_sub_cancel_left]

theorem cumsum_map [Zero M] [Add M] [Zero N] [Add N] {f : M → N} (hzero : f 0 = 0)
    (hadd : ∀ a b, f (a + b) = f a + f b) (xs : List M) :
    cumsum (xs.map f) = (cumsum xs).map f := by
  have hscan (acc : M) :
      (xs.map f).scanl (· + ·) (f acc) = (xs.scanl (· + ·) acc).map f := by
    induction xs generalizing acc with
    | nil => simp
    | cons x xs ih =>
      simp only [List.map_cons, List.scanl_cons, ← hadd]
      rw [ih]
  rw [cumsum, ← hzero, hscan, cumsum, List.map_tail]

theorem lagDiff_map [Sub M] [Sub N] {f : M → N} (hsub : ∀ a b, f (a - b) = f a - f b)
    (n : ℕ) (ys : List M) : lagDiff n (ys.map f) = (lagDiff n ys).map f := by
  simp only [lagDiff, List.length_map, ← List.map_drop, ← List.map_take,
    List.zipWith_map, List.map_zipWith, hsub]

/-- A window of a slice is a window of the whole. -/
theorem windowSum_slice [Zero M] [Add M] {n m : ℕ} (xs : List M) (s : ℕ) {d : ℕ}
    (h : d + n ≤ m) : windowSum n ((xs.drop s).take m) d = windowSum n xs (s + d) := by
  rw [windowSum, List.drop_take, List.take_take, List.drop_drop, windowSum]
  congr 2
  omega

/-- The test of the missing window: of three windows two are there. -/
example : lagDiff 2 (cumsum [9, 5, 2, 7]) = [(7 : ℤ), 9] := by decide

theorem windowSum_le {f : M → ℕ} {n b : ℕ} {xs : List M}
    (hb : ∀ x ∈ xs, f x ≤ b) (w : ℕ) : windowSum n (xs.map f) w ≤ n * b := by
  have hlen : ((xs.map f).drop w |>.take n).length ≤ n := List.length_take_le n _
  have hsum : ((xs.map f).drop w |>.take n).sum ≤ ((xs.map f).drop w |>.take n).length • b := by
    apply List.sum_le_card_nsmul
    intro y hy
    obtain ⟨x, hx, rfl⟩ := List.mem_map.mp (List.mem_of_mem_drop (List.mem_of_mem_take hy))
    exact hb x hx
  exact le_trans hsum (Nat.mul_le_mul_right b hlen)

/-- The index a search for a maximum finds, the first of the largest. -/
theorem maxIdxOn?_of_ne_nil {β : Type*} [LinearOrder β] {f : M → β} {xs : List M}
    (hne : xs ≠ []) :
    ∃ i, ∃ hi : i < xs.length, xs.maxIdxOn? f = some i ∧
      (∀ j, (hj : j < xs.length) → f xs[j] ≤ f xs[i]) ∧
      ∀ j, (hj : j < i) → f xs[j] < f xs[i] := by
  have hi := List.maxIdxOn_lt_length (f := f) hne
  refine ⟨xs.maxIdxOn f hne, hi, List.maxIdxOn?_eq_some_maxIdxOn hne, ?_, ?_⟩
  · intro j hj
    rw [List.getElem_maxIdxOn]
    exact List.le_apply_maxOn_of_mem (List.getElem_mem hj)
  · intro j hj
    have hlt := List.apply_maxOn_lt_apply_getElem_of_lt_maxIdxOn hne hj
    rw [List.getElem_maxIdxOn]
    exact hlt

end Windows
