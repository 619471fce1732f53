import Mathlib.Algebra.Order.Ring.Int
import Mathlib.Algebra.Order.Ring.Nat
import Mathlib.Data.Nat.Sqrt
import Mathlib.Logic.Function.Iterate
import Mathlib.Tactic.Linarith
import Mathlib.Tactic.Ring

/-!
# Integer square roots by Newton's method

One step takes a guess `g` at the square root of `m` to the mean of `g` and
`m / g`, with truncating divisions. From the first step on no guess is below
`Nat.sqrt m`.

* `newton` — one step;
* `sqrt_le_newton`, `newton_le_max` — no guess is too small, and none grows;
* `Near.iterate` — the relative error of a guess, in parts of any `d`;
* `iterate_le_bound` — what the guesses for a larger number say about a smaller one;
* `newton_lt` — when a step stays below a number that `m` is below the square of.
-/

namespace NewtonSqrt

variable {m M g U T d ρ ρ' : ℕ}

/-- One step towards the square root of `m`. -/
def newton (m g : ℕ) : ℕ := (g + m / g) / 2

theorem two_mul_newton_le (m g : ℕ) : 2 * newton m g ≤ g + m / g :=
  Nat.mul_div_le (g + m / g) 2

/-- **No guess is too small** after a step. -/
theorem sqrt_le_newton (hg : 0 < g) : Nat.sqrt m ≤ newton m g := by
  have hsq := Nat.sqrt_le m
  rw [newton, Nat.le_div_iff_mul_le (by norm_num)]
  rcases Nat.le_total (Nat.sqrt m * 2) g with hle | hle
  · exact hle.trans (Nat.le_add_right _ _)
  · obtain ⟨e, he⟩ := Nat.exists_eq_add_of_le hle
    have hdiv : e ≤ m / g := by
      rw [Nat.le_div_iff_mul_le hg]
      zify at he hsq ⊢
      nlinarith [sq_nonneg ((Nat.sqrt m : ℤ) - g)]
    rw [he]
    exact Nat.add_le_add_left hdiv g

theorem newton_sqrt_le (m : ℕ) : newton m (Nat.sqrt m) ≤ Nat.sqrt m + 1 := by
  rcases Nat.eq_zero_or_pos (Nat.sqrt m) with hzero | hpos
  · rw [newton, hzero]
    simp
  · have hdiv : m / Nat.sqrt m < Nat.sqrt m + 3 := by
      rw [Nat.div_lt_iff_lt_mul hpos]
      have hle := Nat.sqrt_le_add m
      nlinarith only [hle, hpos]
    rw [newton]
    omega

/-- **No guess grows**, but for the square root itself, and that by one. -/
theorem newton_le_max (hg : Nat.sqrt m ≤ g) : newton m g ≤ max g (Nat.sqrt m + 1) := by
  rcases Nat.eq_or_lt_of_le hg with rfl | hlt
  · exact (newton_sqrt_le m).trans (le_max_right _ _)
  · have hdiv : m / g ≤ g := by
      apply Nat.div_le_of_le_mul
      exact Nat.le_of_lt (Nat.sqrt_lt.mp hlt)
    have htwo := two_mul_newton_le m g
    refine le_trans ?_ (le_max_left _ _)
    omega

theorem sqrt_le_iterate (hg : Nat.sqrt m ≤ g) (hm : 0 < m) (k : ℕ) :
    Nat.sqrt m ≤ (newton m)^[k] g := by
  cases k with
  | zero => exact hg
  | succ k =>
    rw [Function.iterate_succ_apply']
    apply sqrt_le_newton
    exact (Nat.sqrt_pos.mpr hm).trans_le (sqrt_le_iterate hg hm k)

theorem sqrt_le_iterate_succ (hg : 0 < g) (hm : 0 < m) (k : ℕ) :
    Nat.sqrt m ≤ (newton m)^[k + 1] g := by
  rw [Function.iterate_succ_apply]
  exact sqrt_le_iterate (sqrt_le_newton hg) hm k

/-! ## The relative error -/

/-- The guess is within one of the square root, or at most `ρ / d` times too large. -/
def Near (d ρ m g : ℕ) : Prop := g ≤ Nat.sqrt m + 1 ∨ d * g ≤ ρ * (Nat.sqrt m + 1)

/-- The error after a step, for an error of `ρ / d` before it. -/
def nextError (d ρ : ℕ) : ℕ := (ρ * ρ + d * d) / (2 * ρ) + 1

theorem lt_nextError (hρ : 0 < ρ) : ρ * ρ + d * d < 2 * ρ * nextError d ρ :=
  Nat.lt_mul_div_succ _ (by omega)

theorem le_nextError (hρ : 0 < ρ) : d ≤ nextError d ρ := by
  apply Nat.le_succ_of_le
  rw [Nat.le_div_iff_mul_le (by omega)]
  zify
  nlinarith only [sq_nonneg ((ρ : ℤ) - d)]

/-- A step from a guess that is at most `ρ / d` times too large or too small. -/
theorem newton_le_of_ratio (hg : 0 < g) (hρ : 0 < ρ)
    (hlarge : d * g ≤ ρ * (Nat.sqrt m + 1)) (hsmall : d * (Nat.sqrt m + 1) ≤ ρ * g) :
    d * newton m g ≤ nextError d ρ * (Nat.sqrt m + 1) := by
  have hnext := lt_nextError (d := d) hρ
  have hm : m ≤ (Nat.sqrt m + 1) * (Nat.sqrt m + 1) := (Nat.lt_succ_sqrt m).le
  have htwo := two_mul_newton_le m g
  have hdiv : g * (m / g) ≤ m := Nat.mul_div_le m g
  generalize Nat.sqrt m + 1 = T at *
  generalize newton m g = g' at *
  generalize nextError d ρ = ρ' at *
  -- the product of the two distances is not positive, and `T * T` stands for `m`
  have hbetween : d * ρ * (g * g + T * T) ≤ (ρ * ρ + d * d) * (g * T) := by
    zify at hlarge hsmall ⊢
    nlinarith only [mul_nonneg (sub_nonneg.mpr hlarge) (sub_nonneg.mpr hsmall)]
  have hscaled : d * (g * g + T * T) ≤ 2 * ρ' * (g * T) := by
    apply Nat.le_of_mul_le_mul_left _ hρ
    calc ρ * (d * (g * g + T * T)) = d * ρ * (g * g + T * T) := by ring
      _ ≤ (ρ * ρ + d * d) * (g * T) := hbetween
      _ ≤ 2 * ρ * ρ' * (g * T) := Nat.mul_le_mul_right _ hnext.le
      _ = ρ * (2 * ρ' * (g * T)) := by ring
  have hstep : g * (2 * g') ≤ g * g + T * T := by
    calc g * (2 * g') ≤ g * (g + m / g) := Nat.mul_le_mul_left g htwo
      _ = g * g + g * (m / g) := by ring
      _ ≤ g * g + T * T := Nat.add_le_add_left (hdiv.trans hm) _
  apply Nat.le_of_mul_le_mul_left _ (Nat.mul_pos two_pos hg)
  calc 2 * g * (d * g') = d * (g * (2 * g')) := by ring
    _ ≤ d * (g * g + T * T) := Nat.mul_le_mul_left d hstep
    _ ≤ 2 * ρ' * (g * T) := hscaled
    _ = 2 * g * (ρ' * T) := by ring

/-- **One step** keeps the guess near, with the next error. -/
theorem Near.step (h : Near d ρ m g) (hg : Nat.sqrt m ≤ g) (hρ : 0 < ρ) (hd : d ≤ ρ) :
    Near d (nextError d ρ) m (newton m g) := by
  by_cases hle : g ≤ Nat.sqrt m + 1
  · left
    exact (newton_le_max hg).trans (max_le hle le_rfl)
  · right
    have hlarge : d * g ≤ ρ * (Nat.sqrt m + 1) := h.resolve_left hle
    have hsmall : d * (Nat.sqrt m + 1) ≤ ρ * g := Nat.mul_le_mul hd (by omega)
    exact newton_le_of_ratio (by omega) hρ hlarge hsmall

/-- **Any number of steps** keep the guess near. -/
theorem Near.iterate (hm : 0 < m) (hg : Nat.sqrt m ≤ g) (hd : 0 < d) (hρ : d ≤ ρ)
    (h : Near d ρ m g) (k : ℕ) : Near d ((nextError d)^[k] ρ) m ((newton m)^[k] g) := by
  have herror : ∀ k, d ≤ (nextError d)^[k] ρ := by
    intro k
    induction k with
    | zero => exact hρ
    | succ k ih =>
      rw [Function.iterate_succ_apply']
      exact le_nextError (hd.trans_le ih)
  induction k with
  | zero => exact h
  | succ k ih =>
    rw [Function.iterate_succ_apply', Function.iterate_succ_apply']
    exact ih.step (sqrt_le_iterate hg hm k) (hd.trans_le (herror k)) (herror k)

/-- **From a first guess** that is at most `ρ / d` times too large or too small. -/
theorem near_iterate (hm : 0 < m) (hg : 0 < g) (hd : 0 < d) (hρ : d ≤ ρ)
    (hlarge : d * g ≤ ρ * (Nat.sqrt m + 1)) (hsmall : d * (Nat.sqrt m + 1) ≤ ρ * g) (k : ℕ) :
    Near d ((nextError d)^[k + 1] ρ) m ((newton m)^[k + 1] g) := by
  have hpos : 0 < ρ := hd.trans_le hρ
  rw [Function.iterate_succ_apply, Function.iterate_succ_apply]
  exact Near.iterate hm (sqrt_le_newton hg) hd (le_nextError hpos)
    (Or.inr (newton_le_of_ratio hg hpos hlarge hsmall)) k

/-! ## Bounds from a larger number -/

/-- The next bound on a guess at the square root of anything up to `M`. -/
def nextBound (M T U : ℕ) : ℕ := max (newton M U) T

theorem div_le_div_add (hg : 0 < g) (hgU : g ≤ U) (hM : M ≤ g * U) :
    M / g ≤ M / U + (U - g) := by
  obtain ⟨e, rfl⟩ := Nat.exists_eq_add_of_le hgU
  have hdiv : g * (M / g) ≤ M := Nat.mul_div_le M g
  have hle : M / g ≤ g + e := Nat.div_le_of_le_mul hM
  rw [Nat.add_sub_cancel_left, ← Nat.sub_le_iff_le_add, Nat.le_div_iff_mul_le (by omega)]
  rcases Nat.le_total (M / g) e with hsmall | hlarge
  · rw [Nat.sub_eq_zero_of_le hsmall, Nat.zero_mul]
    exact Nat.zero_le M
  · obtain ⟨q, hq⟩ := Nat.exists_eq_add_of_le hlarge
    rw [hq] at hdiv hle ⊢
    rw [Nat.add_sub_cancel_left]
    nlinarith only [hdiv, hle]

/-- **One step** for a smaller number and a smaller guess. -/
theorem newton_le_nextBound (hm : m ≤ M) (hM : M < T * T) (hg : Nat.sqrt m ≤ g) (hgU : g ≤ U) :
    newton m g ≤ nextBound M T U := by
  by_cases hsmall : g ≤ Nat.sqrt M
  · have hroot : Nat.sqrt M + 1 ≤ T := Nat.sqrt_lt.mpr hM
    have hmono := Nat.sqrt_le_sqrt hm
    refine (newton_le_max hg).trans (le_trans ?_ (le_max_right _ _))
    exact max_le (by omega) (by omega)
  · have hpos : 0 < g := by omega
    have hlt : M < g * g := Nat.sqrt_lt.mp (not_le.mp hsmall)
    have hdiv : m / g ≤ M / U + (U - g) :=
      (Nat.div_le_div_right hm).trans
        (div_le_div_add hpos hgU (hlt.le.trans (Nat.mul_le_mul_left g hgU)))
    refine le_trans ?_ (le_max_left _ _)
    apply Nat.div_le_div_right
    omega

/-- **Any number of steps** for a smaller number and a smaller guess. -/
theorem iterate_le_bound (hm : m ≤ M) (hM : M < T * T) (hpos : 0 < m) (hg : Nat.sqrt m ≤ g)
    (hgU : g ≤ U) (k : ℕ) : (newton m)^[k] g ≤ (nextBound M T)^[k] U := by
  induction k with
  | zero => exact hgU
  | succ k ih =>
    rw [Function.iterate_succ_apply', Function.iterate_succ_apply']
    exact newton_le_nextBound hm hM (sqrt_le_iterate hg hpos k) ih

/-- **Below `T`**: a step from `T` or less goes below it, unless `m` is the last number
below the square of `T` and the guess its square root. -/
theorem newton_lt (hm : m < T * T) (hg : Nat.sqrt m ≤ g) (hpos : 0 < g) (hgT : g ≤ T)
    (hlast : m + 1 ≠ T * T) : newton m g < T := by
  have htwo := two_mul_newton_le m g
  rcases Nat.eq_or_lt_of_le hgT with rfl | hlt
  · have hdiv : m / g < g := (Nat.div_lt_iff_lt_mul hpos).mpr hm
    omega
  · rcases Nat.eq_or_lt_of_le (Nat.succ_le_of_lt hlt) with heq | hlow
    · have hsquare : (g + 1) * (g + 1) = (g + 2) * g + 1 := by ring
      obtain rfl : g + 1 = T := heq
      have hdiv : m / g < g + 2 := by
        rw [Nat.div_lt_iff_lt_mul hpos]
        omega
      omega
    · have hle := newton_le_max hg
      omega

end NewtonSqrt
