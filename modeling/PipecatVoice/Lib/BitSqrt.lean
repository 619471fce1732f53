import Mathlib.Algebra.Order.Ring.Nat
import Mathlib.Analysis.Real.Sqrt
import Mathlib.Data.Nat.Sqrt
import Mathlib.Tactic.Linarith
import Mathlib.Tactic.Ring

/-!
# Integer square roots, bit by bit

The loop finds a root from its highest bit down. Before the bit of weight `2 ^ k`
is looked at, with `p` the bits of the root above it, the number that is left is
the radicand less the square of `p * 2 ^ (k + 1)`, and `res` is `p * 4 ^ (k + 1)`;
the trial subtrahend is `res` and the square of the bit.

* `loop` — the loop, on words of any width;
* `loop_spec` — what it leaves: the root, and the radicand less its square;
* `nearest` — a root rounded by what is left;
* `abs_nearest_sub_sqrt` — it is less than half away.
-/

namespace BitSqrt

variable {w : ℕ}

/-- As many turns of the loop, on what is left of the number, the root so far and
the square of the bit. -/
def loop : ℕ → BitVec w → BitVec w → BitVec w → BitVec w × BitVec w
  | 0, num, res, _ => (num, res)
  | k + 1, num, res, bit =>
    if res + bit ≤ num then loop k (num - (res + bit)) (res >>> 1 + bit) (bit >>> 2)
    else loop k num (res >>> 1) (bit >>> 2)

/-- A trial subtrahend is what the square grows by. -/
theorem sq_succ_bit (p k : ℕ) :
    ((2 * p + 1) * 2 ^ k) ^ 2 = (p * 2 ^ (k + 1)) ^ 2 + (p * 4 ^ (k + 1) + 4 ^ k) := by
  have hfour : (4 : ℕ) ^ k = 2 ^ k * 2 ^ k := by
    rw [← Nat.mul_pow]
  rw [pow_succ 4, pow_succ 2, hfour]
  ring

theorem sq_even_bit (p k : ℕ) : (p * 2 ^ (k + 1)) ^ 2 = (2 * p * 2 ^ k) ^ 2 := by
  rw [pow_succ 2]
  ring

theorem half_root (p k : ℕ) : p * 4 ^ (k + 1) / 2 = 2 * p * 4 ^ k := by
  have htwice : p * 4 ^ (k + 1) = 2 * p * 4 ^ k * 2 := by
    rw [pow_succ]
    ring
  rw [htwice, Nat.mul_div_cancel _ Nat.two_pos]

theorem quarter_bit {k : ℕ} {bit : BitVec w} (hbit : bit.toNat = 4 ^ k) :
    ∀ j, k = j + 1 → (bit >>> 2).toNat = 4 ^ j := by
  rintro j rfl
  rw [BitVec.toNat_ushiftRight, hbit, Nat.shiftRight_eq_div_pow, pow_succ]
  exact Nat.mul_div_cancel _ (by decide)

/-- **The loop**: with the bits `p` of the root known and `k` to come, it leaves the
root of `n` and what `n` has above its square. -/
theorem loop_spec {n : ℕ} : ∀ (k p : ℕ) {num res bit : BitVec w},
    res.toNat = p * 4 ^ k → num.toNat + (p * 2 ^ k) ^ 2 = n → n < ((p + 1) * 2 ^ k) ^ 2 →
      ((p + 1) * 2 ^ k) ^ 2 ≤ 2 ^ w → (∀ j, k = j + 1 → bit.toNat = 4 ^ j) →
        (loop k num res bit).2.toNat = n.sqrt ∧
          (loop k num res bit).1.toNat + n.sqrt ^ 2 = n := by
  intro k
  induction k with
  | zero =>
    intro p num res bit hres hnum hlt _ _
    simp only [pow_zero, Nat.mul_one] at hres hnum hlt
    have hroot : n.sqrt = p := by
      refine (Nat.eq_sqrt'.mpr ⟨?_, hlt⟩).symm
      omega
    exact ⟨hres.trans hroot.symm, hroot ▸ hnum⟩
  | succ k ih =>
    intro p num res bit hres hnum hlt hwidth hbit
    have hbitk := hbit k rfl
    have htop : (p + 1) * 2 ^ (k + 1) = (2 * p + 1 + 1) * 2 ^ k := by
      rw [pow_succ]
      ring
    have hgrow := sq_succ_bit p k
    have hodd : ((2 * p + 1) * 2 ^ k) ^ 2 < 2 ^ w := by
      refine lt_of_lt_of_le ?_ hwidth
      rw [htop]
      exact Nat.pow_lt_pow_left
        (Nat.mul_lt_mul_of_pos_right (Nat.lt_succ_self _) (Nat.two_pow_pos k)) (by decide)
    have htrial : (res + bit).toNat = p * 4 ^ (k + 1) + 4 ^ k := by
      rw [BitVec.toNat_add, hres, hbitk]
      exact Nat.mod_eq_of_lt (by omega)
    have hhalf : (res >>> 1).toNat = 2 * p * 4 ^ k := by
      rw [BitVec.toNat_ushiftRight, hres, Nat.shiftRight_eq_div_pow, pow_one, half_root]
    rw [loop]
    split
    · next hle =>
      rw [BitVec.le_def, htrial] at hle
      have hsub : (num - (res + bit)).toNat = num.toNat - (p * 4 ^ (k + 1) + 4 ^ k) := by
        rw [BitVec.toNat_sub_of_le (BitVec.le_def.mpr (htrial ▸ hle)), htrial]
      have hres' : (res >>> 1 + bit).toNat = (2 * p + 1) * 4 ^ k := by
        have hsum : 2 * p * 4 ^ k + 4 ^ k = (2 * p + 1) * 4 ^ k := by ring
        have hfits : (2 * p + 1) * 4 ^ k < 2 ^ w := by
          refine lt_of_le_of_lt ?_ hodd
          have hsq : ((2 * p + 1) * 2 ^ k) ^ 2 = (2 * p + 1) * ((2 * p + 1) * 4 ^ k) := by
            rw [show (4 : ℕ) = 2 ^ 2 from rfl, ← pow_mul, mul_comm 2 k, pow_mul]
            ring
          rw [hsq]
          exact Nat.le_mul_of_pos_left _ (Nat.succ_pos _)
        rw [BitVec.toNat_add, hhalf, hbitk, hsum, Nat.mod_eq_of_lt hfits]
      refine ih (2 * p + 1) hres' ?_ (htop ▸ hlt) (htop ▸ hwidth) (quarter_bit hbitk)
      omega
    · next hlt' =>
      rw [BitVec.le_def, htrial] at hlt'
      have heven := sq_even_bit p k
      refine ih (2 * p) hhalf (by omega) (by omega) ?_ (quarter_bit hbitk)
      exact hodd.le

/-! ## Rounding -/

/-- A root rounded to the nearest integer, by what is left. -/
def nearest (n : ℕ) : ℕ := if n.sqrt < n - n.sqrt ^ 2 then n.sqrt + 1 else n.sqrt

/-- It is nearer than its neighbours. -/
theorem nearest_spec (n : ℕ) : (nearest n = 0 ∨ nearest n ^ 2 + 1 ≤ n + nearest n) ∧
    n ≤ nearest n ^ 2 + nearest n := by
  have hlow := Nat.sqrt_le' n
  have hhigh : n < (n.sqrt + 1) ^ 2 := Nat.lt_succ_sqrt' n
  have hsq : (n.sqrt + 1) ^ 2 = n.sqrt ^ 2 + 2 * n.sqrt + 1 := by ring
  rw [nearest]
  split
  · exact ⟨.inr (by omega), by omega⟩
  · exact ⟨or_iff_not_imp_left.mpr fun hne => by omega, by omega⟩

/-- **The rounded root** is less than half away from the root. -/
theorem abs_nearest_sub_sqrt (n : ℕ) : |(nearest n : ℝ) - √n| < 1 / 2 := by
  obtain ⟨hlow, hhigh⟩ := nearest_spec n
  have hhigh : (n : ℝ) ≤ nearest n ^ 2 + nearest n := by exact_mod_cast hhigh
  have hpos : (0 : ℝ) ≤ nearest n := Nat.cast_nonneg _
  have hsq : √(n : ℝ) ^ 2 = n := Real.sq_sqrt (Nat.cast_nonneg n)
  have hroot := Real.sqrt_nonneg (n : ℝ)
  rw [abs_sub_lt_iff]
  refine ⟨?_, ?_⟩
  · obtain hzero | hlow := hlow
    · rw [hzero, Nat.cast_zero]
      linarith
    · have hlow : (nearest n : ℝ) ^ 2 + 1 ≤ n + nearest n := by exact_mod_cast hlow
      nlinarith
  · nlinarith

theorem nearest_le_iff {n m : ℕ} : nearest n ≤ m ↔ n ≤ m ^ 2 + m := by
  obtain ⟨hlow, hhigh⟩ := nearest_spec n
  refine ⟨fun h => ?_, fun h => ?_⟩
  · nlinarith
  · by_contra hlt
    have hlow := hlow.resolve_left (by omega)
    nlinarith

/-- **A root that must not exceed `top`** is less than one away, and less than half
away unless it had been rounded up past `top`. -/
theorem abs_min_nearest_sub_sqrt {n top : ℕ} (h : n < (top + 1) ^ 2) :
    |((min (nearest n) top : ℕ) : ℝ) - √n| < 1 ∧
      (|((min (nearest n) top : ℕ) : ℝ) - √n| < 1 / 2 ↔ n ≤ top ^ 2 + top) := by
  by_cases hfits : nearest n ≤ top
  · have hnear := abs_nearest_sub_sqrt n
    rw [Nat.min_eq_left hfits]
    exact ⟨hnear.trans (by norm_num), iff_of_true hnear (nearest_le_iff.mp hfits)⟩
  · have hout := mt nearest_le_iff.mpr hfits
    have hlow : (top : ℝ) ^ 2 + top + 1 ≤ n := by exact_mod_cast Nat.not_le.mp hout
    have hhigh : (n : ℝ) < (top + 1) ^ 2 := by exact_mod_cast h
    have hpos : (0 : ℝ) ≤ top := Nat.cast_nonneg _
    have hsq : √(n : ℝ) ^ 2 = n := Real.sq_sqrt (Nat.cast_nonneg n)
    have hroot := Real.sqrt_nonneg (n : ℝ)
    have hbelow : (top : ℝ) + 1 / 2 < √n := by nlinarith
    have habove : √(n : ℝ) < top + 1 := by nlinarith
    rw [Nat.min_eq_right (by omega), abs_sub_comm, abs_of_nonneg (by linarith)]
    exact ⟨by linarith, iff_of_false (by linarith) hout⟩

end BitSqrt
