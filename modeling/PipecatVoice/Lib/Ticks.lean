import Mathlib.Algebra.Group.Basic
import Mathlib.Data.Int.ModEq
import Mathlib.Data.UInt

/-!
# A tick counter of 32 bits

A counter that wraps compares two instants by the sign of their difference. A
plain unsigned comparison of the two values says the same as long as they are
less than half a turn apart as numbers, that is, as long as neither has wrapped
past the other.

* `lt_eq_isAfter_iff` — when the plain comparison is right;
* `toNat_ofNat_sub` — the unsigned difference of two instants.
-/

namespace Ticks

/-- The instant `n` is after the instant `d`, by the sign of their difference. -/
def isAfter (n d : UInt32) : Bool := 0 < (n - d).toInt32.toInt

theorem isAfter_iff (n d : UInt32) :
    isAfter n d ↔ 0 < (n - d).toNat ∧ (n - d).toNat < 2 ^ 31 := by
  have hsigned : (n - d).toInt32.toInt = ((n - d).toNat : ℤ).bmod (2 ^ 32) :=
    BitVec.toInt_eq_toNat_bmod _
  have hlt := (n - d).toNat_lt
  rw [isAfter, decide_eq_true_iff, hsigned, Int.bmod_def]
  split <;> omega

/-- **The plain comparison** is right exactly when the two values are less than
half a turn apart. -/
theorem lt_eq_isAfter_iff (n d : UInt32) : decide (d < n) = isAfter n d ↔
    n.toNat < d.toNat + 2 ^ 31 ∧ d.toNat ≤ n.toNat + 2 ^ 31 := by
  have hn := n.toNat_lt
  have hd := d.toNat_lt
  rw [Bool.eq_iff_iff, decide_eq_true_iff, isAfter_iff, UInt32.lt_iff_toNat_lt, UInt32.toNat_sub]
  rcases Nat.lt_or_ge d.toNat n.toNat with hlt | hge
  · have hmod : (2 ^ 32 - d.toNat + n.toNat) % 2 ^ 32 = n.toNat - d.toNat := by
      rw [Nat.mod_eq_sub_mod (by omega), Nat.mod_eq_of_lt (by omega)]
      omega
    rw [hmod]
    omega
  · rcases Nat.eq_or_lt_of_le hge with heq | hgt
    · rw [heq, Nat.sub_add_cancel (Nat.le_of_lt hd), Nat.mod_self]
      omega
    · rw [Nat.mod_eq_of_lt (by omega)]
      omega

/-- An instant within a window of less than half a turn is not after its end. -/
theorem not_isAfter_add {n t w : UInt32} (hw : w.toNat ≤ 2 ^ 31) (h : n - t ≤ w) :
    isAfter n (t + w) = false := by
  have he : (n - t).toNat ≤ w.toNat := UInt32.le_iff_toNat_le.mp h
  have hsub : n - (t + w) = n - t - w := sub_add_eq_sub_sub n t w
  rw [← Bool.not_eq_true, isAfter_iff, hsub, UInt32.toNat_sub]
  rcases Nat.eq_or_lt_of_le he with heq | hlt
  · rw [heq, Nat.sub_add_cancel (Nat.le_of_lt w.toNat_lt), Nat.mod_self]
    omega
  · rw [Nat.mod_eq_of_lt (by omega)]
    omega

/-- The unsigned difference of two instants of a counter that does not wrap. -/
theorem toNat_ofNat_sub (n r : ℕ) :
    ((UInt32.ofNat n - UInt32.ofNat r).toNat : ℤ) = ((n : ℤ) - r) % 2 ^ 32 := by
  rw [UInt32.toNat_sub, UInt32.toNat_ofNat', UInt32.toNat_ofNat']
  have hr := Nat.mod_lt r (Nat.two_pow_pos 32)
  push_cast [Nat.le_of_lt hr]
  omega

end Ticks
