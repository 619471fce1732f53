import Mathlib.Algebra.Group.Nat.Defs
import Mathlib.Data.Int.Notation
import Mathlib.Data.Nat.Notation

/-!
# Stamps of a clock that wraps

A clock that counts modulo `M`, and stamps that were taken from it, with zero for none. The
age of a stamp is computed as a plain difference of two values, and held against two
bounds.

* `since` — the computed age;
* `Clear` — what the two instants are to each other when it is on the right side of both
  bounds;
* `clear_iff` — it is so then, and only then.
-/

namespace Stamps

variable {M now stamp : ℕ} {never lo hi : ℤ}

/-- The age of a stamp as it is computed, and `never` for the value zero. -/
def since (never now stamp : ℤ) : ℤ := if stamp = 0 then never else now - stamp

/-- The age of a stamp. -/
def age (now stamp : ℕ) : ℤ := (now : ℤ) - stamp

/-- The difference of the two values. -/
def apart (M now stamp : ℕ) : ℤ := ((now % M : ℕ) : ℤ) - (stamp % M : ℕ)

/-- The two instants are clear of the clock's wraps, as far as the bounds are concerned. -/
def Clear (M : ℕ) (lo hi : ℤ) (now stamp : ℕ) : Prop :=
  -- a stamp that reads as none has to be old
  if stamp % M = 0 then hi ≤ age now stamp
  else if stamp / M = now / M then True
  -- a wrap since: the stamp is recent, or the clock is as far past its value again
  else if stamp / M < now / M then age now stamp < lo ∨ hi ≤ apart M now stamp
  -- the stamp is the later one, and a wrap between
  else apart M now stamp < lo

instance : Decidable (Clear M lo hi now stamp) := by
  delta Clear
  infer_instance

/-- The clock's values differ by the age, up to the wraps between. -/
theorem age_eq (M now stamp : ℕ) :
    age now stamp = apart M now stamp + ((M * (now / M) : ℕ) - (M * (stamp / M) : ℕ)) := by
  have hnow := Nat.mod_add_div now M
  have hstamp := Nat.mod_add_div stamp M
  rw [age, apart]
  omega

theorem apart_lt (hM : 0 < M) : apart M now stamp < M := by
  have hlt := Nat.mod_lt now hM
  rw [apart]
  omega

/-- A later turn of the clock is at least a whole turn later. -/
theorem turn_le (M : ℕ) {p q : ℕ} (h : p < q) : M * p + M ≤ M * q := by
  rw [← Nat.mul_succ]
  exact Nat.mul_le_mul_left M h

/-- **The computed age** is on the right side of both bounds exactly when the instants are
clear of the wraps. -/
theorem clear_iff (hlo : 0 ≤ lo) (hle : lo ≤ hi) (hM : hi < M) (hnever : hi ≤ never) :
    Clear M lo hi now stamp ↔
      (since never (now % M : ℕ) (stamp % M : ℕ) < lo ↔ age now stamp < lo) ∧
        (since never (now % M : ℕ) (stamp % M : ℕ) < hi ↔ age now stamp < hi) := by
  have hage := age_eq M now stamp
  have hpos : 0 < M := by omega
  have hapart : apart M now stamp < M := apart_lt hpos
  rw [Clear]
  by_cases hzero : stamp % M = 0
  · have hsince : since never (now % M : ℕ) (stamp % M : ℕ) = never := if_pos (by omega)
    rw [if_pos hzero, hsince]
    omega
  have hsince : since never (now % M : ℕ) (stamp % M : ℕ) = apart M now stamp :=
    if_neg (by omega)
  rw [if_neg hzero, hsince]
  by_cases hsame : stamp / M = now / M
  · rw [hsame] at hage
    simp only [hsame, if_true, true_iff]
    omega
  rw [if_neg hsame]
  by_cases hlater : stamp / M < now / M
  · have hturn := turn_le M hlater
    rw [if_pos hlater]
    omega
  · have hturn := turn_le M (show now / M < stamp / M by omega)
    rw [if_neg hlater]
    omega

end Stamps
