import Mathlib.Algebra.Order.BigOperators.Group.List
import Mathlib.Algebra.Order.Ring.Abs
import Mathlib.Algebra.Order.Ring.Int

/-!
# Fixed-width arithmetic that is checked

A value that a program keeps in a fixed width is either in its range or there
is none. A computation with checks that has a result has left no range, and
then it is the computation without them.

* `int32?`, `int16?`, `unsigned?`, `div?` — the checks;
* `foldlM_int32?` — a sum whose partial sums are checked too.
-/

namespace Checked

/-- A value of `int32_t`. -/
def int32? (v : ℤ) : Option ℤ :=
  if -2147483648 ≤ v ∧ v ≤ 2147483647 then some v else none

/-- A value of `int16_t`. -/
def int16? (v : ℤ) : Option Int16 :=
  if -32768 ≤ v ∧ v ≤ 32767 then some (Int16.ofInt v) else none

/-- A value of an unsigned type of `w` bits. -/
def unsigned? (w v : ℕ) : Option ℕ := if v < 2 ^ w then some v else none

/-- A quotient; there is none by zero. -/
def div? (a b : ℕ) : Option ℕ := if b = 0 then none else some (a / b)

/-- A shift amount that is at most `top`. -/
def amount? (top v : ℤ) : Option ℕ := if 0 ≤ v ∧ v ≤ top then some v.toNat else none

theorem int32?_eq {v : ℤ} (h : -2147483648 ≤ v ∧ v ≤ 2147483647) : int32? v = some v :=
  if_pos h

theorem int16?_eq {v : ℤ} (h : -32768 ≤ v ∧ v ≤ 32767) : int16? v = some (Int16.ofInt v) :=
  if_pos h

theorem amount?_eq {top v : ℤ} (h : 0 ≤ v ∧ v ≤ top) : amount? top v = some v.toNat :=
  if_pos h

theorem unsigned?_eq {w v : ℕ} (h : v < 2 ^ w) : unsigned? w v = some v := if_pos h

theorem div?_eq {a b : ℕ} (h : b ≠ 0) : div? a b = some (a / b) := if_neg h

/-- The range of an `int16_t`. -/
theorem toInt_range (x : Int16) : -32768 ≤ x.toInt ∧ x.toInt ≤ 32767 := by
  have hlo := x.le_toInt
  have hhi := x.toInt_lt
  omega

/-- A value in range survives the cast. -/
theorem toInt_ofInt {v : ℤ} (h : -32768 ≤ v ∧ v ≤ 32767) : (Int16.ofInt v).toInt = v :=
  Int16.toInt_ofInt_of_le (by omega) (by omega)

/-- The range of a product. -/
theorem mul_range {x y a b : ℤ} (hx : -a ≤ x ∧ x ≤ a) (hy : -b ≤ y ∧ y ≤ b) :
    -(a * b) ≤ x * y ∧ x * y ≤ a * b := by
  have habs : |x * y| ≤ a * b := by
    rw [abs_mul]
    exact mul_le_mul (abs_le.mpr hx) (abs_le.mpr hy) (abs_nonneg y)
      (le_trans (abs_nonneg x) (abs_le.mpr hx))
  exact abs_le.mp habs

/-- **A checked sum**: if the bounds of the terms add up to a value in range, no
partial sum leaves it. -/
theorem foldlM_int32? {ι : Type*} (term? : ι → Option ℤ) (term bound : ι → ℤ) (l : List ι)
    (h : ∀ i ∈ l, term? i = some (term i) ∧ -bound i ≤ term i ∧ term i ≤ bound i) :
    ∀ {z b : ℤ}, -b ≤ z ∧ z ≤ b → b + (l.map bound).sum ≤ 2147483647 →
      (l.foldlM (fun z i => do int32? (z + (← term? i))) z =
        some (l.foldl (fun z i => z + term i) z)) ∧
      -(b + (l.map bound).sum) ≤ l.foldl (fun z i => z + term i) z ∧
      l.foldl (fun z i => z + term i) z ≤ b + (l.map bound).sum := by
  induction l with
  | nil =>
    intro z b hz hsum
    rw [List.map_nil, List.sum_nil, add_zero]
    exact ⟨rfl, hz⟩
  | cons i l ih =>
    obtain ⟨⟨hterm, hlo, hhi⟩, hrest⟩ := List.forall_mem_cons.mp h
    intro z b hz hsum
    rw [List.map_cons, List.sum_cons, ← add_assoc] at hsum ⊢
    have hnonneg : 0 ≤ (l.map bound).sum := by
      apply List.sum_nonneg
      intro w hw
      obtain ⟨j, hj, rfl⟩ := List.mem_map.mp hw
      have hj := hrest j hj
      omega
    have hnext : -(b + bound i) ≤ z + term i ∧ z + term i ≤ b + bound i := by omega
    have hfits : int32? (z + term i) = some (z + term i) := int32?_eq (by omega)
    obtain ⟨hfold, hrange⟩ := ih hrest hnext hsum
    refine ⟨?_, hrange⟩
    rw [List.foldlM_cons, hterm]
    simp only [Option.bind_eq_bind, Option.bind_some, hfits]
    exact hfold

end Checked
