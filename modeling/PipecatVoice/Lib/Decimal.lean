import Mathlib

/-!
# Numbers in a text of bytes

Numbers are printed in decimal, and read back as far as there are digits.

* `ascii`, `decimal` — a text, and a number as a text;
* `scan` — the number at the beginning of a text;
* `scan_decimal` — what is printed is read back.
-/

namespace Decimal

/-- The byte of an ASCII character. -/
def byte (c : Char) : UInt8 := UInt8.ofNat c.toNat

/-- A text. -/
def ascii (s : String) : List UInt8 := s.toList.map byte

/-- A number as it is printed. -/
def decimal (n : ℕ) : List UInt8 := (Nat.toDigits 10 n).map byte

def isDigit (b : UInt8) : Bool := 48 ≤ b && b ≤ 57

/-- What some digits stand for. -/
def value (digits : List UInt8) : ℕ := digits.foldl (fun n b => 10 * n + (b.toNat - 48)) 0

/-- The number at the beginning of a text, and what is behind it. -/
def scan (s : List UInt8) : Option (ℕ × List UInt8) :=
  let digits := s.takeWhile isDigit
  if digits = [] then none else some (value digits, s.drop digits.length)

theorem toNat_byte_digit {c : Char} (h : c.isDigit) : (byte c).toNat = c.toNat := by
  have hle : c.toNat ≤ 57 := (Bool.and_eq_true _ _).mp h |>.2 |> of_decide_eq_true
  exact UInt8.toNat_ofNat_of_lt' (Nat.lt_of_le_of_lt hle (by decide))

theorem isDigit_byte {c : Char} (h : c.isDigit) : isDigit (byte c) := by
  have hge : 48 ≤ c.toNat := (Bool.and_eq_true _ _).mp h |>.1 |> of_decide_eq_true
  have hle : c.toNat ≤ 57 := (Bool.and_eq_true _ _).mp h |>.2 |> of_decide_eq_true
  rw [isDigit, Bool.and_eq_true, decide_eq_true_eq, decide_eq_true_eq, UInt8.le_iff_toNat_le,
    UInt8.le_iff_toNat_le, toNat_byte_digit h]
  exact ⟨hge, hle⟩

theorem isDigit_of_mem_decimal {n : ℕ} {b : UInt8} (h : b ∈ decimal n) : isDigit b := by
  obtain ⟨c, hc, rfl⟩ := List.mem_map.mp h
  exact isDigit_byte (Nat.isDigit_of_mem_toDigits (by decide) (by decide) hc)

theorem decimal_ne_nil (n : ℕ) : decimal n ≠ [] := by
  rw [decimal, ne_eq, List.map_eq_nil_iff]
  exact Nat.toDigits_ne_nil

/-- A number has few digits. -/
theorem length_decimal_le {n k : ℕ} (hk : 0 < k) (h : n < 10 ^ k) : (decimal n).length ≤ k := by
  rw [decimal, List.length_map]
  exact (Nat.length_toDigits_le_iff (by decide) hk).mpr h

theorem foldl_map_byte (cs : List Char) (h : ∀ c ∈ cs, c.isDigit) :
    ∀ n, (cs.map byte).foldl (fun n b => 10 * n + (b.toNat - 48)) n = Nat.ofDigitChars 10 cs n := by
  induction cs with
  | nil => exact fun n => rfl
  | cons c cs ih =>
    obtain ⟨hc, hcs⟩ := List.forall_mem_cons.mp h
    intro n
    rw [List.map_cons, List.foldl_cons, ih hcs, toNat_byte_digit hc]
    rfl

theorem value_decimal (n : ℕ) : value (decimal n) = n := by
  rw [value, decimal, foldl_map_byte _ fun c hc =>
    Nat.isDigit_of_mem_toDigits (by decide) (by decide) hc]
  exact Nat.ofDigitChars_ten_toDigits

/-- **A number is read back**, if no digit follows it. -/
theorem scan_decimal (n : ℕ) {rest : List UInt8} (h : ∀ b ∈ rest.head?, isDigit b = false) :
    scan (decimal n ++ rest) = some (n, rest) := by
  have hdigits : (decimal n ++ rest).takeWhile isDigit = decimal n := by
    rw [List.takeWhile_append_of_pos fun b hb => isDigit_of_mem_decimal hb]
    cases rest with
    | nil => rw [List.takeWhile_nil, List.append_nil]
    | cons b rest =>
      rw [List.takeWhile_cons_of_neg (by rw [h b rfl]; exact Bool.false_ne_true), List.append_nil]
  simp only [scan, hdigits, if_neg (decimal_ne_nil n), value_decimal, List.drop_left]

end Decimal
