import Mathlib.Algebra.Group.Nat.Defs
import Mathlib.Data.List.TakeWhile

/-!
# Arrays of bytes and the strings in them

A `char` array of C has a fixed size, and a string in it ends at its first zero
byte. What runs outside of an array has no result.

* `CArray` — an array of `n` bytes;
* `slice?`, `be16?`, `memcpy?`, `write?` — reading and writing;
* `strncpy`, `string?` — strings;
* `beNat`, `beBytes` — numbers in network order.
-/

/-- An array of `n` bytes. -/
structure CArray (n : ℕ) where
  /-- its contents -/
  bytes : List UInt8
  /-- all of it -/
  length_eq : bytes.length = n
  deriving DecidableEq

namespace CArray

/-- The number written in network order. -/
def beNat (bytes : List UInt8) : ℕ := bytes.foldl (fun n b => n * 256 + b.toNat) 0

/-- `k` bytes of a number in network order. -/
def beBytes : ℕ → ℕ → List UInt8
  | 0, _ => []
  | k + 1, v => beBytes k (v / 256) ++ [UInt8.ofNat v]

theorem length_beBytes (k v : ℕ) : (beBytes k v).length = k := by
  induction k generalizing v with
  | zero => rfl
  | succ k ih => rw [beBytes, List.length_append, ih, List.length_singleton]

/-- **A number is read back** from its bytes. -/
theorem beNat_beBytes (k v : ℕ) : beNat (beBytes k v) = v % 256 ^ k := by
  induction k generalizing v with
  | zero =>
    rw [Nat.pow_zero, Nat.mod_one]
    rfl
  | succ k ih =>
    have hlast : beNat (beBytes k (v / 256) ++ [UInt8.ofNat v]) =
        beNat (beBytes k (v / 256)) * 256 + (UInt8.ofNat v).toNat :=
      List.foldl_append ..
    rw [beBytes, hlast, ih, Nat.pow_succ', Nat.mod_mul, UInt8.toNat_ofNat', Nat.mul_comm,
      Nat.add_comm]

variable {n : ℕ}

/-- `memset` with zero. -/
def zero (n : ℕ) : CArray n := ⟨List.replicate n 0, List.length_replicate⟩

/-- `len` bytes from `off` on. -/
def slice? (a : CArray n) (off len : ℕ) : Option (List UInt8) :=
  if off + len ≤ n then some ((a.bytes.drop off).take len) else none

/-- A byte. -/
def byte? (a : CArray n) (off : ℕ) : Option ℕ := a.bytes[off]?.map UInt8.toNat

/-- Two bytes in network order. -/
def be16? (a : CArray n) (off : ℕ) : Option ℕ := (a.slice? off 2).map beNat

/-- `memcpy` to the beginning. -/
def memcpy? (a : CArray n) (src : List UInt8) : Option (CArray n) :=
  if h : src.length ≤ n then
    some ⟨src ++ a.bytes.drop src.length, by
      rw [List.length_append, List.length_drop, a.length_eq, Nat.add_sub_cancel' h]⟩
  else none

/-- Bytes written from `off` on. -/
def write? (a : CArray n) (off : ℕ) (src : List UInt8) : Option (CArray n) :=
  if h : off + src.length ≤ n then
    some ⟨a.bytes.take off ++ src ++ a.bytes.drop (off + src.length), by
      rw [List.length_append, List.length_append, List.length_take, List.length_drop, a.length_eq]
      omega⟩
  else none

/-- `strncpy` to the beginning of an array with room for `k` bytes: at most `k`
bytes of the string, and zeros up to `k`. -/
def strncpy (a : CArray n) (s : List UInt8) (k : ℕ) (h : k ≤ n) : CArray n where
  bytes := s.take k ++ List.replicate (k - s.length) 0 ++ a.bytes.drop k
  length_eq := by
    rw [List.length_append, List.length_append, List.length_take, List.length_replicate,
      List.length_drop, a.length_eq]
    omega

/-- The string at the beginning, if it ends. -/
def string? (a : CArray n) : Option (List UInt8) :=
  if 0 ∈ a.bytes then some (a.bytes.takeWhile (· ≠ 0)) else none

/-! ## Reading and writing between known contents -/

theorem exists_memcpy? (a : CArray n) {src : List UInt8} (h : src.length ≤ n) :
    ∃ b, a.memcpy? src = some b ∧ b.bytes = src ++ a.bytes.drop src.length :=
  ⟨_, dif_pos h, rfl⟩

theorem slice?_append {a : CArray n} (pre : List UInt8) {mid : List UInt8} (post : List UInt8)
    {off len : ℕ} (h : a.bytes = pre ++ mid ++ post) (hoff : off = pre.length)
    (hlen : len = mid.length) :
    a.slice? off len = some mid := by
  have hlength := congrArg List.length h
  rw [a.length_eq, List.length_append, List.length_append] at hlength
  subst hoff hlen
  rw [slice?, if_pos (by omega), h, List.append_assoc, List.drop_left, List.take_left]

theorem be16?_append {a : CArray n} (pre post : List UInt8) {off v : ℕ}
    (h : a.bytes = pre ++ beBytes 2 v ++ post) (hoff : off = pre.length) (hv : v < 65536) :
    a.be16? off = some v := by
  rw [be16?, slice?_append pre post h hoff (length_beBytes 2 v).symm, Option.map_some,
    beNat_beBytes]
  exact congrArg some (Nat.mod_eq_of_lt hv)

theorem write?_append {a : CArray n} {pre old post : List UInt8} {off : ℕ} (src : List UInt8)
    (h : a.bytes = pre ++ old ++ post) (hoff : off = pre.length)
    (hsrc : src.length = old.length) :
    ∃ b, a.write? off src = some b ∧ b.bytes = pre ++ src ++ post := by
  have hlength := congrArg List.length h
  rw [a.length_eq, List.length_append, List.length_append] at hlength
  subst hoff
  have hfits : pre.length + src.length ≤ n := by omega
  refine ⟨_, dif_pos hfits, ?_⟩
  simp only
  rw [h, hsrc, ← List.length_append, List.drop_left, List.append_assoc pre old post,
    List.take_left]

/-- What is written from `off` on stands behind what was there. -/
theorem exists_write? (a : CArray n) (off : ℕ) (src : List UInt8) (h : off + src.length ≤ n) :
    ∃ b, a.write? off src = some b ∧
      b.bytes.take (off + src.length) = a.bytes.take off ++ src := by
  refine ⟨_, dif_pos h, List.take_left' ?_⟩
  rw [List.length_append, List.length_take, a.length_eq]
  omega

theorem write?_eq_none (a : CArray n) {off : ℕ} {src : List UInt8} (h : n < off + src.length) :
    a.write? off src = none :=
  dif_neg (Nat.not_le.mpr h)

/-- A string and zeros after it, `n` bytes in all. -/
def padded (n : ℕ) (s : List UInt8) : List UInt8 := s ++ List.replicate (n - s.length) 0

/-- A string and zeros after it are that string. -/
theorem string?_of_padded {a : CArray n} {s : List UInt8} (h : a.bytes = padded n s) (hs : 0 ∉ s)
    (hlen : s.length < n) : a.string? = some s := by
  obtain ⟨k, hk⟩ := Nat.exists_eq_add_of_lt hlen
  have hbytes : a.bytes = s ++ 0 :: List.replicate k 0 := by
    rw [h, padded, ← List.replicate_succ, hk, Nat.add_assoc, Nat.add_sub_cancel_left]
  have htake : (s ++ 0 :: List.replicate k 0).takeWhile (· ≠ 0) = s := by
    rw [List.takeWhile_append_of_pos fun b hb =>
        decide_eq_true (ne_of_mem_of_not_mem hb hs),
      List.takeWhile_cons_of_neg (by simp), List.append_nil]
  rw [string?, hbytes, htake, if_pos (List.mem_append_right s List.mem_cons_self)]

/-- `strncpy` into an array of zeros: the string, cut to `k` bytes, and zeros. -/
theorem strncpy_zero_bytes (s : List UInt8) {k : ℕ} (h : k ≤ n) :
    ((zero n).strncpy s k h).bytes = padded n (s.take k) := by
  show s.take k ++ List.replicate (k - s.length) 0 ++ (List.replicate n 0).drop k = _
  rw [padded, List.drop_replicate, List.append_assoc, List.replicate_append_replicate,
    List.length_take]
  congr 2
  omega

/-- A string without zeros shows where it was cut. -/
theorem padded_take_iff {s : List UInt8} (h : 0 ∉ s) (n k : ℕ) :
    padded n (s.take k) = padded n s ↔ s.length ≤ k := by
  refine ⟨fun heq => ?_, fun hle => by rw [List.take_of_length_le hle]⟩
  by_contra hlt
  have hparts : s = s.take k ++ s.drop k := (List.take_append_drop k s).symm
  have hwhole : s.take k ++ List.replicate (n - (s.take k).length) 0 =
      s.take k ++ (s.drop k ++ List.replicate (n - s.length) 0) := by
    rw [← List.append_assoc, ← hparts]
    exact heq
  have hrest := List.append_cancel_left hwhole
  obtain ⟨b, hb⟩ := List.exists_mem_of_length_pos (l := s.drop k) (by
    rw [List.length_drop]
    omega)
  have hzero : b = 0 := List.eq_of_mem_replicate (hrest ▸ List.mem_append_left _ hb)
  exact h (hzero ▸ List.mem_of_mem_drop hb)

end CArray
