import Mathlib.Data.List.GetD
import Mathlib.Logic.Function.Iterate

/-!
# Cyclic redundancy checks

A register of `w` bits takes in a message bit by bit, the least significant bit of
a byte first. A program takes in bytes, by a table of what eight shifts make of
each. The register is linear in the message, and where the polynomial has its
highest bit no shift loses anything, so that a burst no longer than the register
always shows.

* `shift`, `feed`, `feeds` — the register, bit by bit;
* `feedByte` — a byte by a table;
* `feeds_byteBits` — the two agree;
* `feeds_ne_of_burst` — a burst shows.
-/

namespace Crc

variable {w : ℕ} (poly : BitVec w)

/-- One shift of the register. -/
def shift (c : BitVec w) : BitVec w := if c.getLsbD 0 then (c >>> 1) ^^^ poly else c >>> 1

/-- A bit at the lowest place. -/
def bit (b : Bool) : BitVec w := if b then 1#w else 0#w

/-- One bit goes in. -/
def feed (c : BitVec w) (b : Bool) : BitVec w := shift poly (c ^^^ bit b)

/-- A message goes in. -/
def feeds (c : BitVec w) (m : List Bool) : BitVec w := m.foldl (feed poly) c

/-! ## Linearity -/

theorem xor_xor_xor_comm (a b c d : BitVec w) : a ^^^ b ^^^ (c ^^^ d) = a ^^^ c ^^^ (b ^^^ d) := by
  rw [BitVec.xor_assoc, ← BitVec.xor_assoc b, BitVec.xor_comm b c, BitVec.xor_assoc c,
    ← BitVec.xor_assoc]

theorem shift_xor (c d : BitVec w) : shift poly (c ^^^ d) = shift poly c ^^^ shift poly d := by
  simp only [shift, BitVec.getLsbD_xor, BitVec.ushiftRight_xor_distrib]
  cases c.getLsbD 0 <;> cases d.getLsbD 0
  · rfl
  · exact BitVec.xor_assoc ..
  · show c >>> 1 ^^^ d >>> 1 ^^^ poly = c >>> 1 ^^^ poly ^^^ d >>> 1
    rw [BitVec.xor_assoc, BitVec.xor_assoc, BitVec.xor_comm poly]
  · show c >>> 1 ^^^ d >>> 1 = c >>> 1 ^^^ poly ^^^ (d >>> 1 ^^^ poly)
    rw [xor_xor_xor_comm, BitVec.xor_self, BitVec.xor_zero]

theorem shifts_xor (n : ℕ) (c d : BitVec w) :
    (shift poly)^[n] (c ^^^ d) = (shift poly)^[n] c ^^^ (shift poly)^[n] d := by
  induction n generalizing c d with
  | zero => rfl
  | succ n ih => rw [Function.iterate_succ_apply, shift_xor, ih]; rfl

theorem bit_xor (a b : Bool) : (bit (a ^^ b) : BitVec w) = bit a ^^^ bit b := by
  cases a <;> cases b <;> simp [bit]

theorem feed_xor (c d : BitVec w) (a b : Bool) :
    feed poly (c ^^^ d) (a ^^ b) = feed poly c a ^^^ feed poly d b := by
  rw [feed, bit_xor, xor_xor_xor_comm, shift_xor]
  rfl

/-- **Linearity**: the register of a sum is the sum of the registers. -/
theorem feeds_xor (m : List Bool) : ∀ (n : List Bool) (c d : BitVec w), m.length = n.length →
    feeds poly (c ^^^ d) (List.zipWith Bool.xor m n) = feeds poly c m ^^^ feeds poly d n := by
  induction m with
  | nil =>
    intro n c d h
    obtain rfl := List.length_eq_zero_iff.mp h.symm
    rfl
  | cons a m ih =>
    intro n c d h
    cases n with
    | nil => cases h
    | cons b n =>
      have hrest := ih n (feed poly c a) (feed poly d b) (Nat.succ.inj h)
      rw [← feed_xor] at hrest
      exact hrest

/-! ## Nothing is lost -/

/-- The highest place of a register that was moved down is empty. -/
theorem getLsbD_ushiftRight_last (c : BitVec w) : (c >>> 1).getLsbD (w - 1) = false := by
  rw [BitVec.getLsbD_ushiftRight]
  exact BitVec.getLsbD_of_ge c _ (by omega)

variable {poly}

/-- Only an empty register is shifted to an empty one. -/
theorem shift_eq_zero (hpoly : poly.msb) {c : BitVec w} (h : shift poly c = 0#w) : c = 0#w := by
  have hlow : c.getLsbD 0 = false := by
    by_contra hbit
    rw [Bool.not_eq_false] at hbit
    have htop : poly.getLsbD (w - 1) = true := by
      rw [← BitVec.msb_eq_getLsbD_last]
      exact hpoly
    have hlast := congrArg (·.getLsbD (w - 1)) h
    simp only [shift, hbit, if_true, BitVec.getLsbD_xor, getLsbD_ushiftRight_last, htop,
      BitVec.getLsbD_zero] at hlast
    cases hlast
  rw [shift, hlow, if_neg Bool.false_ne_true] at h
  apply BitVec.eq_of_getLsbD_eq
  intro i hi
  cases i with
  | zero => rw [hlow, BitVec.getLsbD_zero]
  | succ i =>
    have hup := congrArg (·.getLsbD i) h
    simp only [BitVec.getLsbD_ushiftRight, BitVec.getLsbD_zero] at hup
    rw [Nat.add_comm, hup, BitVec.getLsbD_zero]

theorem shifts_eq_zero (hpoly : poly.msb) (n : ℕ) {c : BitVec w}
    (h : (shift poly)^[n] c = 0#w) : c = 0#w := by
  induction n generalizing c with
  | zero => exact h
  | succ n ih => exact shift_eq_zero hpoly (ih h)

theorem eq_of_xor_eq_zero {c d : BitVec w} (h : c ^^^ d = 0#w) : c = d := by
  have hcancel : c ^^^ d ^^^ d = d := by rw [h, BitVec.zero_xor]
  rwa [BitVec.xor_assoc, BitVec.xor_self, BitVec.xor_zero] at hcancel

/-- What the register held before a message shows in what it holds after it. -/
theorem feeds_injective (hpoly : poly.msb) (m : List Bool) :
    ∀ {c d : BitVec w}, feeds poly c m = feeds poly d m → c = d := by
  induction m with
  | nil => exact fun h => h
  | cons b m ih =>
    intro c d h
    have hfed : feed poly c b = feed poly d b := ih h
    have hzero : shift poly (c ^^^ bit b ^^^ (d ^^^ bit b)) = 0#w := by
      rw [shift_xor, ← feed, ← feed, hfed, BitVec.xor_self]
    have hsum := shift_eq_zero hpoly hzero
    rw [xor_xor_xor_comm, BitVec.xor_self, BitVec.xor_zero] at hsum
    exact eq_of_xor_eq_zero hsum

/-! ## A message that fits into the register -/

/-- The bits of a message, the first one lowest. -/
def word : List Bool → BitVec w
  | [] => 0#w
  | b :: m => bit b ^^^ word m <<< 1

theorem getLsbD_bit (b : Bool) (i : ℕ) :
    (bit b : BitVec w).getLsbD i = (decide (i < w) && (i == 0 && b)) := by
  cases b with
  | false => simp [bit]
  | true =>
    cases i with
    | zero => simp [bit]
    | succ i => simp [bit, BitVec.getLsbD_one]

theorem getLsbD_word (m : List Bool) :
    ∀ i, (word m : BitVec w).getLsbD i = (decide (i < w) && m.getD i false) := by
  induction m with
  | nil => exact fun i => by simp [word]
  | cons b m ih =>
    intro i
    rw [word, BitVec.getLsbD_xor, getLsbD_bit, BitVec.getLsbD_shiftLeft]
    cases i with
    | zero => simp
    | succ i =>
      have hlt : i + 1 < w → i < w := Nat.lt_of_succ_lt
      rw [Nat.add_sub_cancel, ih]
      by_cases hi : i + 1 < w <;> simp [hi, hlt]

/-- A register whose highest places are empty is moved up and down again. -/
theorem shifts_shiftLeft (k : ℕ) : ∀ {c : BitVec w}, (∀ i, w ≤ i + k → c.getLsbD i = false) →
    (shift poly)^[k] (c <<< k) = c := by
  induction k with
  | zero => exact fun _ => BitVec.shiftLeft_zero _
  | succ k ih =>
    intro c hc
    have hdown : shift poly (c <<< (k + 1)) = c <<< k := by
      have hlow : (c <<< (k + 1)).getLsbD 0 = false := by
        simp [BitVec.getLsbD_shiftLeft]
      rw [shift, hlow, if_neg Bool.false_ne_true]
      apply BitVec.eq_of_getLsbD_eq
      intro i hi
      rw [BitVec.getLsbD_ushiftRight, BitVec.getLsbD_shiftLeft, BitVec.getLsbD_shiftLeft]
      by_cases htop : 1 + i < w
      · by_cases hlt : i < k
        · simp [htop, hi, hlt, show 1 + i < k + 1 by omega]
        · simp [htop, hi, hlt, show ¬ 1 + i < k + 1 by omega, show 1 + i - (k + 1) = i - k by omega]
      · have hempty : c.getLsbD (i - k) = false := hc (i - k) (by omega)
        simp [htop, hempty]
    rw [Function.iterate_succ_apply, hdown]
    exact ih fun i hi => hc i (by omega)

/-- A short message is added at once. -/
theorem feeds_eq_shifts (m : List Bool) : ∀ (c : BitVec w), m.length ≤ w →
    feeds poly c m = (shift poly)^[m.length] (c ^^^ word m) := by
  induction m with
  | nil => exact fun c _ => by rw [word, BitVec.xor_zero]; rfl
  | cons b m ih =>
    intro c hm
    have hroom : ∀ i, w ≤ i + 1 → (word m : BitVec w).getLsbD i = false := by
      intro i hi
      rw [getLsbD_word, List.getD_eq_default _ _ (by rw [List.length_cons] at hm; omega),
        Bool.and_false]
    have hup : shift poly ((word m : BitVec w) <<< 1) = word m := shifts_shiftLeft 1 hroom
    have hrest := ih (feed poly c b) (Nat.le_of_succ_le hm)
    rw [List.length_cons, Function.iterate_succ_apply, word, ← BitVec.xor_assoc, shift_xor, hup]
    exact hrest

theorem word_eq_zero {m : List Bool} (hm : m.length ≤ w) (h : (word m : BitVec w) = 0#w) :
    ∀ b ∈ m, b = false := by
  intro b hb
  obtain ⟨i, hi, rfl⟩ := List.mem_iff_getElem.mp hb
  have hbit := congrArg (·.getLsbD i) h
  simp only [getLsbD_word, BitVec.getLsbD_zero, Nat.lt_of_lt_of_le hi hm, decide_true,
    Bool.true_and] at hbit
  rwa [List.getD_eq_getElem _ _ hi] at hbit

theorem eq_of_zipWith_xor (m : List Bool) : ∀ (n : List Bool), m.length = n.length →
    (∀ b ∈ List.zipWith Bool.xor m n, b = false) → m = n := by
  induction m with
  | nil => exact fun n h _ => (List.length_eq_zero_iff.mp h.symm).symm
  | cons a m ih =>
    intro n h hfalse
    cases n with
    | nil => cases h
    | cons b n =>
      have hhead : (a ^^ b) = false := hfalse _ List.mem_cons_self
      have htail := ih n (Nat.succ.inj h) fun x hx => hfalse x (List.mem_cons_of_mem _ hx)
      rw [htail, bne_eq_false_iff_eq.mp hhead]

/-- **A burst shows**: two messages that differ in a stretch no longer than the
register leave it different. -/
theorem feeds_ne_of_burst (hpoly : poly.msb) (c : BitVec w) (pre post : List Bool)
    {m n : List Bool} (hlength : m.length = n.length) (hshort : m.length ≤ w) (hne : m ≠ n) :
    feeds poly c (pre ++ m ++ post) ≠ feeds poly c (pre ++ n ++ post) := by
  intro heq
  simp only [feeds, List.foldl_append] at heq
  have hburst := feeds_injective hpoly post heq
  have hsum := feeds_xor poly m n (feeds poly c pre) (feeds poly c pre) hlength
  have hshort' : (List.zipWith Bool.xor m n).length ≤ w := by
    rw [List.length_zipWith, ← hlength, Nat.min_self]
    exact hshort
  rw [BitVec.xor_self, feeds_eq_shifts _ _ hshort', BitVec.zero_xor] at hsum
  have hzero : feeds poly (feeds poly c pre) m ^^^ feeds poly (feeds poly c pre) n = 0#w := by
    rw [feeds, feeds, feeds, hburst, BitVec.xor_self]
  rw [hzero] at hsum
  exact hne (eq_of_zipWith_xor m n hlength
    (word_eq_zero hshort' (shifts_eq_zero hpoly _ hsum)))

/-! ## Bytes -/

/-- The bits of a byte, the lowest one first. -/
def byteBits (b : BitVec 8) : List Bool := (List.range 8).map b.getLsbD

/-- The bits of a text. -/
def messageBits (bytes : List (BitVec 8)) : List Bool := bytes.flatMap byteBits

/-- A byte goes in by a table. -/
def feedByte (table : BitVec 8 → BitVec w) (c : BitVec w) (b : BitVec 8) : BitVec w :=
  table (c.setWidth 8 ^^^ b) ^^^ c >>> 8

theorem length_byteBits (b : BitVec 8) : (byteBits b).length = 8 := rfl

theorem word_byteBits (b : BitVec 8) : (word (byteBits b) : BitVec w) = b.setWidth w := by
  apply BitVec.eq_of_getLsbD_eq
  intro i hi
  rw [getLsbD_word, BitVec.getLsbD_setWidth]
  by_cases hlt : i < 8
  · rw [List.getD_eq_getElem _ _ (by rwa [length_byteBits])]
    simp [byteBits, hi]
  · rw [List.getD_eq_default _ _ (by rw [length_byteBits]; omega),
      BitVec.getLsbD_of_ge b i (by omega)]

/-- A register is its lowest byte and what is above it. -/
theorem xor_setWidth_split (c : BitVec w) (b : BitVec 8) :
    c ^^^ b.setWidth w = (c.setWidth 8 ^^^ b).setWidth w ^^^ (c >>> 8) <<< 8 := by
  apply BitVec.eq_of_getLsbD_eq
  intro i hi
  simp only [BitVec.getLsbD_xor, BitVec.getLsbD_setWidth, BitVec.getLsbD_shiftLeft,
    BitVec.getLsbD_ushiftRight, hi, decide_true, Bool.true_and]
  by_cases hlt : i < 8
  · simp [hlt]
  · simp [hlt, BitVec.getLsbD_of_ge b i (by omega), show 8 + (i - 8) = i by omega]

/-- **The table does what the bits do.** -/
theorem feeds_byteBits (hw : 8 ≤ w) {table : BitVec 8 → BitVec w}
    (htable : ∀ b, table b = (shift poly)^[8] (b.setWidth w)) (c : BitVec w) (b : BitVec 8) :
    feedByte table c b = feeds poly c (byteBits b) := by
  have hhigh : (shift poly)^[8] ((c >>> 8) <<< 8) = c >>> 8 := by
    refine shifts_shiftLeft 8 fun i hi => ?_
    rw [BitVec.getLsbD_ushiftRight]
    exact BitVec.getLsbD_of_ge c _ (by omega)
  rw [feeds_eq_shifts _ _ (by rwa [length_byteBits]), length_byteBits, word_byteBits,
    xor_setWidth_split, shifts_xor, hhigh, feedByte, htable]

/-- A text goes in byte by byte or bit by bit. -/
theorem foldl_feedByte (hw : 8 ≤ w) {table : BitVec 8 → BitVec w}
    (htable : ∀ b, table b = (shift poly)^[8] (b.setWidth w)) (bytes : List (BitVec 8)) :
    ∀ c : BitVec w, bytes.foldl (feedByte table) c = feeds poly c (messageBits bytes) := by
  induction bytes with
  | nil => exact fun _ => rfl
  | cons b bytes ih =>
    intro c
    rw [List.foldl_cons, ih, feeds_byteBits hw htable]
    exact (List.foldl_append ..).symm

end Crc
