import Mathlib
import PipecatVoice.NoiseFloor

/-!
# The logarithm of the features

The last part of the audio frontend: an integer logarithm with a table of 128
segments. The table holds by how much the binary logarithm exceeds a straight line;
between two entries nearly the lower one is taken, since what is interpolated is
shifted as far as a fraction of a whole octave.

* `log2FractionPart`, `logOf`, `logScaleApply` — the functions of `log_scale.c`;
* `kLogLut_near` — the table, entry by entry;
* `logOf_near` — how near the result is to the natural logarithm;
* `feature_near` — what the features are.
-/

namespace PipecatVoice.Frontend

/-- `kLogLut` -/
def kLogLut : List ℕ := [
  0, 224, 442, 654, 861, 1063, 1259, 1450, 1636, 1817, 1992, 2163, 2329, 2490, 2646, 2797, 2944,
  3087, 3224, 3358, 3487, 3611, 3732, 3848, 3960, 4068, 4172, 4272, 4368, 4460, 4549, 4633, 4714,
  4791, 4864, 4934, 5001, 5063, 5123, 5178, 5231, 5280, 5326, 5368, 5408, 5444, 5477, 5507, 5533,
  5557, 5578, 5595, 5610, 5622, 5631, 5637, 5640, 5641, 5638, 5633, 5626, 5615, 5602, 5586, 5568,
  5547, 5524, 5498, 5470, 5439, 5406, 5370, 5332, 5291, 5249, 5203, 5156, 5106, 5054, 5000, 4944,
  4885, 4825, 4762, 4697, 4630, 4561, 4490, 4416, 4341, 4264, 4184, 4103, 4020, 3935, 3848, 3759,
  3668, 3575, 3481, 3384, 3286, 3186, 3084, 2981, 2875, 2768, 2659, 2549, 2437, 2323, 2207, 2090,
  1971, 1851, 1729, 1605, 1480, 1353, 1224, 1094, 963, 830, 695, 559, 421, 282, 142, 0, 0]

/-- Part 1 of `Log2FractionPart`: how far into its octave a number is
(`kLogScaleLog2`). -/
def octavePart (x log2x : ℕ) : ℕ :=
  if log2x < 16 then (x - 2 ^ log2x) * 2 ^ (16 - log2x)
  else (x - 2 ^ log2x) / 2 ^ (log2x - 16)

/-- `Log2FractionPart` (`kLogSegmentsLog2`) -/
def log2FractionPart (x log2x : ℕ) : ℕ :=
  let frac := octavePart x log2x
  let baseSeg := frac / 2 ^ (16 - 7)
  let segUnit := 2 ^ 16 / 2 ^ 7
  let c0 : ℤ := kLogLut.getD baseSeg 0
  let c1 : ℤ := kLogLut.getD (baseSeg + 1) 0
  let relPos := (c1 - c0) * (frac - segUnit * baseSeg) / 2 ^ 16
  ((frac + c0 + relPos) % 2 ^ 32).toNat

/-- `Log`, with `kLogScale` and `kLogCoeff` -/
def logOf (x scaleShift : ℕ) : ℕ :=
  let integer := mostSignificantBit x - 1
  let log2 := (integer * 2 ^ 16 + log2FractionPart x integer) % 2 ^ 32
  let loge := ((45426 * log2 + 2 ^ 16 / 2) / 2 ^ 16) % 2 ^ 32
  (loge * 2 ^ scaleShift % 2 ^ 32 + 2 ^ 16 / 2) % 2 ^ 32 / 2 ^ 16

/-- `LogScaleState` -/
structure LogScale where
  /-- the logarithm is taken -/
  enableLog : Bool
  /-- bits by which it is scaled up -/
  scaleShift : ℕ

/-- As `wake_word_init` configures it. -/
def wakeLogScale : LogScale := ⟨true, 6⟩

/-- `LogScaleApply` -/
def logScaleApply (s : LogScale) {c : ℕ} (signal : Vector UInt32 c) (correctionBits : ℤ) :
    Vector UInt16 c :=
  signal.map fun value =>
    let value :=
      if s.enableLog then
        let value := if correctionBits < 0 then value.toNat / 2 ^ correctionBits.natAbs
          else value.toNat * 2 ^ correctionBits.natAbs % 2 ^ 32
        if 1 < value then logOf value s.scaleShift else 0
      else value.toNat
    UInt16.ofNat (if value < 0xFFFF then value else 0xFFFF)

/-! ## The table -/

/-- Powers of the entries, to compare them with powers of two. -/
theorem kLogLut_powers : ∀ k ≤ 128,
    2 ^ (512 * k + kLogLut.getD k 0 + 458752) ≤ 2 * (128 + k) ^ 65536 ∧
      (128 + k) ^ 65536 ≤ 2 ^ (512 * k + kLogLut.getD k 0 + 458753) := by
  decide +kernel

/-- Two entries that follow each other differ little. -/
theorem kLogLut_steps : ∀ k ≤ 127, kLogLut.getD (k + 1) 0 ≤ kLogLut.getD k 0 + 256 ∧
    kLogLut.getD k 0 ≤ kLogLut.getD (k + 1) 0 + 256 := by
  decide +kernel

theorem kLogLut_lt : ∀ k ≤ 128, kLogLut.getD k 0 < 2 ^ 13 := by decide +kernel

/-- Powers that are compared compare logarithms. -/
theorem mul_log_le_of_pow_le {m n a b : ℕ} (hm : 0 < m) (hlow : 2 ^ a ≤ 2 * m ^ n)
    (hhigh : m ^ n ≤ 2 ^ b) : a * Real.log 2 ≤ Real.log 2 + n * Real.log m ∧
      n * Real.log m ≤ b * Real.log 2 := by
  have hpos : (0 : ℝ) < m := Nat.cast_pos.mpr hm
  have hlow : ((2 : ℝ) ^ a) ≤ 2 * (m : ℝ) ^ n := by exact_mod_cast hlow
  have hhigh : (m : ℝ) ^ n ≤ (2 : ℝ) ^ b := by exact_mod_cast hhigh
  have hlow := Real.log_le_log (by positivity) hlow
  have hhigh := Real.log_le_log (by positivity) hhigh
  rw [Real.log_mul (by norm_num) (by positivity), Real.log_pow, Real.log_pow] at hlow
  rw [Real.log_pow, Real.log_pow] at hhigh
  exact ⟨hlow, hhigh⟩

/-- **The table**: an entry is the excess of the binary logarithm over the line, in
parts of 2¹⁶, to one part. -/
theorem kLogLut_near {k : ℕ} (hk : k ≤ 128) :
    |65536 * (Real.log (128 + k) - Real.log 128) -
      (512 * k + kLogLut.getD k 0) * Real.log 2| ≤ Real.log 2 := by
  obtain ⟨hlow, hhigh⟩ := kLogLut_powers k hk
  obtain ⟨hlow, hhigh⟩ := mul_log_le_of_pow_le (Nat.add_pos_left (by decide) k) hlow hhigh
  have hseven : Real.log 128 = 7 * Real.log 2 := by
    rw [show (128 : ℝ) = 2 ^ 7 by norm_num, Real.log_pow]
    norm_num
  push_cast at hlow hhigh
  rw [abs_le, hseven]
  exact ⟨by linarith, by linarith⟩

/-! ## The fraction -/

section Octave

variable {x l : ℕ}

/-- What is cut off an octave is less than a part of it. -/
theorem octavePart_spec : octavePart x l * 2 ^ l ≤ 2 ^ 16 * (x - 2 ^ l) ∧
    2 ^ 16 * (x - 2 ^ l) < (octavePart x l + 1) * 2 ^ l := by
  rw [octavePart]
  split
  · next hl =>
    have hsplit : (2 : ℕ) ^ 16 = 2 ^ (16 - l) * 2 ^ l := by
      rw [← pow_add, Nat.sub_add_cancel hl.le]
    have heq : (x - 2 ^ l) * 2 ^ (16 - l) * 2 ^ l = 2 ^ 16 * (x - 2 ^ l) := by
      rw [hsplit, Nat.mul_assoc, Nat.mul_comm]
    refine ⟨heq.le, ?_⟩
    rw [Nat.succ_mul, heq]
    exact Nat.lt_add_of_pos_right (Nat.two_pow_pos l)
  · next hl =>
    have hsplit : (2 : ℕ) ^ l = 2 ^ (l - 16) * 2 ^ 16 := by
      rw [← pow_add, Nat.sub_add_cancel (Nat.not_lt.mp hl)]
    have hdiv := Nat.div_mul_le_self (x - 2 ^ l) (2 ^ (l - 16))
    have hmod := Nat.lt_mul_div_succ (x - 2 ^ l) (Nat.two_pow_pos (l - 16))
    generalize x - 2 ^ l = d at hdiv hmod ⊢
    rw [hsplit]
    refine ⟨?_, ?_⟩ <;> nlinarith

theorem octavePart_lt (hlow : 2 ^ l ≤ x) (hhigh : x < 2 ^ (l + 1)) : octavePart x l < 2 ^ 16 := by
  obtain ⟨hle, -⟩ := octavePart_spec (x := x) (l := l)
  have hoctave : x - 2 ^ l < 2 ^ l := by
    rw [pow_succ] at hhigh
    omega
  by_contra hge
  have hmul := Nat.mul_le_mul_right (2 ^ l) (Nat.not_lt.mp hge)
  omega

end Octave

/-- A number within a segment: its logarithm, from that of the start of the segment. -/
theorem log_sub_log_bounds {a b : ℝ} (ha : 0 < a) (hab : a ≤ b) :
    (b - a) / b ≤ Real.log b - Real.log a ∧ Real.log b - Real.log a ≤ (b - a) / a := by
  have hb : 0 < b := ha.trans_le hab
  have hup := Real.log_le_sub_one_of_pos (div_pos hb ha)
  have hdown := Real.log_le_sub_one_of_pos (div_pos ha hb)
  rw [Real.log_div hb.ne' ha.ne', div_sub_one ha.ne'] at hup
  rw [Real.log_div ha.ne' hb.ne', div_sub_one hb.ne'] at hdown
  refine ⟨?_, hup⟩
  have hneg : (b - a) / b = -((a - b) / b) := by ring
  rw [hneg]
  linarith

/-- What is interpolated between two entries is next to nothing. -/
theorem relPos_bounds {k r : ℕ} (hk : k ≤ 127) (hr : r < 512) :
    -2 ≤ ((kLogLut.getD (k + 1) 0 : ℤ) - kLogLut.getD k 0) * r / 2 ^ 16 ∧
      ((kLogLut.getD (k + 1) 0 : ℤ) - kLogLut.getD k 0) * r / 2 ^ 16 ≤ 1 ∧
      (k = 0 → 0 ≤ ((kLogLut.getD (k + 1) 0 : ℤ) - kLogLut.getD k 0) * r / 2 ^ 16) := by
  obtain ⟨hup, hdown⟩ := kLogLut_steps k hk
  have hr0 : (0 : ℤ) ≤ r := Int.natCast_nonneg r
  have hmul : ((kLogLut.getD (k + 1) 0 : ℤ) - kLogLut.getD k 0) * r ≤ 256 * 511 := by
    nlinarith
  have hmul' : -(256 * 511) ≤ ((kLogLut.getD (k + 1) 0 : ℤ) - kLogLut.getD k 0) * r := by
    nlinarith
  refine ⟨by omega, by omega, ?_⟩
  rintro rfl
  have hfirst : ((kLogLut.getD (0 + 1) 0 : ℤ) - kLogLut.getD 0 0) = 224 := rfl
  rw [hfirst]
  omega

/-- The fraction of the logarithm: where its segment begins, how far into it the
number is, and the entry of the table, but for a part or two. -/
theorem log2FractionPart_eq {x l : ℕ} (hlow : 2 ^ l ≤ x) (hhigh : x < 2 ^ (l + 1)) :
    ∃ k r : ℕ, octavePart x l = 512 * k + r ∧ k ≤ 127 ∧ r < 512 ∧
      512 * k + r + kLogLut.getD k 0 ≤ log2FractionPart x l + 2 ∧
      log2FractionPart x l ≤ 512 * k + r + kLogLut.getD k 0 + 1 ∧
      log2FractionPart x l < 2 ^ 17 := by
  have hlt := octavePart_lt hlow hhigh
  refine ⟨octavePart x l / 512, octavePart x l % 512, (Nat.div_add_mod _ _).symm, by omega,
    Nat.mod_lt _ (by decide), ?_⟩
  have hk : octavePart x l / 512 ≤ 127 := by omega
  obtain ⟨hrel, hrel', hrel0⟩ := relPos_bounds hk (Nat.mod_lt (octavePart x l) (by decide))
  have hentry := kLogLut_lt _ (hk.trans (by decide))
  have hrest : (octavePart x l : ℤ) - (2 ^ 16 / 2 ^ 7 : ℕ) * (octavePart x l / 2 ^ (16 - 7) : ℕ) =
      (octavePart x l % 512 : ℕ) := by
    omega
  have hpart : log2FractionPart x l = (((octavePart x l : ℤ) +
      kLogLut.getD (octavePart x l / 512) 0 +
        ((kLogLut.getD (octavePart x l / 512 + 1) 0 : ℤ) -
          kLogLut.getD (octavePart x l / 512) 0) * (octavePart x l % 512 : ℕ) / 2 ^ 16) %
            2 ^ 32).toNat := by
    rw [log2FractionPart, ← hrest]
    rfl
  rw [hpart]
  generalize ((kLogLut.getD (octavePart x l / 512 + 1) 0 : ℤ) -
    kLogLut.getD (octavePart x l / 512) 0) * (octavePart x l % 512 : ℕ) / 2 ^ 16 = rel at *
  have hnonneg : 0 ≤ (octavePart x l : ℤ) + kLogLut.getD (octavePart x l / 512) 0 + rel := by
    by_cases hzero : octavePart x l / 512 = 0
    · have hpos := hrel0 hzero
      omega
    · omega
  rw [Int.emod_eq_of_lt hnonneg (by omega)]
  refine ⟨by omega, by omega, by omega⟩

/-- **The binary logarithm**, in parts of 2¹⁶, is off by at most 161 / ln 2 parts, that is less
than 233. -/
theorem log2_near {x l : ℕ} (hlow : 2 ^ l ≤ x) (hhigh : x < 2 ^ (l + 1)) :
    |65536 * Real.log x - (l * 65536 + log2FractionPart x l) * Real.log 2| ≤ 161 := by
  obtain ⟨k, r, hpart, hk, hr, hfrom, hto, -⟩ := log2FractionPart_eq hlow hhigh
  obtain ⟨hfloor, hceil⟩ := octavePart_spec (x := x) (l := l)
  have htable := abs_le.mp (kLogLut_near (hk.trans (by decide : 127 ≤ 128)))
  have hpow : (0 : ℝ) < 2 ^ l := by positivity
  have hx : (2 : ℝ) ^ l ≤ x := by exact_mod_cast hlow
  have hx' : (x : ℝ) < 2 * 2 ^ l := by
    have hdouble : x < 2 * 2 ^ l := by
      rw [← pow_succ']
      exact hhigh
    exact_mod_cast hdouble
  -- the number, in parts of the octave: `y` of it lie behind the start of the segment
  obtain ⟨y, hy⟩ : ∃ y : ℝ, (x : ℝ) * 65536 = (65536 + 512 * k + y) * 2 ^ l :=
    ⟨x * 65536 / 2 ^ l - (65536 + 512 * k), by field_simp; ring⟩
  have hsub : ((x - 2 ^ l : ℕ) : ℝ) = x - 2 ^ l := by
    rw [Nat.cast_sub hlow]
    norm_num
  have hry : (r : ℝ) ≤ y ∧ y < r + 1 := by
    rw [hpart] at hfloor hceil
    have hfloor : ((512 * k + r : ℝ)) * 2 ^ l ≤ 65536 * ((x - 2 ^ l : ℕ) : ℝ) := by
      exact_mod_cast hfloor
    have hceil : 65536 * ((x - 2 ^ l : ℕ) : ℝ) < (512 * k + r + 1 : ℝ) * 2 ^ l := by
      exact_mod_cast hceil
    rw [hsub] at hfloor hceil
    refine ⟨?_, ?_⟩ <;> nlinarith
  have hk0 : (0 : ℝ) ≤ k := Nat.cast_nonneg k
  have hr0 : (0 : ℝ) ≤ r := Nat.cast_nonneg r
  have hy0 : 0 ≤ y := hr0.trans hry.1
  have hend : 65536 + 512 * k + y ≤ 131072 := by nlinarith
  -- its logarithm is that of the start, and at most and at least a part of `y`
  have hstart : Real.log (65536 + 512 * k) = 9 * Real.log 2 + Real.log (128 + k) := by
    rw [show (65536 + 512 * k : ℝ) = 2 ^ 9 * (128 + k) by ring,
      Real.log_mul (by norm_num) (by positivity), Real.log_pow]
    norm_num
  have hseven : Real.log 128 = 7 * Real.log 2 := by
    rw [show (128 : ℝ) = 2 ^ 7 by norm_num, Real.log_pow]
    norm_num
  have hlog : Real.log x + 16 * Real.log 2 = Real.log (65536 + 512 * k + y) + l * Real.log 2 := by
    have hxpos : (0 : ℝ) < x := hpow.trans_le hx
    have hboth := congrArg Real.log hy
    rw [Real.log_mul hxpos.ne' (by norm_num), Real.log_mul (by positivity) hpow.ne',
      show (65536 : ℝ) = 2 ^ 16 by norm_num, Real.log_pow, Real.log_pow] at hboth
    norm_num at hboth ⊢
    linarith
  obtain ⟨hdown, hup⟩ := log_sub_log_bounds (a := 65536 + 512 * k) (b := 65536 + 512 * k + y)
    (by positivity) (by linarith)
  rw [add_sub_cancel_left] at hdown hup
  have hdown : y / 131072 ≤ Real.log (65536 + 512 * k + y) - Real.log (65536 + 512 * k) :=
    (div_le_div_of_nonneg_left hy0 (by positivity) hend).trans hdown
  have hup : Real.log (65536 + 512 * k + y) - Real.log (65536 + 512 * k) ≤ y / 65536 :=
    hup.trans (div_le_div_of_nonneg_left hy0 (by norm_num) (by linarith))
  have hgt := Real.log_two_gt_d9
  have hlt := Real.log_two_lt_d9
  have hfrom : (512 * k + r + kLogLut.getD k 0 : ℝ) ≤ log2FractionPart x l + 2 := by
    exact_mod_cast hfrom
  have hto : (log2FractionPart x l : ℝ) ≤ 512 * k + r + kLogLut.getD k 0 + 1 := by
    exact_mod_cast hto
  have hr' : (r : ℝ) ≤ 511 := by exact_mod_cast Nat.lt_succ_iff.mp hr
  have hfrom := mul_le_mul_of_nonneg_right hfrom (by linarith : 0 ≤ Real.log 2)
  have hto := mul_le_mul_of_nonneg_right hto (by linarith : 0 ≤ Real.log 2)
  have hrlow := mul_le_mul_of_nonneg_left hgt.le hr0
  have hrhigh := mul_le_mul_of_nonneg_left hlt.le hr0
  rw [hstart] at hdown hup
  rw [hseven] at htable
  rw [abs_le]
  refine ⟨?_, ?_⟩ <;> linarith

/-! ## The natural logarithm -/

/-- A number lies in the octave of its most significant bit. -/
theorem octave_spec {x : ℕ} (hx : 0 < x) :
    2 ^ (mostSignificantBit x - 1) ≤ x ∧ x < 2 ^ (mostSignificantBit x - 1 + 1) := by
  have hsize : 0 < x.size := Nat.size_pos.mpr hx
  rw [mostSignificantBit, Nat.sub_add_cancel hsize]
  exact ⟨Nat.lt_size.mp (Nat.sub_lt hsize Nat.one_pos), Nat.lt_size_self x⟩

/-- Rounding division. -/
theorem abs_round_div (n : ℕ) : |(((n + 2 ^ 15) / 2 ^ 16 : ℕ) : ℝ) - n / 65536| ≤ 1 / 2 := by
  have hlow := Nat.div_mul_le_self (n + 2 ^ 15) (2 ^ 16)
  have hhigh := Nat.lt_mul_div_succ (n + 2 ^ 15) (Nat.two_pow_pos 16)
  generalize (n + 2 ^ 15) / 2 ^ 16 = q at hlow hhigh ⊢
  have hlow : (q : ℝ) * 65536 ≤ n + 32768 := by exact_mod_cast hlow
  have hhigh : (n : ℝ) + 32768 < 65536 * (q + 1) := by exact_mod_cast hhigh
  rw [abs_le]
  refine ⟨?_, ?_⟩ <;> linarith

/-- **The logarithm** of a word, scaled up, is off by at most a 384th of the scale
and the half that rounding costs. -/
theorem logOf_near {x : ℕ} (hx : 0 < x) (hword : x < 2 ^ 32) {s : ℕ} (hs : s ≤ 11) :
    |(logOf x s : ℝ) - 2 ^ s * Real.log x| ≤ 2 ^ s / 384 + 1 / 2 := by
  obtain ⟨hlow, hhigh⟩ := octave_spec hx
  have hint : mostSignificantBit x - 1 ≤ 31 := by
    have hsize : x.size ≤ 32 := Nat.size_le.mpr hword
    rw [mostSignificantBit]
    omega
  have hnear := log2_near hlow hhigh
  obtain ⟨-, -, -, -, -, -, -, hfrac⟩ := log2FractionPart_eq hlow hhigh
  rw [logOf]
  generalize mostSignificantBit x - 1 = l at hint hnear hfrac ⊢
  have hlog2 : l * 2 ^ 16 + log2FractionPart x l ≤ 2162688 := by omega
  rw [Nat.mod_eq_of_lt (lt_of_le_of_lt hlog2 (by decide))]
  generalize hg : l * 2 ^ 16 + log2FractionPart x l = g at hlog2 ⊢
  have hcast : (l * 65536 + log2FractionPart x l : ℝ) = g := by exact_mod_cast hg
  rw [hcast] at hnear
  have hloge := abs_round_div (45426 * g)
  rw [show 2 ^ 16 / 2 = 2 ^ 15 from rfl]
  have hbound : (45426 * g + 2 ^ 15) / 2 ^ 16 ≤ 1499064 := by omega
  generalize (45426 * g + 2 ^ 15) / 2 ^ 16 = e at hloge hbound ⊢
  have hscale : e * 2 ^ s ≤ 1499064 * 2 ^ 11 :=
    Nat.mul_le_mul hbound (Nat.pow_le_pow_right Nat.two_pos hs)
  have hround := abs_round_div (e * 2 ^ s)
  rw [Nat.mod_eq_of_lt (lt_of_le_of_lt hbound (by decide)),
    Nat.mod_eq_of_lt (lt_of_le_of_lt hscale (by decide)), Nat.mod_eq_of_lt (by omega)]
  generalize (e * 2 ^ s + 2 ^ 15) / 2 ^ 16 = out at hround ⊢
  push_cast at hloge hround
  have hgt := Real.log_two_gt_d9
  have hlt := Real.log_two_lt_d9
  have hg0 : (0 : ℝ) ≤ g := Nat.cast_nonneg g
  have hg1 : (g : ℝ) ≤ 2162688 := by exact_mod_cast hlog2
  -- the error of the integer logarithm, before it is scaled
  have herror : |(e : ℝ) / 65536 - Real.log x| ≤ 1 / 384 := by
    rw [abs_le] at hloge hnear ⊢
    refine ⟨?_, ?_⟩ <;> nlinarith
  have hpow : (0 : ℝ) < 2 ^ s := by positivity
  calc |(out : ℝ) - 2 ^ s * Real.log x|
      = |(out - e * 2 ^ s / 65536) + 2 ^ s * (e / 65536 - Real.log x)| := by
        congr 1
        ring
    _ ≤ |(out : ℝ) - e * 2 ^ s / 65536| + |2 ^ s * (e / 65536 - Real.log x)| := abs_add_le _ _
    _ ≤ 1 / 2 + 2 ^ s * (1 / 384) := by
        refine add_le_add hround ?_
        rw [abs_mul, abs_of_pos hpow]
        exact mul_le_mul_of_nonneg_left herror hpow.le
    _ = 2 ^ s / 384 + 1 / 2 := by ring

/-- The logarithm of what the gain control leaves, without the correction wrapping. -/
theorem logOf_left {v : ℕ} (hpos : 0 < v) (hv : v < 2 ^ 26) :
    |(logOf (v * 2 ^ 3 % 2 ^ 32) 6 : ℝ) - 64 * Real.log (8 * v)| ≤ 2 / 3 ∧
      logOf (v * 2 ^ 3 % 2 ^ 32) 6 < 0xFFFF := by
  rw [Nat.mod_eq_of_lt (by omega)]
  have hnear := logOf_near (x := v * 2 ^ 3) (by omega) (by omega) (s := 6) (by decide)
  have hcast : ((v * 2 ^ 3 : ℕ) : ℝ) = 8 * v := by
    push_cast
    ring
  have hbits : Real.log (8 * v) ≤ 29 * Real.log 2 := by
    have hle : (8 * v : ℝ) ≤ 2 ^ 29 := by
      have hlt : (v : ℝ) ≤ 2 ^ 26 := by exact_mod_cast hv.le
      linarith
    have hmono := Real.log_le_log (by positivity) hle
    rwa [Real.log_pow] at hmono
  have hlt := Real.log_two_lt_d9
  rw [hcast] at hnear
  norm_num at hnear
  refine ⟨hnear, ?_⟩
  have hup := (abs_le.mp hnear).2
  have hreal : (logOf (v * 8) 6 : ℝ) < 0xFFFF := by linarith
  exact_mod_cast hreal

/-- **The features**: what the gain control leaves of a channel comes out as zero
if it is nothing, else as 64 times the natural logarithm of its eightfold, to two
thirds. -/
theorem feature_near (p : PcanGainControl) {c : ℕ} (estimate signal : Vector UInt32 c)
    (i : Fin c) :
    if (pcanGainControlApply p estimate signal).get i = 0 then
      (logScaleApply wakeLogScale (pcanGainControlApply p estimate signal) 3).get i = 0
    else
      |(((logScaleApply wakeLogScale (pcanGainControlApply p estimate signal) 3).get i).toNat : ℝ) -
        64 * Real.log (8 * ((pcanGainControlApply p estimate signal).get i).toNat)| ≤ 2 / 3 := by
  have hleft : ((pcanGainControlApply p estimate signal).get i).toNat < 2 ^ 26 := by
    rw [pcanGainControlApply, Vector.get_ofFn]
    exact pcanShrink_lt _
  simp only [Vector.get_eq_getElem, logScaleApply, Vector.getElem_map] at hleft ⊢
  generalize (pcanGainControlApply p estimate signal)[(i : ℕ)] = v at hleft ⊢
  split
  · next hzero =>
    have hnone : ¬ 1 < v.toNat * 2 ^ (3 : ℤ).natAbs % 2 ^ 32 := by
      rw [hzero]
      decide
    simp only [wakeLogScale, if_true, if_neg (by decide : ¬ (3 : ℤ) < 0), if_neg hnone]
    rfl
  · next hne =>
    have hpos : 0 < v.toNat := Nat.pos_of_ne_zero fun h0 => hne (UInt32.toNat_inj.mp h0)
    obtain ⟨hnear, hsmall⟩ := logOf_left hpos hleft
    have hone : 1 < v.toNat * 2 ^ (3 : ℤ).natAbs % 2 ^ 32 := by
      show 1 < v.toNat * 2 ^ 3 % 2 ^ 32
      omega
    simp only [wakeLogScale, if_true, if_neg (by decide : ¬ (3 : ℤ) < 0), if_pos hone]
    rw [show (3 : ℤ).natAbs = 3 from rfl, if_pos hsmall]
    rw [UInt16.toNat_ofNat_of_lt' (hsmall.trans (by decide))]
    exact hnear

end PipecatVoice.Frontend
