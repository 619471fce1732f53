import Mathlib.Data.Nat.Size
import PipecatVoice.Lib.BitSqrt

/-!
# Before and behind the transform

In the audio frontend of the wake word a window is weighted and scaled up to the
resolution of the transform; of the energy of each channel the root is taken. Words
wrap as they do in C.

* `windowed`, `inputShift`, `fftInput` — the window and the scaling;
* `scaled_exact_iff` — when scaling loses nothing;
* `sqrt32`, `sqrt64` — the roots; `sqrt64_near` says how near they are.
-/

namespace PipecatVoice.Frontend

/-- `MostSignificantBit32`, `MostSignificantBit64`: how many bits a number takes. -/
def mostSignificantBit (n : ℕ) : ℕ := n.size

/-! ## The window -/

/-- One sample under the window (`kFrontendWindowBits`). -/
def windowed (sample coefficient : Int16) : Int16 :=
  Int16.ofInt ((sample.toInt * coefficient.toInt) / 2 ^ 12)

/-- What the loop takes for the absolute value: the least number stays negative. -/
def abs16 (v : Int16) : Int16 := if v < 0 then -v else v

/-- `max_abs_output_value` -/
def maxAbsOutputValue (output : List Int16) : Int16 :=
  output.foldl (fun m v => if m < abs16 v then abs16 v else m) 0

/-- `input_shift` of `FrontendProcessSamples` -/
def inputShift (output : List Int16) : ℕ :=
  15 - mostSignificantBit (maxAbsOutputValue output).toInt.toNat

/-- A sample scaled up for the transform, in 16 bits. -/
def scaled (shift : ℕ) (v : Int16) : Int16 := Int16.ofInt (v.toInt * 2 ^ shift)

/-- What `FftCompute` transforms: the window, scaled up, and zeros behind it. -/
def fftInput (fftSize shift : ℕ) (output : List Int16) : List Int16 :=
  output.map (scaled shift) ++ List.replicate (fftSize - output.length) 0

/-- The least number, which has no absolute value. -/
def least : Int16 := -32768

theorem toInt_abs16 {v : Int16} (h : v ≠ least) : (abs16 v).toInt = |v.toInt| := by
  have hne : v.toInt ≠ -32768 := fun hv => h (Int16.toInt_inj.mp hv)
  have hlow := Int16.le_toInt v
  have hhigh := Int16.toInt_lt v
  rw [abs16]
  split
  · next hneg =>
    have hneg : v.toInt < 0 := Int16.lt_iff_toInt_lt.mp hneg
    rw [abs_of_neg hneg, Int16.toInt_neg]
    exact Int.bmod_eq_of_le (by omega) (by omega)
  · next hpos =>
    have hpos : ¬ v.toInt < 0 := fun hlt => hpos (Int16.lt_iff_toInt_lt.mpr hlt)
    rw [abs_of_nonneg (by omega)]

theorem abs16_least : abs16 least = least := by decide

/-- The fold keeps the largest absolute value, the least number apart. -/
theorem foldl_abs16 (output : List Int16) : ∀ m : Int16, 0 ≤ m.toInt →
    let top := output.foldl (fun m v => if m < abs16 v then abs16 v else m) m
    m.toInt ≤ top.toInt ∧ (∀ v ∈ output, v ≠ least → |v.toInt| ≤ top.toInt) ∧
      (top = m ∨ ∃ v ∈ output, v ≠ least ∧ |v.toInt| = top.toInt) := by
  induction output with
  | nil => exact fun m _ => ⟨le_refl _, fun _ hv => absurd hv List.not_mem_nil, .inl rfl⟩
  | cons v output ih =>
    intro m hm
    rw [List.foldl_cons]
    by_cases hlt : m < abs16 v
    · have hne : v ≠ least := by
        rintro rfl
        rw [abs16_least, Int16.lt_iff_toInt_lt] at hlt
        exact absurd (hm.trans_lt hlt) (by decide)
      have habs := toInt_abs16 hne
      have hup := Int16.lt_iff_toInt_lt.mp hlt
      rw [if_pos hlt]
      obtain ⟨hle, hall, hreach⟩ := ih (abs16 v) (by omega)
      refine ⟨by omega, fun u hu hleast => ?_, ?_⟩
      · obtain rfl | hu := List.mem_cons.mp hu
        · exact habs ▸ hle
        · exact hall u hu hleast
      · obtain htop | ⟨u, hu, hleast, hval⟩ := hreach
        · exact .inr ⟨v, List.mem_cons_self, hne, by rw [htop, habs]⟩
        · exact .inr ⟨u, List.mem_cons_of_mem v hu, hleast, hval⟩
    · rw [if_neg hlt]
      obtain ⟨hle, hall, hreach⟩ := ih m hm
      refine ⟨hle, fun u hu hleast => ?_, ?_⟩
      · obtain rfl | hu := List.mem_cons.mp hu
        · have hdown : ¬ m.toInt < (abs16 u).toInt := fun h =>
            hlt (Int16.lt_iff_toInt_lt.mpr h)
          rw [toInt_abs16 hleast] at hdown
          omega
        · exact hall u hu hleast
      · obtain htop | ⟨u, hu, hleast, hval⟩ := hreach
        · exact .inl htop
        · exact .inr ⟨u, List.mem_cons_of_mem v hu, hleast, hval⟩

/-- What `max_abs_output_value` is. -/
theorem maxAbsOutputValue_spec (output : List Int16) :
    0 ≤ (maxAbsOutputValue output).toInt ∧
      (∀ v ∈ output, v ≠ least → |v.toInt| ≤ (maxAbsOutputValue output).toInt) ∧
      ((maxAbsOutputValue output).toInt = 0 ∨
        ∃ v ∈ output, v ≠ least ∧ |v.toInt| = (maxAbsOutputValue output).toInt) := by
  obtain ⟨hle, hall, hreach⟩ := foldl_abs16 output 0 (le_refl _)
  exact ⟨hle, hall, hreach.imp_left fun h => congrArg Int16.toInt h⟩

theorem toInt_scaled {shift : ℕ} {v : Int16} (hlow : -2 ^ 15 ≤ v.toInt * 2 ^ shift)
    (hhigh : v.toInt * 2 ^ shift < 2 ^ 15) : (scaled shift v).toInt = v.toInt * 2 ^ shift := by
  exact Int16.toInt_ofInt_of_le (by omega) (by omega)

/-- The shift takes the largest absolute value up to the top bit below the sign. -/
theorem inputShift_spec (output : List Int16) :
    (maxAbsOutputValue output).toInt * 2 ^ inputShift output < 2 ^ 15 ∧
      ((maxAbsOutputValue output).toInt ≠ 0 →
        2 ^ 14 ≤ (maxAbsOutputValue output).toInt * 2 ^ inputShift output) ∧
      (inputShift output = 0 ↔ 2 ^ 14 ≤ (maxAbsOutputValue output).toInt) := by
  obtain ⟨hpos, -⟩ := maxAbsOutputValue_spec output
  have hlt := Int16.toInt_lt (maxAbsOutputValue output)
  obtain ⟨m, hm⟩ := Int.eq_ofNat_of_zero_le hpos
  rw [inputShift, mostSignificantBit, hm, Int.toNat_natCast]
  have hsize : m.size ≤ 15 := Nat.size_le.mpr (by omega)
  have hbelow := Nat.lt_size_self m
  have hprod : m * 2 ^ (15 - m.size) < 2 ^ 15 := by
    calc m * 2 ^ (15 - m.size) < 2 ^ m.size * 2 ^ (15 - m.size) :=
          Nat.mul_lt_mul_of_pos_right hbelow (Nat.two_pow_pos _)
      _ = 2 ^ 15 := by rw [← Nat.pow_add, Nat.add_sub_cancel' hsize]
  refine ⟨by exact_mod_cast hprod, fun hne => ?_, ?_⟩
  · have hm0 : 0 < m := by omega
    have hsize0 : 0 < m.size := Nat.size_pos.mpr hm0
    have hhalf : 2 ^ (m.size - 1) ≤ m := Nat.lt_size.mp (by omega)
    have hge : 2 ^ 14 ≤ m * 2 ^ (15 - m.size) := by
      calc 2 ^ 14 = 2 ^ (m.size - 1) * 2 ^ (15 - m.size) := by
            rw [← Nat.pow_add]
            congr 1
            omega
        _ ≤ m * 2 ^ (15 - m.size) := Nat.mul_le_mul_right _ hhalf
    exact_mod_cast hge
  · have hiff : 15 - m.size = 0 ↔ 2 ^ 14 ≤ m := by
      rw [← Nat.lt_size]
      omega
    rw [hiff]
    exact_mod_cast Iff.rfl

/-- **Scaling loses nothing, exactly**: every sample of a window is scaled up
without a carry into the sign unless the least number is in it and nothing else is
loud enough to keep the shift at zero; and a window with anything in it comes to
use the top bit. -/
theorem scaled_exact_iff (output : List Int16) :
    ((∀ v ∈ output, (scaled (inputShift output) v).toInt = v.toInt * 2 ^ inputShift output) ↔
      (least ∈ output → ∃ v ∈ output, v ≠ least ∧ 2 ^ 14 ≤ |v.toInt|)) ∧
    ((∃ v ∈ output, v ≠ least ∧ v ≠ 0) →
      ∃ v ∈ output, 2 ^ 14 ≤ |(scaled (inputShift output) v).toInt|) := by
  obtain ⟨hpos, hall, hreach⟩ := maxAbsOutputValue_spec output
  obtain ⟨htop, hfull, hzero⟩ := inputShift_spec output
  have hpow : (0 : ℤ) < 2 ^ inputShift output := by positivity
  have hone : ∀ v ∈ output, v ≠ least →
      (scaled (inputShift output) v).toInt = v.toInt * 2 ^ inputShift output := by
    intro v hv hne
    have hbound := abs_le.mp (hall v hv hne)
    refine toInt_scaled ?_ ?_
    · nlinarith [hbound.1]
    · nlinarith [hbound.2]
  refine ⟨⟨fun h hleast => ?_, fun h v hv => ?_⟩, ?_⟩
  · by_contra hquiet
    have hshift : inputShift output ≠ 0 := by
      intro hz
      have hloud := hzero.mp hz
      obtain h0 | ⟨v, hv, hne, hval⟩ := hreach
      · omega
      · exact hquiet ⟨v, hv, hne, hval ▸ hloud⟩
    have hexact := h least hleast
    have hlow := Int16.le_toInt (scaled (inputShift output) least)
    rw [hexact] at hlow
    have htwo : (2 : ℤ) ≤ 2 ^ inputShift output := by
      calc (2 : ℤ) = 2 ^ 1 := rfl
        _ ≤ 2 ^ inputShift output := pow_le_pow_right₀ (by decide) (by omega)
    have hval : least.toInt = -32768 := by decide
    rw [hval] at hlow
    omega
  · by_cases hne : v = least
    · obtain ⟨u, hu, hu', hloud⟩ := h (hne ▸ hv)
      have hshift := hzero.mpr (hloud.trans (hall u hu hu'))
      rw [hshift, pow_zero, mul_one, scaled, pow_zero, mul_one, Int16.ofInt_toInt]
    · exact hone v hv hne
  · rintro ⟨u, hu, hne, hu0⟩
    have habs : 0 < |u.toInt| := abs_pos.mpr fun h => hu0 (Int16.toInt_inj.mp h)
    have hbig := hall u hu hne
    obtain h0 | ⟨v, hv, hne', hval⟩ := hreach
    · omega
    · refine ⟨v, hv, ?_⟩
      rw [hone v hv hne', abs_mul, hval, abs_of_pos hpow]
      exact hfull (by omega)

/-! ## Roots -/

/-- What the two functions share: what is left of a number, and its root. -/
def rootLoop {w : ℕ} (num : BitVec w) : BitVec w × BitVec w :=
  let maxBitNumber := (w - mostSignificantBit num.toNat) ||| 1
  BitSqrt.loop ((w - 1 - maxBitNumber) / 2 + 1) num 0
    ((1 : BitVec w) <<< (w - 1 - maxBitNumber))

/-- `Sqrt32` -/
def sqrt32 (num : BitVec 32) : BitVec 16 :=
  if num = 0 then 0
  else
    let res := (rootLoop num).2
    (if res < (rootLoop num).1 ∧ res ≠ 0xFFFF then res + 1 else res).setWidth 16

/-- `Sqrt64` -/
def sqrt64 (num : BitVec 64) : BitVec 32 :=
  if num >>> 32 = 0 then (sqrt32 (num.setWidth 32)).setWidth 32
  else
    let res := (rootLoop num).2
    (if res < (rootLoop num).1 ∧ res ≠ 0xFFFFFFFF then res + 1 else res).setWidth 32

theorem or_one (x : ℕ) : x ||| 1 = 2 * (x / 2) + 1 := by
  have hdiv : (x ||| 1) / 2 = x / 2 := by
    rw [Nat.or_div_two]
    exact Nat.or_zero _
  have hmod : (x ||| 1) % 2 = 1 := by
    rw [Nat.or_mod_two_eq_one]
    exact .inr rfl
  have hsplit := Nat.div_add_mod (x ||| 1) 2
  rw [hdiv, hmod] at hsplit
  exact hsplit.symm

/-- **The loop finds the root** of a number, and what is left above its square. -/
theorem rootLoop_spec {h : ℕ} {num : BitVec (2 * h)} (hnum : num ≠ 0) :
    (rootLoop num).2.toNat = num.toNat.sqrt ∧
      (rootLoop num).1.toNat + num.toNat.sqrt ^ 2 = num.toNat := by
  have hpos : 0 < num.toNat := Nat.pos_of_ne_zero fun h0 => hnum (BitVec.eq_of_toNat_eq h0)
  have hsize0 : 0 < num.toNat.size := Nat.size_pos.mpr hpos
  have hsize : num.toNat.size ≤ 2 * h := Nat.size_le.mpr num.isLt
  have hbelow := Nat.lt_size_self num.toNat
  obtain ⟨k, hk⟩ : ∃ k, (num.toNat.size + 1) / 2 = k + 1 :=
    Nat.exists_eq_succ_of_ne_zero (by omega)
  have hbit : 2 * h - 1 - ((2 * h - mostSignificantBit num.toNat) ||| 1) = 2 * k := by
    rw [or_one, mostSignificantBit]
    omega
  have hfour : (2 : ℕ) ^ (2 * (k + 1)) = (2 ^ (k + 1)) ^ 2 := by
    rw [← Nat.pow_mul, Nat.mul_comm]
  rw [rootLoop, hbit, Nat.mul_div_cancel_left k Nat.two_pos]
  refine BitSqrt.loop_spec (k + 1) 0 ?_ ?_ ?_ ?_ ?_
  · rw [Nat.zero_mul]
    rfl
  · rw [Nat.zero_mul, Nat.zero_pow Nat.two_pos, Nat.add_zero]
  · rw [Nat.zero_add, Nat.one_mul, ← hfour]
    exact hbelow.trans_le (Nat.pow_le_pow_right Nat.two_pos (by omega))
  · rw [Nat.zero_add, Nat.one_mul, ← hfour]
    exact Nat.pow_le_pow_right Nat.two_pos (by omega)
  · rintro j hj
    obtain rfl := Nat.succ.inj hj
    have hone : (1 : BitVec (2 * h)).toNat = 1 := BitVec.toNat_one (by omega)
    rw [BitVec.toNat_shiftLeft, hone, Nat.shiftLeft_eq, Nat.one_mul, Nat.pow_mul]
    refine Nat.mod_eq_of_lt ?_
    rw [← Nat.pow_mul]
    exact Nat.pow_lt_pow_right Nat.one_lt_two (by omega)

/-- The root is rounded by what is left, except at the largest. -/
theorem rounded_rootLoop {h top : ℕ} {num : BitVec (2 * h)} (hnum : num ≠ 0)
    (htop : top < 2 ^ (2 * h) - 1) (hroot : num.toNat.sqrt ≤ top) :
    (if (rootLoop num).2 < (rootLoop num).1 ∧ (rootLoop num).2 ≠ BitVec.ofNat (2 * h) top
      then (rootLoop num).2 + 1 else (rootLoop num).2).toNat =
      min (BitSqrt.nearest num.toNat) top := by
  obtain ⟨hres, hleft⟩ := rootLoop_spec hnum
  have hsq := Nat.sqrt_le' num.toNat
  have hlt : (rootLoop num).2 < (rootLoop num).1 ↔
      num.toNat.sqrt < num.toNat - num.toNat.sqrt ^ 2 := by
    rw [BitVec.lt_def, hres]
    omega
  have hmax : (rootLoop num).2 = BitVec.ofNat (2 * h) top ↔ num.toNat.sqrt = top := by
    rw [← BitVec.toNat_inj, hres, BitVec.toNat_ofNat, Nat.mod_eq_of_lt (by omega)]
  rw [BitSqrt.nearest]
  by_cases hup : num.toNat.sqrt < num.toNat - num.toNat.sqrt ^ 2
  · by_cases hlast : num.toNat.sqrt = top
    · rw [if_neg fun h => h.2 (hmax.mpr hlast), if_pos hup, hres]
      omega
    · have hwide : 0 < 2 * h := Nat.pos_of_ne_zero fun h0 => by
        rw [h0] at htop
        exact absurd htop (Nat.not_lt_zero _)
      have hone : (1 : BitVec (2 * h)).toNat = 1 := BitVec.toNat_one hwide
      have hnext : ((rootLoop num).2 + 1).toNat = num.toNat.sqrt + 1 := by
        rw [BitVec.toNat_add, hres, hone]
        exact Nat.mod_eq_of_lt (by omega)
      rw [if_pos ⟨hlt.mpr hup, mt hmax.mp hlast⟩, if_pos hup, hnext]
      omega
  · rw [if_neg fun h => hup (hlt.mp h.1), if_neg hup, hres]
    omega

theorem toNat_sqrt32 (num : BitVec 32) :
    (sqrt32 num).toNat = min (BitSqrt.nearest num.toNat) 0xFFFF := by
  by_cases hzero : num = 0
  · rw [hzero]
    decide
  · have hroot : num.toNat.sqrt ≤ 0xFFFF := by
      have hlt := Nat.sqrt_lt'.mpr (show num.toNat < (2 ^ 16) ^ 2 from num.isLt)
      omega
    have hround := rounded_rootLoop (h := 16) hzero (by decide) hroot
    rw [sqrt32, if_neg hzero, BitVec.toNat_setWidth]
    refine (congrArg (· % 2 ^ 16) hround).trans (Nat.mod_eq_of_lt ?_)
    exact lt_of_le_of_lt (Nat.min_le_right _ _) (by decide)

/-- `Sqrt64` is `Sqrt32` where the upper word is clear. -/
theorem toNat_sqrt64 (num : BitVec 64) : (sqrt64 num).toNat =
    min (BitSqrt.nearest num.toNat) (if num.toNat < 2 ^ 32 then 0xFFFF else 0xFFFFFFFF) := by
  have hupper : num >>> 32 = 0 ↔ num.toNat < 2 ^ 32 := by
    rw [← BitVec.toNat_inj, BitVec.toNat_ushiftRight, Nat.shiftRight_eq_div_pow]
    exact Nat.div_eq_zero_iff.trans (or_iff_right (by decide))
  rw [sqrt64]
  by_cases hclear : num.toNat < 2 ^ 32
  · rw [if_pos (hupper.mpr hclear), if_pos hclear, BitVec.toNat_setWidth, toNat_sqrt32,
      BitVec.toNat_setWidth, Nat.mod_eq_of_lt hclear]
    exact Nat.mod_eq_of_lt (lt_of_le_of_lt (Nat.min_le_right _ _) (by decide))
  · have hzero : num ≠ 0 := fun h => hclear (by rw [h]; decide)
    have hroot : num.toNat.sqrt ≤ 0xFFFFFFFF := by
      have hlt := Nat.sqrt_lt'.mpr (show num.toNat < (2 ^ 32) ^ 2 from num.isLt)
      omega
    have hround := rounded_rootLoop (h := 32) hzero (by decide) hroot
    rw [if_neg (mt hupper.mp hclear), if_neg hclear, BitVec.toNat_setWidth]
    refine (congrArg (· % 2 ^ 32) hround).trans (Nat.mod_eq_of_lt ?_)
    exact lt_of_le_of_lt (Nat.min_le_right _ _) (by decide)

/-- **The root of every number** is less than one away from the real one. It is the
nearest integer except next to 2³² and next to 2⁶⁴, where that would take a bit
more. -/
theorem sqrt64_near (num : BitVec 64) :
    |((sqrt64 num).toNat : ℝ) - √num.toNat| < 1 ∧
      (|((sqrt64 num).toNat : ℝ) - √num.toNat| < 1 / 2 ↔
        num.toNat ∉ Set.Icc 0xFFFF0001 0xFFFFFFFF ∧ num.toNat ≤ 0xFFFFFFFF00000000) := by
  rw [toNat_sqrt64]
  by_cases hclear : num.toNat < 2 ^ 32
  · have hroom : num.toNat < (0xFFFF + 1) ^ 2 := hclear
    obtain ⟨hone, hhalf⟩ := BitSqrt.abs_min_nearest_sub_sqrt hroom
    rw [if_pos hclear]
    refine ⟨hone, hhalf.trans ?_⟩
    rw [Set.mem_Icc]
    omega
  · have hroom : num.toNat < (0xFFFFFFFF + 1) ^ 2 := num.isLt
    obtain ⟨hone, hhalf⟩ := BitSqrt.abs_min_nearest_sub_sqrt hroom
    rw [if_neg hclear]
    refine ⟨hone, hhalf.trans ?_⟩
    rw [Set.mem_Icc]
    omega

end PipecatVoice.Frontend
