import Mathlib.Algebra.Group.Action.Defs
import PipecatVoice.Lib.Checked
import PipecatVoice.Lib.NewtonSqrt
import PipecatVoice.Session

/-!
# The microphone gate

`captureTask` takes the user to be speaking when the root mean square of a frame
reaches `kMicActiveRmsThreshold`. The root is eight Newton steps, which for loud
frames stop before they converge. Here `rms_i16` runs with every division and
every range checked, and its result is compared with the square root.

* `rmsI16?` — `rms_i16` with its checks;
* `root_near` — the result is the square root, or up to four per cent above it;
* `threshold_le_root` — at the threshold the gate is exact;
* `micLoud_iff` — and so is what `captureStep` asks of a frame.
-/

namespace PipecatVoice

open Checked NewtonSqrt

/-! ## The source with its checks -/

/-- `sumSq`, the square checked in 32 bits and the sum in 64. -/
def sumSq? (samples : List Int16) : Option ℕ :=
  samples.foldlM (fun sumsq s => do
    let sq ← int32? (s.toInt * s.toInt)
    unsigned? 64 (sumsq + sq.toNat)) 0

/-- `newtonStep`, its division and its sum checked. -/
def newtonStep? (meansq guess : ℕ) : Option ℕ := do
  let quotient ← div? meansq guess
  let sum ← unsigned? 32 (guess + quotient)
  return sum / 2

/-- `rms_i16` with its checks. -/
def rmsI16? (samples : List Int16) : Option ℕ :=
  if samples.length = 0 then some 0
  else do
    let meansq ← unsigned? 32 (← div? (← sumSq? samples) samples.length)
    if meansq = 0 then some 0
    else
      let guess := if meansq > 65536 then 256 else 16
      (List.range 8).foldlM (fun guess _ => newtonStep? meansq guess) guess

/-! ## The mean square -/

/-- The square of a sample. -/
def sampleSq (s : Int16) : ℕ := s.toInt.natAbs ^ 2

/-- The mean square of a frame, rounded down. -/
def meanSq (samples : List Int16) : ℕ := (samples.map sampleSq).sum / samples.length

theorem toNat_mul_self (s : Int16) : (s.toInt * s.toInt).toNat = sampleSq s := by
  rw [sampleSq, sq, ← Int.natAbs_mul, ← Int.toNat_of_nonneg (mul_self_nonneg s.toInt)]
  rfl

theorem sampleSq_le (s : Int16) : sampleSq s ≤ 2 ^ 30 := by
  have hrange := toInt_range s
  have habs : s.toInt.natAbs ≤ 2 ^ 15 := by omega
  exact Nat.pow_le_pow_left habs 2

theorem int32?_mul_self (s : Int16) : int32? (s.toInt * s.toInt) = some (s.toInt * s.toInt) := by
  have hrange := toInt_range s
  obtain ⟨hlo, hhi⟩ := mul_range (a := 32768) (b := 32768) (x := s.toInt) (y := s.toInt)
    (by omega) (by omega)
  exact int32?_eq (by omega)

theorem sum_sampleSq_le (samples : List Int16) :
    (samples.map sampleSq).sum ≤ samples.length * 2 ^ 30 := by
  rw [← List.length_map (f := sampleSq), ← smul_eq_mul]
  apply List.sum_le_card_nsmul
  intro x hx
  obtain ⟨s, -, rfl⟩ := List.mem_map.mp hx
  exact sampleSq_le s

theorem meanSq_le (samples : List Int16) : meanSq samples ≤ 2 ^ 30 :=
  Nat.div_le_of_le_mul (sum_sampleSq_le samples)

theorem toNat_ofNat_sampleSq (s : Int16) : (UInt64.ofNat (sampleSq s)).toNat = sampleSq s := by
  exact UInt64.toNat_ofNat_of_lt' (lt_of_le_of_lt (sampleSq_le s) (by decide))

/-- **The sum**: while the partial sums have room for what is left, the loop with its
checks and the one without add up the squares. -/
theorem foldlM_sumSq (samples : List Int16) :
    ∀ acc : UInt64, acc.toNat + samples.length * 2 ^ 30 < 2 ^ 64 →
      (samples.foldlM (fun sumsq s => do
          let sq ← int32? (s.toInt * s.toInt)
          unsigned? 64 (sumsq + sq.toNat)) acc.toNat =
        some (acc.toNat + (samples.map sampleSq).sum)) ∧
      (samples.foldl (fun sumsq s => sumsq + UInt64.ofNat (s.toInt * s.toInt).toNat) acc).toNat =
        acc.toNat + (samples.map sampleSq).sum := by
  induction samples with
  | nil =>
    intro acc _
    exact ⟨rfl, rfl⟩
  | cons s samples ih =>
    intro acc hroom
    have hle := sampleSq_le s
    rw [List.length_cons] at hroom
    have hnext : (acc + UInt64.ofNat (sampleSq s)).toNat = acc.toNat + sampleSq s := by
      rw [UInt64.toNat_add, toNat_ofNat_sampleSq]
      exact Nat.mod_eq_of_lt (by omega)
    obtain ⟨hchecked, hwrapping⟩ := ih (acc + UInt64.ofNat (sampleSq s)) (by omega)
    rw [hnext] at hchecked hwrapping
    have hfits : unsigned? 64 (acc.toNat + sampleSq s) = some (acc.toNat + sampleSq s) :=
      unsigned?_eq (by omega)
    rw [List.map_cons, List.sum_cons, ← add_assoc]
    refine ⟨?_, ?_⟩
    · rw [List.foldlM_cons, int32?_mul_self]
      simp only [Option.bind_eq_bind, Option.bind_some, toNat_mul_self, hfits]
      exact hchecked
    · rw [List.foldl_cons, toNat_mul_self]
      exact hwrapping

theorem sumSq?_eq {samples : List Int16} (h : samples.length < 2 ^ 33) :
    sumSq? samples = some (samples.map sampleSq).sum := by
  have hsum := (foldlM_sumSq samples 0 (by rw [UInt64.toNat_zero]; omega)).1
  rwa [UInt64.toNat_zero, Nat.zero_add] at hsum

theorem toNat_sumSq {samples : List Int16} (h : samples.length < 2 ^ 33) :
    (sumSq samples).toNat = (samples.map sampleSq).sum := by
  have hsum := (foldlM_sumSq samples 0 (by rw [UInt64.toNat_zero]; omega)).2
  rwa [UInt64.toNat_zero, Nat.zero_add] at hsum

/-- The quotient that is cast to 32 bits. -/
theorem toNat_meansq {samples : List Int16} (h : samples.length < 2 ^ 33) :
    (sumSq samples / UInt64.ofNat samples.length).toUInt32.toNat = meanSq samples := by
  have hle := meanSq_le samples
  have hlength : (UInt64.ofNat samples.length).toNat = samples.length :=
    UInt64.toNat_ofNat_of_lt' (h.trans (by decide))
  rw [UInt64.toNat_toUInt32, UInt64.toNat_div, toNat_sumSq h, hlength]
  exact Nat.mod_eq_of_lt (lt_of_le_of_lt hle (by norm_num))

/-! ## The root -/

/-- **One step**: the sum fits, and the next guess is as small. -/
theorem newtonStep?_eq {meansq guess : UInt32} (hm : 0 < meansq.toNat)
    (hm' : meansq.toNat < 2 ^ 31) (hg : 0 < guess.toNat) (hg' : guess.toNat < 2 ^ 31) :
    newtonStep? meansq.toNat guess.toNat = some (newtonStep meansq guess).toNat ∧
      (newtonStep meansq guess).toNat = newton meansq.toNat guess.toNat ∧
      0 < (newtonStep meansq guess).toNat ∧ (newtonStep meansq guess).toNat < 2 ^ 31 := by
  have hquotient : meansq.toNat / guess.toNat ≤ meansq.toNat := Nat.div_le_self _ _
  have hpositive : 2 ≤ guess.toNat + meansq.toNat / guess.toNat := by
    rcases Nat.eq_or_lt_of_le (Nat.succ_le_of_lt hg) with hone | htwo
    · rw [← hone, Nat.succ_eq_add_one, Nat.zero_add, Nat.div_one]
      omega
    · exact Nat.le_add_right_of_le htwo
  have hsum : (guess + meansq / guess).toNat = guess.toNat + meansq.toNat / guess.toNat := by
    rw [UInt32.toNat_add, UInt32.toNat_div]
    exact Nat.mod_eq_of_lt (by omega)
  have hnewton : (newtonStep meansq guess).toNat = newton meansq.toNat guess.toNat := by
    rw [newtonStep, UInt32.toNat_div, hsum]
    rfl
  have hfits : unsigned? 32 (guess.toNat + meansq.toNat / guess.toNat) =
      some (guess.toNat + meansq.toNat / guess.toNat) := unsigned?_eq (by omega)
  refine ⟨?_, hnewton, ?_, ?_⟩
  · rw [hnewton, newtonStep?, div?_eq hg.ne']
    simp only [Option.bind_eq_bind, Option.bind_some, hfits]
    rfl
  · rw [hnewton, newton]
    omega
  · rw [hnewton, newton]
    omega

/-- **Any number of steps.** -/
theorem foldlM_newtonStep? {meansq : UInt32} (hm : 0 < meansq.toNat)
    (hm' : meansq.toNat < 2 ^ 31) (l : List ℕ) :
    ∀ guess : UInt32, 0 < guess.toNat → guess.toNat < 2 ^ 31 →
      (l.foldlM (fun guess _ => newtonStep? meansq.toNat guess) guess.toNat =
        some (l.foldl (fun guess _ => newtonStep meansq guess) guess).toNat) ∧
      (l.foldl (fun guess _ => newtonStep meansq guess) guess).toNat =
        (newton meansq.toNat)^[l.length] guess.toNat := by
  induction l with
  | nil =>
    intro guess _ _
    exact ⟨rfl, rfl⟩
  | cons i l ih =>
    intro guess hg hg'
    obtain ⟨hstep, hnewton, hnext, hnext'⟩ := newtonStep?_eq hm hm' hg hg'
    obtain ⟨hchecked, hroot⟩ := ih (newtonStep meansq guess) hnext hnext'
    refine ⟨?_, ?_⟩
    · rw [List.foldlM_cons, hstep]
      exact hchecked
    · rw [List.foldl_cons, hroot, hnewton]
      rfl

/-- The first guess. -/
def firstGuess (meansq : ℕ) : ℕ := if meansq > 65536 then 256 else 16

theorem toNat_firstGuess (meansq : UInt32) :
    (if meansq > 65536 then 256 else 16 : UInt32).toNat = firstGuess meansq.toNat ∧
      0 < (if meansq > 65536 then 256 else 16 : UInt32).toNat ∧
      (if meansq > 65536 then 256 else 16 : UInt32).toNat < 2 ^ 31 := by
  have hiff : meansq > 65536 ↔ meansq.toNat > 65536 := UInt32.lt_iff_toNat_lt
  rw [firstGuess]
  by_cases hbig : meansq > 65536
  · rw [if_pos hbig, if_pos (hiff.mp hbig)]
    decide
  · rw [if_neg hbig, if_neg (mt hiff.mpr hbig)]
    decide

/-- What the steps compute. -/
def root (meansq : ℕ) : ℕ := if meansq = 0 then 0 else (newton meansq)^[8] (firstGuess meansq)

/-- **The checks pass**, and the result is the root of the mean square. -/
theorem rmsI16?_eq {samples : List Int16} (hlen : samples.length < 2 ^ 33) :
    rmsI16? samples = some (rmsI16 samples).toNat ∧
      (rmsI16 samples).toNat = root (meanSq samples) := by
  have hm := toNat_meansq hlen
  have hle := meanSq_le samples
  by_cases hempty : samples.length = 0
  · rw [rmsI16?, rmsI16, if_pos hempty, if_pos hempty, meanSq, hempty, Nat.div_zero]
    exact ⟨rfl, rfl⟩
  · rw [rmsI16?, rmsI16, if_neg hempty, if_neg hempty, sumSq?_eq hlen]
    have hfits : unsigned? 32 (meanSq samples) = some (meanSq samples) :=
      unsigned?_eq (lt_of_le_of_lt hle (by norm_num))
    simp only [Option.bind_eq_bind, Option.bind_some, div?_eq hempty]
    change ((unsigned? 32 (meanSq samples)).bind fun meansq => _) = _ ∧ _
    rw [hfits, Option.bind_some]
    generalize (sumSq samples / UInt64.ofNat samples.length).toUInt32 = meansq at hm ⊢
    rw [← hm] at hle ⊢
    by_cases hzero : meansq = 0
    · rw [hzero]
      exact ⟨rfl, rfl⟩
    · have hpos : 0 < meansq.toNat :=
        Nat.pos_of_ne_zero fun h => hzero (UInt32.toNat_inj.mp h)
      obtain ⟨hguess, hlow, hhigh⟩ := toNat_firstGuess meansq
      obtain ⟨hchecked, hroot⟩ := foldlM_newtonStep? hpos (lt_of_le_of_lt hle (by norm_num))
        (List.range 8) _ hlow hhigh
      rw [hguess] at hchecked hroot
      rw [root, if_neg hpos.ne', if_neg hzero, if_neg hpos.ne']
      exact ⟨hchecked, hroot⟩

/-- **Near the root**: eight steps from the first guess. -/
theorem iterate_firstGuess {m : ℕ} (hm : 0 < m) (hle : m ≤ 2 ^ 30) :
    Nat.sqrt m ≤ (newton m)^[8] (firstGuess m) ∧
      100 * (newton m)^[8] (firstGuess m) ≤ 104 * Nat.sqrt m + 100 := by
  have hroot : 0 < Nat.sqrt m := Nat.sqrt_pos.mpr hm
  have hguess : 0 < firstGuess m := by
    rw [firstGuess]
    split <;> norm_num
  refine ⟨sqrt_le_iterate_succ hguess hm 7, ?_⟩
  by_cases hbig : m > 65536
  · have hlow : 256 ≤ Nat.sqrt m := Nat.le_sqrt.mpr (by omega)
    have hhigh : Nat.sqrt m < 32769 := Nat.sqrt_lt.mpr (by omega)
    rw [firstGuess, if_pos hbig] at hguess ⊢
    have hnear : Near 1000 1038 m ((newton m)^[8] 256) :=
      near_iterate (ρ := 128004) hm hguess (by norm_num) (by norm_num) (by omega) (by omega) 7
    rcases hnear with hnear | hnear <;> omega
  · have hhigh : Nat.sqrt m < 257 := Nat.sqrt_lt.mpr (by omega)
    rw [firstGuess, if_neg hbig] at hguess ⊢
    have hnear : Near 1000 1001 m ((newton m)^[8] 16) :=
      near_iterate (ρ := 16063) hm hguess (by norm_num) (by norm_num) (by omega) (by omega) 7
    rcases hnear with hnear | hnear <;> omega

/-- The result is the square root, or up to four per cent above it. -/
theorem root_near {m : ℕ} (hle : m ≤ 2 ^ 30) :
    Nat.sqrt m ≤ root m ∧ 100 * root m ≤ 104 * Nat.sqrt m + 100 := by
  rw [root]
  rcases Nat.eq_zero_or_pos m with rfl | hm
  · decide
  · rw [if_neg hm.ne']
    exact iterate_firstGuess hm hle

/-- **At the threshold** the steps are exact, in spite of the error they leave. -/
theorem threshold_le_iterate {m : ℕ} (hm : 0 < m) (hle : m ≤ 2 ^ 30) :
    4000 ≤ (newton m)^[8] (firstGuess m) ↔ 4000 * 4000 ≤ m := by
  obtain ⟨hlow, hhigh⟩ := iterate_firstGuess hm hle
  refine ⟨fun h => ?_, fun h => (Nat.le_sqrt.mpr h).trans hlow⟩
  by_contra hsmall
  rw [not_le] at hsmall
  by_cases hbig : m > 65536
  · rw [firstGuess, if_pos hbig] at h
    by_cases hlast : m + 1 = 4000 * 4000
    · -- the guesses for this number meet the threshold from above and leave it
      obtain rfl : m = 15999999 := by omega
      exact absurd h (by decide)
    · have hstart : newton m 256 ≤ newton 15999999 256 := by
        apply Nat.div_le_div_right
        exact Nat.add_le_add_left (Nat.div_le_div_right (by omega)) 256
      have hseven : (newton m)^[7] 256 ≤ 4000 :=
        iterate_le_bound (M := 15999999) (T := 4000) (by omega) (by norm_num) hm
          (sqrt_le_newton (by norm_num)) hstart 6
      have hroot := sqrt_le_iterate_succ (g := 256) (by norm_num) hm 6
      have hpos : 0 < (newton m)^[7] 256 := (Nat.sqrt_pos.mpr hm).trans_le hroot
      rw [Function.iterate_succ_apply'] at h
      exact absurd h (not_le.mpr (newton_lt hsmall hroot hpos hseven hlast))
  · have hroot : Nat.sqrt m < 257 := Nat.sqrt_lt.mpr (by omega)
    omega

theorem threshold_le_root {m : ℕ} (hle : m ≤ 2 ^ 30) : 4000 ≤ root m ↔ 4000 * 4000 ≤ m := by
  rw [root]
  rcases Nat.eq_zero_or_pos m with rfl | hm
  · decide
  · rw [if_neg hm.ne']
    exact threshold_le_iterate hm hle

/-- **The gate is exact where it is used**: the root mean square of a frame is computed
without a division by zero and without an overflow, it is the square root of the mean
square or up to four per cent above it, and it reaches the threshold exactly when the
mean square reaches the square of the threshold. -/
theorem rmsI16_exact (samples : List Int16) (hlen : samples.length < 2 ^ 33) :
    rmsI16? samples = some (rmsI16 samples).toNat ∧
      Nat.sqrt (meanSq samples) ≤ (rmsI16 samples).toNat ∧
      100 * (rmsI16 samples).toNat ≤ 104 * Nat.sqrt (meanSq samples) + 100 ∧
      (micActiveRmsThreshold ≤ rmsI16 samples ↔ 4000 * 4000 ≤ meanSq samples) := by
  obtain ⟨hchecked, hroot⟩ := rmsI16?_eq hlen
  have hle := meanSq_le samples
  have hthreshold : micActiveRmsThreshold ≤ rmsI16 samples ↔ 4000 ≤ (rmsI16 samples).toNat :=
    UInt32.le_iff_toNat_le
  rw [hchecked, hthreshold, hroot]
  obtain ⟨hlow, hhigh⟩ := root_near hle
  exact ⟨rfl, hlow, hhigh, threshold_le_root hle⟩

theorem rmsI16_exact_two : rmsI16? [4000, -4000] = some (rmsI16 [4000, -4000]).toNat ∧
    Nat.sqrt (meanSq [4000, -4000]) ≤ (rmsI16 [4000, -4000]).toNat ∧
    100 * (rmsI16 [4000, -4000]).toNat ≤ 104 * Nat.sqrt (meanSq [4000, -4000]) + 100 ∧
    (micActiveRmsThreshold ≤ rmsI16 [4000, -4000] ↔ 4000 * 4000 ≤ meanSq [4000, -4000]) :=
  rmsI16_exact [4000, -4000] (by decide)

/-- What the capture task asks of a frame. -/
theorem micLoud_iff (frame : MicFrame) :
    micLoud frame = true ↔ 4000 * 4000 ≤ meanSq frame.wake.toList := by
  have hlen : frame.wake.toList.length < 2 ^ 33 := by
    rw [Vector.length_toList, framesPerPacket]
    norm_num
  have hthreshold : micActiveRmsThreshold ≤ rmsI16 frame.wake.toList ↔
      4000 ≤ (rmsI16 frame.wake.toList).toNat := UInt32.le_iff_toNat_le
  rw [micLoud, decide_eq_true_iff, hthreshold, (rmsI16?_eq hlen).2]
  exact threshold_le_root (meanSq_le _)

end PipecatVoice
