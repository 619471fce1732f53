import Mathlib
import PipecatVoice.Lib.Runs
import PipecatVoice.Spectrum

/-!
# Noise reduction and gain control

The middle of the audio frontend: from each channel an estimate of its noise is
subtracted, down to a floor that is a part of the signal, and what is left is
amplified by a gain that falls with the estimate.

* `noiseReductionApply`, `pcanGainControlApply` — the functions of
  `noise_reduction.c` and `pcan_gain_control.c`;
* `noise_settles` — a sound that stays the same is taken down to its floor;
* `pcanShrink_lt` — what is left fits into 26 bits.
-/

namespace PipecatVoice.Frontend

/-! ## Noise reduction -/

/-- What `NoiseReductionState` is configured with. -/
structure NoiseReduction where
  /-- bits by which estimates are finer than signals -/
  smoothingBits : ℕ
  /-- smoothing of the even channels, in parts of 2¹⁴ -/
  evenSmoothing : ℕ
  /-- smoothing of the odd channels -/
  oddSmoothing : ℕ
  /-- what of a signal always remains -/
  minSignalRemaining : ℕ
  /-- a part is no more than the whole -/
  even_le : evenSmoothing ≤ 2 ^ 14
  /-- a part is no more than the whole -/
  odd_le : oddSmoothing ≤ 2 ^ 14
  /-- a part is no more than the whole -/
  min_le : minSignalRemaining ≤ 2 ^ 14

/-- As `wake_word_init` configures it: 0.025, 0.06 and 0.05, cut to integers. -/
def wakeNoiseReduction : NoiseReduction where
  smoothingBits := 10
  evenSmoothing := 409
  oddSmoothing := 983
  minSignalRemaining := 819
  even_le := by decide
  odd_le := by decide
  min_le := by decide

namespace NoiseReduction

variable (n : NoiseReduction)

/-- The smoothing of a channel. -/
def smoothing (i : ℕ) : ℕ := if i % 2 = 0 then n.evenSmoothing else n.oddSmoothing

theorem smoothing_le (i : ℕ) : n.smoothing i ≤ 2 ^ 14 := by
  rw [smoothing]
  split
  · exact n.even_le
  · exact n.odd_le

/-- `signal_scaled_up`, which wraps. -/
def scaledUp (signal : UInt32) : UInt32 := UInt32.ofNat (signal.toNat * 2 ^ n.smoothingBits)

/-- The new estimate of the noise in a channel. -/
def update (i : ℕ) (estimate signal : UInt32) : UInt32 :=
  UInt32.ofNat (((n.scaledUp signal).toNat * n.smoothing i +
    estimate.toNat * (2 ^ 14 - n.smoothing i)) / 2 ^ 14)

/-- `floor` -/
def floor (signal : UInt32) : UInt32 := UInt32.ofNat (signal.toNat * n.minSignalRemaining / 2 ^ 14)

/-- What is left of the signal in a channel with this new estimate. -/
def left (estimate signal : UInt32) : UInt32 :=
  let scaled := n.scaledUp signal
  let estimate := if scaled < estimate then scaled else estimate
  let subtracted := UInt32.ofNat ((scaled - estimate).toNat / 2 ^ n.smoothingBits)
  if n.floor signal < subtracted then subtracted else n.floor signal

end NoiseReduction

/-- `NoiseReductionApply`: the new estimates, and the signal that is left. -/
def noiseReductionApply (n : NoiseReduction) {c : ℕ} (estimate signal : Vector UInt32 c) :
    Vector UInt32 c × Vector UInt32 c :=
  let estimate := Vector.ofFn fun i : Fin c => n.update i (estimate.get i) (signal.get i)
  (estimate, Vector.ofFn fun i : Fin c => n.left (estimate.get i) (signal.get i))

/-! ## How an estimate follows a signal -/

section Channel

variable (n : NoiseReduction) {i : ℕ} {estimate signal : UInt32}

theorem lt_word (x : UInt32) : x.toNat < 2 ^ 32 := x.toNat_lt

/-- The new estimate lies between the old one and the signal. -/
theorem mean_le {s v e m : ℕ} (hs : s ≤ m) (hm : 0 < m) :
    (v * s + e * (m - s)) / m ≤ max v e := by
  refine (Nat.div_le_iff_le_mul_add_pred hm).mpr ?_
  have hv : v * s ≤ max v e * s := Nat.mul_le_mul_right s (Nat.le_max_left v e)
  have he : e * (m - s) ≤ max v e * (m - s) := Nat.mul_le_mul_right _ (Nat.le_max_right v e)
  have hsum : max v e * s + max v e * (m - s) = m * max v e := by
    rw [← Nat.mul_add, Nat.add_sub_cancel' hs, Nat.mul_comm]
  omega

theorem toNat_update : (n.update i estimate signal).toNat =
    ((n.scaledUp signal).toNat * n.smoothing i + estimate.toNat * (2 ^ 14 - n.smoothing i)) /
      2 ^ 14 := by
  refine Nat.mod_eq_of_lt (lt_of_le_of_lt (mean_le (n.smoothing_le i) (by decide)) ?_)
  exact max_lt (lt_word _) (lt_word _)

/-- What an estimate lacks of the signal, after one more frame. -/
def gapStep (s d : ℕ) : ℕ := d - d * s / 2 ^ 14

theorem gapStep_mono {s : ℕ} (hs : s ≤ 2 ^ 14) : Monotone (gapStep s) := by
  refine monotone_nat_of_le_succ fun d => ?_
  have hstep : (d + 1) * s / 2 ^ 14 ≤ d * s / 2 ^ 14 + 1 := by
    rw [Nat.succ_mul, ← Nat.add_div_right _ (Nat.two_pow_pos 14)]
    exact Nat.div_le_div_right (by omega)
  have hpart : d * s / 2 ^ 14 ≤ d :=
    Nat.div_le_of_le_mul (by rw [Nat.mul_comm]; exact Nat.mul_le_mul_right d hs)
  rw [gapStep, gapStep]
  omega

theorem gapStep_le (s d : ℕ) : gapStep s d ≤ d := Nat.sub_le _ _

/-- **A step towards the signal**: what is lacking shrinks by the part that the
smoothing is, and what is not lacking does not come back. -/
theorem gap_update (v e : ℕ) {s : ℕ} (hs : s ≤ 2 ^ 14) :
    v - (v * s + e * (2 ^ 14 - s)) / 2 ^ 14 = gapStep s (v - e) := by
  rw [gapStep]
  rcases Nat.le_total v e with h | h
  · have hge : v ≤ (v * s + e * (2 ^ 14 - s)) / 2 ^ 14 := by
      rw [Nat.le_div_iff_mul_le (Nat.two_pow_pos 14)]
      calc v * 2 ^ 14 = v * s + v * (2 ^ 14 - s) := by rw [← Nat.mul_add, Nat.add_sub_cancel' hs]
        _ ≤ v * s + e * (2 ^ 14 - s) := Nat.add_le_add_left (Nat.mul_le_mul_right _ h) _
    rw [Nat.sub_eq_zero_of_le hge, Nat.sub_eq_zero_of_le h, Nat.zero_mul, Nat.zero_div]
  · obtain ⟨d, rfl⟩ := Nat.exists_eq_add_of_le h
    have hnum : (e + d) * s + e * (2 ^ 14 - s) = d * s + e * 2 ^ 14 := by
      rw [Nat.add_mul, Nat.add_right_comm, ← Nat.mul_add, Nat.add_sub_cancel' hs, Nat.add_comm]
    rw [hnum, Nat.add_mul_div_right _ _ (Nat.two_pow_pos 14), Nat.add_sub_cancel_left]
    omega

/-- What the estimate of a channel lacks after frames of one signal. -/
theorem gap_run (k : ℕ) : ∀ estimate : UInt32,
    (n.scaledUp signal).toNat - (Runs.run (n.update i) estimate
      (List.replicate k signal)).toNat =
        (gapStep (n.smoothing i))^[k] ((n.scaledUp signal).toNat - estimate.toNat) := by
  induction k with
  | zero => exact fun _ => rfl
  | succ k ih =>
    intro estimate
    have hstep := ih (n.update i estimate signal)
    rw [toNat_update, gap_update _ _ (n.smoothing_le i)] at hstep
    exact hstep

/-- An estimate that lacks less than one unit leaves the floor. -/
theorem left_of_gap (h : (n.scaledUp signal).toNat - estimate.toNat < 2 ^ n.smoothingBits) :
    n.left estimate signal = n.floor signal := by
  have hsub : UInt32.ofNat ((n.scaledUp signal - if n.scaledUp signal < estimate
      then n.scaledUp signal else estimate).toNat / 2 ^ n.smoothingBits) = 0 := by
    have hzero : (n.scaledUp signal - if n.scaledUp signal < estimate
        then n.scaledUp signal else estimate).toNat / 2 ^ n.smoothingBits = 0 := by
      refine Nat.div_eq_of_lt ?_
      split
      · rw [UInt32.sub_self]
        exact Nat.two_pow_pos _
      · next hle =>
        rw [UInt32.toNat_sub_of_le _ _ (UInt32.not_lt.mp hle)]
        exact h
    rw [hzero]
    rfl
  rw [NoiseReduction.left, hsub]
  exact if_neg (UInt32.not_lt.mpr (UInt32.zero_le))

end Channel

/-! ## Sounds that stay the same -/

/-- Frames after which a sound that stays the same is known. -/
def settleFrames : ℕ := 603

/-- From nothing known of the loudest signal it takes that long. -/
theorem gap_settles {s d : ℕ} (hs : s = 409 ∨ s = 983) (hd : d < 2 ^ 32) (k : ℕ) :
    (gapStep s)^[settleFrames + k + 1] d < 2 ^ 10 := by
  have hle : s ≤ 2 ^ 14 := by
    obtain rfl | rfl := hs <;> decide
  have hworst : (gapStep s)^[settleFrames + 1] (2 ^ 32 - 1) < 2 ^ 10 := by
    obtain rfl | rfl := hs <;> decide +kernel
  have hshrink : ∀ m x, (gapStep s)^[m] x ≤ x := fun m x =>
    Function.iterate_le_id_of_le_id (gapStep_le s) m x
  have hfrom : (gapStep s)^[settleFrames + 1] d ≤ (gapStep s)^[settleFrames + 1] (2 ^ 32 - 1) :=
    (gapStep_mono hle).iterate _ (by omega)
  rw [Nat.add_right_comm, Nat.add_comm _ k, Function.iterate_add_apply]
  exact (hshrink k _).trans_lt (hfrom.trans_lt hworst)

/-- The estimates of a frame, channel by channel. -/
theorem run_noiseReductionApply (n : NoiseReduction) {c : ℕ} (frames : List (Vector UInt32 c))
    {i : ℕ} (hi : i < c) : ∀ estimate : Vector UInt32 c,
      (Runs.run (fun e s => (noiseReductionApply n e s).1) estimate frames)[i] =
        Runs.run (n.update i) estimate[i] (frames.map fun s => s[i]) := by
  induction frames with
  | nil => exact fun _ => rfl
  | cons s frames ih =>
    intro estimate
    rw [List.map_cons]
    refine (ih _).trans ?_
    simp only [noiseReductionApply, Vector.getElem_ofFn]
    rfl

/-- What is left in one channel of a frame. -/
theorem getElem_left (n : NoiseReduction) {c : ℕ} (estimate signal : Vector UInt32 c) {i : ℕ}
    (hi : i < c) : (noiseReductionApply n estimate signal).2[i] =
      n.left (n.update i estimate[i] signal[i]) signal[i] := by
  simp only [noiseReductionApply, Vector.getElem_ofFn, Vector.get_eq_getElem]

/-- **A sound that stays the same** for 604 frames is taken down to its floor in
every channel, whatever was heard before it. -/
theorem noise_settles {c : ℕ} (estimate signal : Vector UInt32 c) (k : ℕ) :
    (noiseReductionApply wakeNoiseReduction
      (Runs.run (fun e s => (noiseReductionApply wakeNoiseReduction e s).1) estimate
        (List.replicate (settleFrames + k) signal)) signal).2 =
      signal.map wakeNoiseReduction.floor := by
  refine Vector.ext fun i hi => ?_
  have hs : wakeNoiseReduction.smoothing i = 409 ∨ wakeNoiseReduction.smoothing i = 983 := by
    rw [NoiseReduction.smoothing]
    split
    · exact .inl rfl
    · exact .inr rfl
  have hgap := gap_settles hs (lt_of_le_of_lt (Nat.sub_le _ estimate[i].toNat)
    (lt_word (wakeNoiseReduction.scaledUp signal[i]))) k
  rw [Function.iterate_succ_apply', ← gap_run,
    ← gap_update _ _ (wakeNoiseReduction.smoothing_le i), ← toNat_update] at hgap
  rw [getElem_left, run_noiseReductionApply, List.map_replicate, Vector.getElem_map]
  exact left_of_gap wakeNoiseReduction hgap

/-! ## Gain control -/

/-- `PcanGainControlState`; the estimates are those of the noise reduction. -/
structure PcanGainControl where
  /-- `gain_lut` -/
  gainLut : ℕ → Int16
  /-- `snr_shift` -/
  snrShift : ℕ

/-- `WideDynamicFunction`: a parabola on each interval between powers of two. -/
def wideDynamicFunction (x : UInt32) (lut : ℕ → Int16) : Int16 :=
  if x ≤ 2 then lut x.toNat
  else
    let interval := mostSignificantBit x.toNat
    let start := 4 * interval - 6
    let frac : ℤ := ((if interval < 11 then x.toNat <<< (11 - interval)
      else x.toNat >>> (interval - 11)) &&& 0x3FF : ℕ)
    let result := ((lut (start + 2)).toInt * frac / 2 ^ 5 + (lut (start + 1)).toInt * 2 ^ 5) * frac
    Int16.ofInt ((result + 2 ^ 14) / 2 ^ 15 + (lut start).toInt)

/-- `PcanShrink`, with `kPcanSnrBits` and `kPcanOutputBits` -/
def pcanShrink (x : UInt32) : UInt32 :=
  if x.toNat < 2 * 2 ^ 12 then UInt32.ofNat (x.toNat * x.toNat / 2 ^ (2 + 2 * 12 - 6))
  else UInt32.ofNat (x.toNat / 2 ^ (12 - 6) - 2 ^ 6)

/-- `PcanGainControlApply`; a negative gain would be a large one. -/
def pcanGainControlApply (p : PcanGainControl) {c : ℕ} (estimate signal : Vector UInt32 c) :
    Vector UInt32 c :=
  Vector.ofFn fun i : Fin c =>
    let gain := (wideDynamicFunction (estimate.get i) p.gainLut).toInt32.toUInt32
    pcanShrink (UInt32.ofNat ((signal.get i).toNat * gain.toNat / 2 ^ p.snrShift))

/-- The gain is taken back before it leaves 26 bits. -/
theorem pcanShrink_lt (x : UInt32) : (pcanShrink x).toNat < 2 ^ 26 := by
  have hx := lt_word x
  rw [pcanShrink]
  split
  · next hlt =>
    have hsq : x.toNat * x.toNat ≤ 8191 * 8191 := Nat.mul_le_mul (by omega) (by omega)
    refine lt_of_le_of_lt (Nat.mod_le _ _) ?_
    omega
  · refine lt_of_le_of_lt (Nat.mod_le _ _) ?_
    omega

end PipecatVoice.Frontend
