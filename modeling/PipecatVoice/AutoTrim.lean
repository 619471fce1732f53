import Mathlib.Algebra.Order.Group.Nat
import Mathlib.Algebra.Ring.Int.Defs
import PipecatVoice.Lib.Windows

/-!
# The clip trimmer of the wake-word tester

`auto_trim_clip` of `wake_word_tester/app.py`: a recording is cut to a second and
a half around its loudest tenth of a second. The running sums are 64-bit words;
a window's sum always fits, so that it does not matter when they wrap around.

The window sums are differences of an inclusive running sum, and the window at
the very start of the recording is none of them (`energies_eq`).
-/

namespace PipecatVoice.AutoTrim

open Windows

def sampleRate : ℕ := 16000

/-- A second and a half. -/
def clipSamples : ℕ := sampleRate * 3 / 2

/-- The sliding window, 100 ms. -/
def win : ℕ := 1600

/-! ## The function -/

/-- `np.abs(samples.astype(np.int32))`, as the running sum widens it. -/
def absSamples (samples : List Int16) : List Int64 :=
  samples.map fun x => x.toInt32.abs.toInt64

/-- `energy` after both assignments. -/
def energies (samples : List Int16) : List Int64 := lagDiff win (cumsum (absSamples samples))

/-- `np.argmax`, the first of the largest. The list is never empty here. -/
def argmax (energy : List Int64) : ℕ := (energy.maxIdxOn? Int64.toInt).getD 0

/-- Where the clip starts: centred on the peak, clamped at both ends. -/
def clipStart (samples : List Int16) : ℕ :=
  let peak := argmax (energies samples) + win / 2
  -- a difference of naturals is `max(0, ...)`
  let start := peak - clipSamples / 2
  min start (samples.length - clipSamples)

def autoTrimClip (samples : List Int16) : List Int16 :=
  if samples.length ≤ clipSamples then
    samples ++ List.replicate (clipSamples - samples.length) 0
  else
    (samples.drop (clipStart samples)).take clipSamples

/-- What the function is for, first half: every clip has the length the training
pipeline expects. -/
theorem length_autoTrimClip (samples : List Int16) :
    (autoTrimClip samples).length = clipSamples := by
  rw [autoTrimClip]
  split
  · rename_i hshort
    rw [List.length_append, List.length_replicate, Nat.add_sub_cancel' hshort]
  · have hstart : clipStart samples ≤ samples.length - clipSamples := Nat.min_le_right _ _
    rw [List.length_take, List.length_drop]
    omega

/-! ## The energies are the loudness of all windows but the first -/

/-- The sum of the absolute values in the window that starts at `w`. -/
def loudness (samples : List Int16) (w : ℕ) : ℕ :=
  windowSum win (samples.map fun x => x.toInt.natAbs) w

theorem toInt_abs (x : Int16) : x.toInt32.abs.toInt64.toInt = x.toInt.natAbs := by
  have hle := x.le_toInt
  have hwide : x.toInt32.toBitVec.toInt = x.toInt := x.toInt_toInt32
  have hne : x.toInt32.toBitVec ≠ BitVec.intMin 32 := by
    intro h
    rw [h, BitVec.toInt_intMin] at hwide
    simp at hwide
    omega
  have habs := BitVec.toInt_abs_eq_natAbs_of_ne_intMin hne
  rw [hwide] at habs
  rw [Int32.toInt_toInt64]
  exact habs

theorem absSamples_eq (samples : List Int16) :
    absSamples samples =
      ((samples.map fun x => x.toInt.natAbs).map fun n : ℕ => (n : ℤ)).map Int64.ofInt := by
  rw [absSamples, List.map_map, List.map_map]
  apply List.map_congr_left
  intro x hx
  rw [Function.comp, Function.comp, ← toInt_abs, Int64.ofInt_toInt]

theorem natAbs_le (x : Int16) : x.toInt.natAbs ≤ 2 ^ 15 := by
  have hle := x.le_toInt
  have hlt := x.toInt_lt
  omega

theorem loudness_le (samples : List Int16) (w : ℕ) : loudness samples w ≤ win * 2 ^ 15 :=
  windowSum_le (fun x _ => natAbs_le x) w

theorem sum_map_natCast (ns : List ℕ) : (ns.map fun n : ℕ => (n : ℤ)).sum = (ns.sum : ℕ) := by
  induction ns with
  | nil => rfl
  | cons n ns ih => rw [List.map_cons, List.sum_cons, List.sum_cons, ih, Int.natCast_add]

/-- **The energies**: the loudness of every window that does not start at the
first sample. -/
theorem energies_eq (samples : List Int16) :
    energies samples =
      (List.range (samples.length - win)).map fun i =>
        Int64.ofInt (loudness samples (i + 1)) := by
  rw [energies, absSamples_eq, cumsum_map rfl Int64.ofInt_add, lagDiff_map Int64.ofInt_sub,
    lagDiff_cumsum, List.map_map, List.length_map, List.length_map]
  apply List.map_congr_left
  intro i hi
  rw [Function.comp, loudness, windowSum, windowSum, ← List.map_drop, ← List.map_take,
    sum_map_natCast]

theorem toInt_energy (samples : List Int16) (w : ℕ) :
    (Int64.ofInt (loudness samples w)).toInt = loudness samples w := by
  have hle := loudness_le samples w
  rw [win] at hle
  apply Int64.toInt_ofInt_of_le <;> omega

/-- The peak of a long recording, by the start of its window: the first of the
loudest that do not start at the first sample. -/
structure IsPeak (samples : List Int16) (w : ℕ) : Prop where
  pos : 1 ≤ w
  fits : w + win ≤ samples.length
  loudest : ∀ w', 1 ≤ w' → w' + win ≤ samples.length → loudness samples w' ≤ loudness samples w
  first : ∀ w', 1 ≤ w' → w' < w → loudness samples w' < loudness samples w

theorem isPeak_argmax {samples : List Int16} (hlong : clipSamples < samples.length) :
    IsPeak samples (argmax (energies samples) + 1) := by
  have hwin : win < samples.length := lt_trans (by decide) hlong
  have hne : energies samples ≠ [] := by
    rw [← List.length_pos_iff, energies_eq, List.length_map, List.length_range]
    omega
  obtain ⟨i, hi, hargmax, hloudest, hfirst⟩ :=
    maxIdxOn?_of_ne_nil (f := Int64.toInt) hne
  simp only [energies_eq, List.length_map, List.length_range, List.getElem_map,
    List.getElem_range, toInt_energy, Int.ofNat_le, Int.ofNat_lt] at hi hloudest hfirst
  rw [argmax, hargmax, Option.getD_some]
  refine ⟨Nat.succ_pos i, by omega, ?_, ?_⟩
  · intro w' hpos hfits
    have hle := hloudest (w' - 1) (by omega)
    rwa [Nat.sub_add_cancel hpos] at hle
  · intro w' hpos hlt
    have hle := hfirst (w' - 1) (by omega)
    rwa [Nat.sub_add_cancel hpos] at hle

/-! ## What the clip keeps -/

/-- The recording's window at `w` is as loud as any, the first and the last
among them. -/
def Loudest (samples : List Int16) (w : ℕ) : Prop :=
  w + win ≤ samples.length ∧
    ∀ w', w' + win ≤ samples.length → loudness samples w' ≤ loudness samples w

/-- The clip is a stretch of the recording of the length of a clip, and a loudest
window is in it. -/
def KeepsLoudest (samples clip : List Int16) : Prop :=
  ∃ start, start + clipSamples ≤ samples.length ∧
    clip = (samples.drop start).take clipSamples ∧
    ∃ w, start ≤ w ∧ w + win ≤ start + clipSamples ∧ Loudest samples w

/-- How far before a peak's window the clip starts, where no clamp is in force. -/
def lead : ℕ := clipSamples / 2 - win / 2 + 1

theorem autoTrimClip_long {samples : List Int16} (hlong : clipSamples < samples.length) :
    autoTrimClip samples = (samples.drop (clipStart samples)).take clipSamples := by
  rw [autoTrimClip, if_neg (Nat.not_le.mpr hlong)]

theorem clipStart_eq {samples : List Int16} {w : ℕ} (hw : argmax (energies samples) + 1 = w) :
    clipStart samples = min (w - lead) (samples.length - clipSamples) := by
  have hshift : argmax (energies samples) + win / 2 - clipSamples / 2 = w - lead := by
    rw [← hw, lead, clipSamples, sampleRate, win]
    omega
  rw [clipStart, hshift]

theorem clipStart_fits {samples : List Int16} (hlong : clipSamples < samples.length) :
    clipStart samples + clipSamples ≤ samples.length := by
  have hstart : clipStart samples ≤ samples.length - clipSamples := Nat.min_le_right _ _
  omega

/-- Wherever a window of a recording starts, the clip around it has it whole. -/
theorem window_in_clip {samples : List Int16} {w : ℕ} (hw : argmax (energies samples) + 1 = w)
    (hfits : w + win ≤ samples.length) :
    clipStart samples ≤ w ∧ w + win ≤ clipStart samples + clipSamples := by
  rw [clipStart_eq hw, lead, clipSamples, sampleRate]
  rw [win] at hfits ⊢
  omega

/-- Two places where a clip may come from have equally loud windows, so that the
place does not matter. -/
theorem keepsLoudest_iff {samples : List Int16} {start : ℕ}
    (hfits : start + clipSamples ≤ samples.length) :
    KeepsLoudest samples ((samples.drop start).take clipSamples) ↔
      ∃ w, start ≤ w ∧ w + win ≤ start + clipSamples ∧ Loudest samples w := by
  refine ⟨?_, fun hw => ⟨start, hfits, rfl, hw⟩⟩
  rintro ⟨other, hother, hslice, w, hle, hlast, hw, hloudest⟩
  obtain ⟨d, rfl⟩ := Nat.exists_eq_add_of_le hle
  have hd : d + win ≤ clipSamples := by omega
  have hsame : loudness samples (start + d) = loudness samples (other + d) := by
    rw [loudness, ← windowSum_slice _ start hd, loudness, ← windowSum_slice _ other hd,
      ← List.map_drop, ← List.map_take, hslice, List.map_take, List.map_drop]
  refine ⟨start + d, Nat.le_add_right _ _, by omega, by omega, ?_⟩
  intro w' hw'
  rw [hsame]
  exact hloudest w' hw'

/-- The peak is a loudest window of the whole recording once some later window is
as loud as the first. -/
theorem IsPeak.loudest_of_le {samples : List Int16} {p w : ℕ} (hp : IsPeak samples p)
    (hpos : 1 ≤ w) (hfits : w + win ≤ samples.length)
    (hle : loudness samples 0 ≤ loudness samples w) : Loudest samples p := by
  refine ⟨hp.fits, ?_⟩
  intro w' hw'
  rcases Nat.eq_zero_or_pos w' with hzero | hlater
  · rw [hzero]
    exact hle.trans (hp.loudest w hpos hfits)
  · exact hp.loudest w' hlater hw'

/-- The first window is the only loudest one where every later one is less loud. -/
theorem eq_zero_of_loudest {samples : List Int16} {w : ℕ}
    (hfirst : ∀ w', 1 ≤ w' → w' + win ≤ samples.length →
      loudness samples w' < loudness samples 0)
    (hwin : win ≤ samples.length) (hw : Loudest samples w) : w = 0 := by
  rcases Nat.eq_zero_or_pos w with hzero | hpos
  · exact hzero
  · have hle := hw.2 0 (by rw [Nat.zero_add]; exact hwin)
    exact absurd (hfirst w hpos hw.1) (Nat.not_lt.mpr hle)

/-- Where the first window alone is loudest, the clip has to start where the
recording does. -/
theorem keepsLoudest_iff_start {samples : List Int16} (hlong : clipSamples < samples.length)
    (hfirst : ∀ w, 1 ≤ w → w + win ≤ samples.length →
      loudness samples w < loudness samples 0) :
    KeepsLoudest samples (autoTrimClip samples) ↔ clipStart samples = 0 := by
  have hwin : win ≤ clipSamples := by decide
  rw [autoTrimClip_long hlong, keepsLoudest_iff (clipStart_fits hlong)]
  refine ⟨?_, ?_⟩
  · rintro ⟨w, hle, -, hw⟩
    rw [eq_zero_of_loudest hfirst (by omega) hw] at hle
    exact Nat.le_zero.mp hle
  · intro hstart
    refine ⟨0, by omega, by omega, by omega, ?_⟩
    intro w hw
    rcases Nat.eq_zero_or_pos w with rfl | hpos
    · exact le_rfl
    · exact (hfirst w hpos hw).le

theorem clipStart_eq_zero_iff {samples : List Int16} (hlong : clipSamples < samples.length) :
    clipStart samples = 0 ↔
      ∃ w, 1 ≤ w ∧ w ≤ lead ∧ ∀ w', 1 ≤ w' → w' + win ≤ samples.length →
        loudness samples w' ≤ loudness samples w := by
  have hp := isPeak_argmax hlong
  rw [clipStart_eq rfl]
  refine ⟨?_, ?_⟩
  · intro hstart
    exact ⟨_, hp.pos, by omega, hp.loudest⟩
  · rintro ⟨w, hpos, hle, hloudest⟩
    have hpeak : argmax (energies samples) + 1 ≤ w := by
      by_contra hlt
      have hless := hp.first w hpos (Nat.not_le.mp hlt)
      exact absurd (hloudest _ hp.pos hp.fits) (Nat.not_le.mpr hless)
    omega

/-- **What the trimmer keeps**: a loudest window of the recording, if and only if
a window after the first is as loud as the first, or one of the loudest of those
starts early enough for the clip to begin with the recording. -/
theorem autoTrimClip_keepsLoudest_iff (samples : List Int16)
    (hlong : clipSamples < samples.length) :
    KeepsLoudest samples (autoTrimClip samples) ↔
      (∃ w, 1 ≤ w ∧ w + win ≤ samples.length ∧ loudness samples 0 ≤ loudness samples w) ∨
      ∃ w, 1 ≤ w ∧ w ≤ lead ∧ ∀ w', 1 ≤ w' → w' + win ≤ samples.length →
        loudness samples w' ≤ loudness samples w := by
  by_cases hlater :
      ∃ w, 1 ≤ w ∧ w + win ≤ samples.length ∧ loudness samples 0 ≤ loudness samples w
  · obtain ⟨w, hpos, hfits, hle⟩ := hlater
    have hp := isPeak_argmax hlong
    refine iff_of_true ?_ (Or.inl ⟨w, hpos, hfits, hle⟩)
    rw [autoTrimClip_long hlong, keepsLoudest_iff (clipStart_fits hlong)]
    obtain ⟨hbegin, hend⟩ := window_in_clip rfl hp.fits
    exact ⟨_, hbegin, hend, hp.loudest_of_le hpos hfits hle⟩
  · have hfirst (w) (hpos : 1 ≤ w) (hfits : w + win ≤ samples.length) :
        loudness samples w < loudness samples 0 := by
      rw [← Nat.not_le]
      exact fun hle => hlater ⟨w, hpos, hfits, hle⟩
    rw [keepsLoudest_iff_start hlong hfirst, clipStart_eq_zero_iff hlong]
    exact (or_iff_right hlater).symm

/-- A silence of `n` samples with a sound at its end. -/
def lateSound (n : ℕ) : List Int16 := List.replicate n 0 ++ [50]

theorem length_lateSound (n : ℕ) : (lateSound n).length = n + 1 := by
  rw [lateSound, List.length_append, List.length_replicate, List.length_singleton]

theorem loudness_lateSound_eq_zero {n w : ℕ} (h : w + win ≤ n) :
    loudness (lateSound n) w = 0 := by
  have hw : w ≤ n := by omega
  have hrest : win ≤ n - w := by omega
  simp only [loudness, windowSum, lateSound, List.map_append, List.map_replicate]
  rw [List.drop_append_of_le_length (by rwa [List.length_replicate]), List.drop_replicate,
    List.take_append_of_le_length (by rwa [List.length_replicate]), List.take_replicate,
    List.sum_replicate]
  rfl

theorem loudness_lateSound_last {n : ℕ} (h : win ≤ n) :
    loudness (lateSound n) (n + 1 - win) = 50 := by
  have hpos : 0 < win := by decide
  have hw : n + 1 - win ≤ n := by omega
  have hrest : n - (n + 1 - win) = win - 1 := by omega
  simp only [loudness, windowSum, lateSound, List.map_append, List.map_replicate]
  rw [List.drop_append_of_le_length (by rwa [List.length_replicate]), List.drop_replicate, hrest,
    List.take_of_length_le (by simp; omega), List.sum_append, List.sum_replicate]
  rfl

theorem loudness_lateSound_le (n w : ℕ) : loudness (lateSound n) w ≤ 50 := by
  have hsub := (List.take_sublist win _).trans
    (List.drop_sublist w ((lateSound n).map fun x => x.toInt.natAbs))
  have hle := hsub.sum_le_sum fun _ _ => Nat.zero_le _
  have htotal : ((lateSound n).map fun x => x.toInt.natAbs).sum = 50 := by
    rw [lateSound, List.map_append, List.map_replicate, List.sum_append, List.sum_replicate]
    have hzero : n • (0 : Int16).toInt.natAbs = 0 := nsmul_zero n
    rw [hzero]
    rfl
  exact hle.trans_eq htotal

theorem autoTrimClip_lateSound :
    clipSamples < (lateSound clipSamples).length ∧
      KeepsLoudest (lateSound clipSamples) (autoTrimClip (lateSound clipSamples)) := by
  have hlong : clipSamples < (lateSound clipSamples).length := by
    rw [length_lateSound]
    exact Nat.lt_succ_self _
  refine ⟨hlong, (autoTrimClip_keepsLoudest_iff _ hlong).mpr (Or.inl ⟨1, le_rfl, ?_, ?_⟩)⟩
  · exact le_trans (by decide) hlong.le
  · rw [loudness_lateSound_eq_zero (by decide)]
    exact Nat.zero_le _

/-- The same after the click of the key that starts the recording. -/
def keyClick (n : ℕ) : List Int16 := 100 :: lateSound n

theorem loudness_keyClick_succ (n w : ℕ) :
    loudness (keyClick n) (w + 1) = loudness (lateSound n) w := rfl

theorem le_loudness_keyClick (n : ℕ) : 100 ≤ loudness (keyClick n) 0 := by
  have hcons : loudness (keyClick n) 0 =
      100 + (((lateSound n).map fun x => x.toInt.natAbs).take (win - 1)).sum := rfl
  rw [hcons]
  exact Nat.le_add_right _ _

theorem loudness_keyClick_lt {n w : ℕ} (hw : 1 ≤ w) :
    loudness (keyClick n) w < loudness (keyClick n) 0 := by
  obtain ⟨w, rfl⟩ := Nat.exists_eq_add_of_le' hw
  calc loudness (keyClick n) (w + 1) = loudness (lateSound n) w := loudness_keyClick_succ n w
    _ ≤ 50 := loudness_lateSound_le n w
    _ < 100 := by decide
    _ ≤ loudness (keyClick n) 0 := le_loudness_keyClick n

theorem not_keepsLoudest_keyClick :
    clipSamples < (keyClick 30000).length ∧
      ¬ KeepsLoudest (keyClick 30000) (autoTrimClip (keyClick 30000)) := by
  have hlength : (keyClick 30000).length = 30002 := by
    rw [keyClick, List.length_cons, length_lateSound]
  have hlong : clipSamples < (keyClick 30000).length := by
    rw [hlength]
    decide
  refine ⟨hlong, ?_⟩
  rw [keepsLoudest_iff_start hlong fun w hw _ => loudness_keyClick_lt hw,
    clipStart_eq_zero_iff hlong]
  rintro ⟨w, hpos, hle, hloudest⟩
  obtain ⟨w, rfl⟩ := Nat.exists_eq_add_of_le' hpos
  have hin : w + win ≤ 30000 :=
    le_trans (Nat.add_le_add_right (Nat.le_of_succ_le hle) win) (by decide)
  have hend : loudness (keyClick 30000) (30001 - win + 1) = 50 := by
    rw [loudness_keyClick_succ]
    exact loudness_lateSound_last (by decide)
  have hlast := hloudest (30001 - win + 1) (by decide) (by rw [hlength]; decide)
  rw [hend, loudness_keyClick_succ, loudness_lateSound_eq_zero hin] at hlast
  exact absurd hlast (by decide)

end PipecatVoice.AutoTrim
