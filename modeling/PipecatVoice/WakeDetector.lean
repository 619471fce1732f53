import Mathlib.Algebra.Order.Ring.Rat
import Mathlib.Tactic.Linarith
import Mathlib.Tactic.Ring
import PipecatVoice.Lib.Refractory
import PipecatVoice.Lib.SlidingWindow

/-!
# The wake-word detector on the device

`update_window` of `wake_word.cc`: one probability per model invoke goes into a
circular window of five; a full window with enough hits, a high enough peak and
a high enough mean fires, unless the last fire was less than two seconds ago; a
fire damps the window. Probabilities are exact rationals.

The detector is a refractory one in the sense of `Refractory`: it fires at the
first invoke whose last five probabilities pass the gates and which lies both
five invokes and more than the cooldown after the previous fire
(`feedWindow_greedy`).
-/

namespace PipecatVoice

/-! ## Operating point -/

/-- probabilities looked at together (`WAKE_WINDOW_LEN`) -/
def wakeWindowLen : ℕ := 5

/-- frames that must clear the threshold (`WAKE_MIN_HITS`) -/
def wakeMinHits : ℕ := 2

/-- per-frame bar to count as a hit (`WAKE_THRESHOLD`) -/
def wakeThreshold : ℚ := 3 / 5

/-- the best frame must reach this (`WAKE_PEAK_MIN`) -/
def wakePeakMin : ℚ := 4 / 5

/-- the window mean must reach this (`WAKE_AVG_MIN`) -/
def wakeAvgMin : ℚ := 1 / 2

/-- time between two fires (`WAKE_COOLDOWN_MS`) -/
def wakeCooldownMs : ℤ := 2000

/-! ## State -/

/-- The decision metrics of the last fire (`wake_word_metrics_t`). -/
structure WakeMetrics where
  /-- fires since boot; zero when there was none -/
  fireSeq : UInt32
  /-- best probability of the window that fired -/
  peak : ℚ
  /-- mean of the window that fired -/
  avg : ℚ
  /-- threshold crossings in the window that fired -/
  hits : ℕ
  /-- the window that fired, in cell order -/
  window : List ℚ

/-- The detector's file-level state. -/
structure WakeDetector where
  /-- `s_prob_window`, its index and its count -/
  probWindow : SlidingWindow ℚ wakeWindowLen
  /-- latched until the capture task reads it -/
  detectedLatch : Bool
  /-- the last probability in thousandths, for display -/
  lastProbX1000 : ℤ
  /-- the last fire's numbers -/
  metrics : WakeMetrics
  /-- time of the last fire -/
  lastFireUs : ℤ

/-- Threshold crossings of a window. -/
def windowHits (threshold : ℚ) (w : List ℚ) : ℕ := w.countP (threshold ≤ ·)

/-- Best probability of a window. -/
def windowPeak (w : List ℚ) : ℚ := w.foldl (fun peak p => if p > peak then p else peak) 0

/-- Mean of a full window. -/
def windowAvg (w : List ℚ) : ℚ := w.foldl (fun sum p => sum + p) 0 / wakeWindowLen

/-- The three gates on a full window. -/
def wakeGates (w : List ℚ) : Bool :=
  windowHits wakeThreshold w ≥ wakeMinHits && windowPeak w ≥ wakePeakMin &&
    windowAvg w ≥ wakeAvgMin

/-- The part of `update_window` before the window is looked at. -/
def storeProb (s : WakeDetector) (prob : ℚ) : WakeDetector :=
  { s with
    probWindow := s.probWindow.push prob
    lastProbX1000 := (prob * 1000).num.tdiv (prob * 1000).den }

/-- The fire block of `update_window`: publish the decision metrics, latch, and
damp the window so that the same utterance does not trigger again. -/
def fireWake (s : WakeDetector) (nowUs : ℤ) : WakeDetector :=
  let w := s.probWindow.cells.toList
  { s with
    metrics :=
      { fireSeq := s.metrics.fireSeq + 1
        peak := windowPeak w
        avg := windowAvg w
        hits := windowHits wakeThreshold w
        window := w }
    lastFireUs := nowUs
    detectedLatch := true
    probWindow := s.probWindow.clear 0 }

/-- `update_window`, with the time it reads. -/
def updateWindow (s : WakeDetector) (prob : ℚ) (nowUs : ℤ) : WakeDetector :=
  if (storeProb s prob).probWindow.count < wakeWindowLen then storeProb s prob
  else if wakeGates (storeProb s prob).probWindow.cells.toList &&
      nowUs - s.lastFireUs > wakeCooldownMs * 1000 then
    fireWake (storeProb s prob) nowUs
  else storeProb s prob

/-- One invoke `i` of a stream that began at `startUs`, with the fires counted
by the changes of the published sequence number. -/
def feedInvoke (startUs : ℤ) (invokeMs : ℕ) (x : WakeDetector × ℕ) (invoke : ℚ × ℕ) :
    WakeDetector × ℕ :=
  let s := updateWindow x.1 invoke.1 (startUs + invoke.2 * invokeMs * 1000)
  (s, if s.metrics.fireSeq = x.1.metrics.fireSeq then x.2 else x.2 + 1)

/-- A stream of probabilities, `invokeMs` apart: the detector after it and the
number of its fires. -/
def feedWindow (s : WakeDetector) (startUs : ℤ) (invokeMs : ℕ) (probs : List ℚ) :
    WakeDetector × ℕ :=
  probs.zipIdx.foldl (feedInvoke startUs invokeMs) (s, 0)

/-! ## What one update does -/

/-- An update fires: the window is full, passes the gates, and the cooldown is
over. -/
def UpdateFires (s : WakeDetector) (prob : ℚ) (nowUs : ℤ) : Prop :=
  (s.probWindow.push prob).count = wakeWindowLen ∧
    wakeGates (s.probWindow.push prob).cells.toList = true ∧
    nowUs - s.lastFireUs > wakeCooldownMs * 1000

theorem updateWindow_of_fires {s : WakeDetector} {prob : ℚ} {nowUs : ℤ}
    (h : UpdateFires s prob nowUs) :
    updateWindow s prob nowUs = fireWake (storeProb s prob) nowUs := by
  obtain ⟨hfull, hgates, hcool⟩ := h
  have hcount : ¬ (storeProb s prob).probWindow.count < wakeWindowLen := by
    rw [Nat.not_lt]
    exact hfull.ge
  rw [updateWindow, if_neg hcount, if_pos]
  rw [Bool.and_eq_true, decide_eq_true_eq]
  exact ⟨hgates, hcool⟩

theorem updateWindow_of_not_fires {s : WakeDetector} {prob : ℚ} {nowUs : ℤ}
    (h : ¬ UpdateFires s prob nowUs) : updateWindow s prob nowUs = storeProb s prob := by
  rw [updateWindow]
  split
  · rfl
  · rename_i hfull
    rw [if_neg]
    intro hgates
    rw [Bool.and_eq_true, decide_eq_true_eq] at hgates
    have hle := (s.probWindow.push prob).count_le
    exact h ⟨le_antisymm hle (Nat.not_lt.mp hfull), hgates⟩

/-! ## The gates do not see the order of the cells -/

theorem windowPeak_perm {w w' : List ℚ} (h : w.Perm w') : windowPeak w = windowPeak w' := by
  refine h.foldl_eq' ?_ 0
  intro p _ p' _ peak
  split_ifs <;> first | rfl | linarith

theorem windowAvg_perm {w w' : List ℚ} (h : w.Perm w') : windowAvg w = windowAvg w' := by
  have hsum : w.foldl (fun sum p => sum + p) 0 = w'.foldl (fun sum p => sum + p) 0 := by
    refine h.foldl_eq' ?_ 0
    intro p _ p' _ sum
    exact add_right_comm sum p p'
  rw [windowAvg, hsum, windowAvg]

theorem wakeGates_perm {w w' : List ℚ} (h : w.Perm w') : wakeGates w = wakeGates w' := by
  have hhits : windowHits wakeThreshold w = windowHits wakeThreshold w' := h.countP_eq _
  rw [wakeGates, windowPeak_perm h, windowAvg_perm h, hhits, wakeGates]

/-! ## The detector is a refractory one -/

/-- The last five probabilities at invoke `i`. -/
def lastFive (probs : List ℚ) (i : ℕ) : List ℚ := (probs.drop (i + 1 - 5)).take 5

/-- Invoke `i` qualifies: there are five probabilities, and they pass the gates. -/
def WakeQualifies (probs : List ℚ) (i : ℕ) : Prop :=
  5 ≤ i + 1 ∧ wakeGates (lastFive probs i) = true

instance (probs : List ℚ) : DecidablePred (WakeQualifies probs) := fun i =>
  inferInstanceAs (Decidable (5 ≤ i + 1 ∧ wakeGates (lastFive probs i) = true))

/-- The device's refractory rule: the damped window must fill again, and the
cooldown in microseconds must be over. -/
def wakeRecovery (invokeMs : ℕ) : Refractory where
  ready i j := i + 5 ≤ j ∧ ((j : ℤ) - i) * invokeMs * 1000 > wakeCooldownMs * 1000
  decReady i j := inferInstanceAs
    (Decidable (i + 5 ≤ j ∧ ((j : ℤ) - i) * invokeMs * 1000 > wakeCooldownMs * 1000))
  lt h := by omega
  mono := by
    rintro i i' j j' ⟨hfill, hcool⟩ hi hj
    refine ⟨by omega, lt_of_lt_of_le hcool ?_⟩
    gcongr

/-- A stream and one more invoke. -/
theorem feedWindow_concat (s : WakeDetector) (startUs : ℤ) (invokeMs : ℕ) (probs : List ℚ)
    (prob : ℚ) :
    feedWindow s startUs invokeMs (probs ++ [prob]) =
      feedInvoke startUs invokeMs (feedWindow s startUs invokeMs probs) (prob, probs.length) := by
  simp only [feedWindow, List.zipIdx_append, List.foldl_append, Nat.zero_add, List.zipIdx_cons,
    List.zipIdx_nil, List.foldl_cons, List.foldl_nil]

/-- Where the current window began: after the last fire. -/
def windowStart (last : Option ℕ) : ℕ := last.elim 0 (· + 1)

/-- The detector after `n` invokes is where the greedy detector is: as many
fires, the last one at the same invoke, and a window of what came since. -/
structure Tracks (s₀ : WakeDetector) (startUs : ℤ) (invokeMs : ℕ) (probs : List ℚ) (n : ℕ)
    (x : WakeDetector × ℕ) (g : Option ℕ × ℕ) : Prop where
  fires : x.2 = g.2
  last : x.1.lastFireUs = g.1.elim s₀.lastFireUs (fun i => startUs + i * invokeMs * 1000)
  start_le : windowStart g.1 ≤ n
  contents : x.1.probWindow.contents = (probs.take n).drop (n - min (n - windowStart g.1) 5)

section Tracks

variable {s₀ : WakeDetector} {startUs : ℤ} {invokeMs n : ℕ} {probs : List ℚ}
  {x : WakeDetector × ℕ} {g : Option ℕ × ℕ}

theorem Tracks.count (h : Tracks s₀ startUs invokeMs probs n x g) (hn : n ≤ probs.length) :
    x.1.probWindow.count = min (n - windowStart g.1) 5 := by
  rw [← SlidingWindow.length_contents, h.contents, List.length_drop, List.length_take]
  omega

/-- The window after the next probability. -/
theorem Tracks.contents_push (h : Tracks s₀ startUs invokeMs probs n x g)
    (hn : n < probs.length) :
    (x.1.probWindow.push probs[n]).contents =
      (probs.take (n + 1)).drop (n + 1 - min (n + 1 - windowStart g.1) 5) := by
  have hstart := h.start_le
  have hcount := h.count hn.le
  have htake : probs.take (n + 1) = probs.take n ++ [probs[n]] := by
    rw [List.take_add_one, List.getElem?_eq_getElem hn, Option.toList_some]
  have hlen : (probs.take n).length = n := List.length_take_of_le hn.le
  rw [SlidingWindow.contents_push, h.contents, hcount, htake]
  split
  · rename_i hfew
    have hsame : n + 1 - min (n + 1 - windowStart g.1) 5 = n - min (n - windowStart g.1) 5 := by
      simp only [wakeWindowLen] at hfew
      omega
    rw [hsame, List.drop_append_of_le_length (by omega)]
  · rename_i hfull
    have hnext : n + 1 - min (n + 1 - windowStart g.1) 5 =
        n - min (n - windowStart g.1) 5 + 1 := by
      simp only [wakeWindowLen] at hfull
      omega
    rw [hnext, ← List.drop_one, List.drop_drop, List.drop_append_of_le_length]
    simp only [wakeWindowLen] at hfull
    omega

/-- The next update fires exactly when the greedy detector does. -/
theorem Tracks.updateFires_iff (h : Tracks s₀ startUs invokeMs probs n x g)
    (hn : n < probs.length) (hcool : startUs - s₀.lastFireUs > wakeCooldownMs * 1000) :
    UpdateFires x.1 probs[n] (startUs + n * invokeMs * 1000) ↔
      WakeQualifies probs n ∧ ∀ i ∈ g.1, (wakeRecovery invokeMs).ready i n := by
  have hstart := h.start_le
  have hcount : (x.1.probWindow.push probs[n]).count = min (n + 1 - windowStart g.1) 5 := by
    rw [← SlidingWindow.length_contents, h.contents_push hn, List.length_drop,
      List.length_take_of_le hn]
    omega
  -- a full window holds the last five probabilities
  have hgates : (x.1.probWindow.push probs[n]).count = wakeWindowLen →
      wakeGates (x.1.probWindow.push probs[n]).cells.toList = wakeGates (lastFive probs n) := by
    intro hfull
    rw [← wakeGates_perm (SlidingWindow.contents_perm _ hfull), h.contents_push hn, lastFive]
    rw [hcount] at hfull
    rw [hfull, List.drop_take]
    congr 2
    simp only [wakeWindowLen] at hfull ⊢
    omega
  have hfive : wakeWindowLen = 5 := rfl
  have hlast := h.last
  rw [UpdateFires, WakeQualifies, hlast]
  obtain ⟨last, fires⟩ := g
  rcases last with _ | i
  · -- nothing fired yet: the cooldown was over at the start
    simp only [Option.elim_none, windowStart] at hcount ⊢
    have hlater : startUs + n * invokeMs * 1000 - s₀.lastFireUs > wakeCooldownMs * 1000 := by
      have hpos : (0 : ℤ) ≤ n * invokeMs * 1000 := by positivity
      linarith
    refine ⟨?_, ?_⟩
    · rintro ⟨hfull, hpass, -⟩
      rw [hgates hfull] at hpass
      exact ⟨⟨by omega, hpass⟩, by simp⟩
    · rintro ⟨⟨hmany, hpass⟩, -⟩
      have hfull : (x.1.probWindow.push probs[n]).count = wakeWindowLen := by omega
      exact ⟨hfull, by rw [hgates hfull]; exact hpass, hlater⟩
  · simp only [Option.elim_some, windowStart] at hcount hstart ⊢
    have hgap : startUs + n * invokeMs * 1000 - (startUs + i * invokeMs * 1000) =
        ((n : ℤ) - i) * invokeMs * 1000 := by ring
    rw [hgap]
    refine ⟨?_, ?_⟩
    · rintro ⟨hfull, hpass, hover⟩
      rw [hgates hfull] at hpass
      refine ⟨⟨by omega, hpass⟩, ?_⟩
      rintro j hj
      obtain rfl : i = j := by simpa using hj
      exact ⟨by omega, hover⟩
    · rintro ⟨⟨hmany, hpass⟩, hready⟩
      obtain ⟨hfill, hover⟩ := hready i rfl
      have hfull : (x.1.probWindow.push probs[n]).count = wakeWindowLen := by omega
      exact ⟨hfull, by rw [hgates hfull]; exact hpass, hover⟩

end Tracks

/-- **The device detector is greedy**: fed a stream from an empty window with
the cooldown over, it stays where the greedy detector is. -/
theorem feedWindow_greedy {s₀ : WakeDetector} {startUs : ℤ} (invokeMs : ℕ) (probs : List ℚ)
    (hempty : s₀.probWindow.count = 0)
    (hcool : startUs - s₀.lastFireUs > wakeCooldownMs * 1000) :
    ∀ n ≤ probs.length, Tracks s₀ startUs invokeMs probs n
      (feedWindow s₀ startUs invokeMs (probs.take n))
      ((wakeRecovery invokeMs).greedy (WakeQualifies probs) n) := by
  intro n
  induction n with
  | zero =>
    intro _
    refine ⟨rfl, rfl, le_rfl, ?_⟩
    rw [List.take_zero, List.drop_nil, ← List.length_eq_zero_iff]
    exact (SlidingWindow.length_contents s₀.probWindow).trans hempty
  | succ n ih =>
    intro hn
    have htracks := ih (Nat.le_of_succ_le hn)
    have hstart := htracks.start_le
    have htake : probs.take (n + 1) = probs.take n ++ [probs[n]] := by
      rw [List.take_add_one, List.getElem?_eq_getElem hn, Option.toList_some]
    have hiff := htracks.updateFires_iff hn hcool
    have hpush := htracks.contents_push hn
    rw [htake, feedWindow_concat, List.length_take_of_le (Nat.le_of_succ_le hn), Refractory.greedy]
    set x := feedWindow s₀ startUs invokeMs (probs.take n)
    set g := (wakeRecovery invokeMs).greedy (WakeQualifies probs) n
    by_cases hfire : UpdateFires x.1 probs[n] (startUs + n * invokeMs * 1000)
    · have hupd := updateWindow_of_fires hfire
      rw [if_pos (hiff.mp hfire)]
      refine ⟨?_, ?_, le_rfl, ?_⟩
      · simp only [feedInvoke, hupd, htracks.fires, fireWake, storeProb]
        simp
      · simp only [feedInvoke, hupd]
        rfl
      · simp only [feedInvoke, hupd, fireWake, SlidingWindow.contents_clear, windowStart,
          Option.elim_some, Nat.sub_self, Nat.zero_min, Nat.sub_zero]
        rw [List.drop_eq_nil_of_le]
        exact List.length_take_le _ _
    · have hupd := updateWindow_of_not_fires hfire
      rw [if_neg (fun h => hfire (hiff.mpr h))]
      refine ⟨?_, ?_, Nat.le_succ_of_le hstart, ?_⟩
      · simp only [feedInvoke, hupd, htracks.fires, storeProb, if_true]
      · simp only [feedInvoke, hupd]
        exact htracks.last
      · simp only [feedInvoke, hupd]
        exact hpush

end PipecatVoice
