import Mathlib.Data.List.DropRight
import PipecatVoice.Lib.History
import PipecatVoice.Lib.Runs
import PipecatVoice.WakeDetector

/-!
# The trace specification of the device detector

What `update_window` does over a whole run from boot, told without its ring: an
update fires by a rule on the probabilities and times heard before it
(`FireRule`), and the detector obeys that rule at every update
(`wakeTrace_spec`).

The ring index survives a fire while the count does not, so the invariant
(`TraceKept`) speaks of the window's contents only: they are the end of what was
heard since the last fire. The published sequence number is a `uint32_t`, which
counts the fires modulo `2 ^ 32` (`wakeTrace_fireSeq_wraps`).
-/

namespace PipecatVoice

/-- The detector's statics at boot. -/
def WakeDetector.boot : WakeDetector where
  probWindow :=
    { cells := Vector.replicate wakeWindowLen 0
      next := ⟨0, Nat.zero_lt_succ 4⟩
      count := 0
      count_le := Nat.zero_le _ }
  detectedLatch := false
  lastProbX1000 := 0
  metrics := { fireSeq := 0, peak := 0, avg := 0, hits := 0, window := List.replicate 5 0 }
  lastFireUs := 0

/-! ## The trace and its rule -/

/-- One update, as the trace sees it. -/
structure Heard where
  prob : ℚ
  nowUs : ℤ
  /-- the update published a new sequence number -/
  fired : Bool

/-- One probability, with the time of its update. -/
def hear (s : WakeDetector) (x : ℚ × ℤ) : WakeDetector := updateWindow s x.1 x.2

/-- The entry of that update. -/
def heardEntry (s : WakeDetector) (x : ℚ × ℤ) : Heard where
  prob := x.1
  nowUs := x.2
  fired := (hear s x).metrics.fireSeq != s.metrics.fireSeq

/-- The trace after one more update. -/
def recordHeard (past : List Heard) (s : WakeDetector) (x : ℚ × ℤ) : List Heard :=
  past ++ [heardEntry s x]

/-- The detector fed from boot, and the trace of it. -/
def wakeTrace (xs : List (ℚ × ℤ)) : WakeDetector × List Heard :=
  Runs.run (Runs.observe hear recordHeard) (WakeDetector.boot, []) xs

/-- Heard since the previous fire, or since boot. -/
def heardSince (past : List Heard) : List ℚ := (History.since (·.fired) past).map (·.prob)

/-- Time of the previous fire, or zero. -/
def previousFireUs (past : List Heard) : ℤ :=
  (History.last? (·.fired) past).elim 0 (·.nowUs)

/-- The last five probabilities heard since the previous fire, with a new one. -/
def recentProbs (past : List Heard) (prob : ℚ) : List ℚ :=
  (heardSince past ++ [prob]).rtake wakeWindowLen

/-- **When an update fires**, told from the trace alone. -/
structure FireRule (past : List Heard) (prob : ℚ) (nowUs : ℤ) : Prop where
  full : wakeWindowLen ≤ (heardSince past ++ [prob]).length
  hits : wakeMinHits ≤ (recentProbs past prob).countP (wakeThreshold ≤ ·)
  peak : ∃ p ∈ recentProbs past prob, wakePeakMin ≤ p
  mean : wakeAvgMin ≤ (recentProbs past prob).sum / wakeWindowLen
  cooled : nowUs - previousFireUs past > wakeCooldownMs * 1000

/-! ## The gates of a window -/

/-- The peak starts from zero, so it reaches a positive bar only through a cell. -/
theorem le_windowPeak_iff {bar : ℚ} (hbar : 0 < bar) (w : List ℚ) :
    bar ≤ windowPeak w ↔ ∃ p ∈ w, bar ≤ p := by
  have hfold : ∀ (w : List ℚ) (peak : ℚ),
      bar ≤ w.foldl (fun peak p => if p > peak then p else peak) peak ↔
        bar ≤ peak ∨ ∃ p ∈ w, bar ≤ p := by
    intro w
    induction w with
    | nil => simp
    | cons p w ih =>
      intro peak
      rw [List.foldl_cons, ih, List.exists_mem_cons_iff, ← or_assoc]
      refine or_congr_left ?_
      split
      · rename_i hgt
        exact ⟨Or.inr, fun h => h.elim (fun h => h.trans hgt.le) id⟩
      · rename_i hle
        exact ⟨Or.inl, fun h => h.elim id (fun h => h.trans (not_lt.mp hle))⟩
  rw [windowPeak, hfold, or_iff_right (not_le.mpr hbar)]

theorem windowAvg_eq_sum (w : List ℚ) : windowAvg w = w.sum / wakeWindowLen := by
  rw [windowAvg, List.sum_eq_foldl]

theorem wakeGates_iff (w : List ℚ) :
    wakeGates w = true ↔ wakeMinHits ≤ w.countP (wakeThreshold ≤ ·) ∧
      (∃ p ∈ w, wakePeakMin ≤ p) ∧ wakeAvgMin ≤ w.sum / wakeWindowLen := by
  have hpeak : (0 : ℚ) < wakePeakMin := by norm_num [wakePeakMin]
  rw [wakeGates, Bool.and_eq_true, Bool.and_eq_true, decide_eq_true_eq, decide_eq_true_eq,
    decide_eq_true_eq, and_assoc, windowHits, ge_iff_le, ge_iff_le, ge_iff_le,
    le_windowPeak_iff hpeak, windowAvg_eq_sum]

/-! ## The invariant -/

/-- What the detector keeps of its trace. -/
structure TraceKept (s : WakeDetector) (past : List Heard) : Prop where
  window : s.probWindow.contents = (heardSince past).rtake wakeWindowLen
  lastFire : s.lastFireUs = previousFireUs past
  fireSeq : s.metrics.fireSeq = UInt32.ofNat (past.countP (·.fired))

theorem TraceKept.boot : TraceKept WakeDetector.boot [] := by
  refine ⟨?_, rfl, rfl⟩
  rw [heardSince, History.since_nil, List.map_nil, List.rtake_nil, ← List.length_eq_zero_iff]
  exact SlidingWindow.length_contents _

/-- **An update fires by the rule.** -/
theorem TraceKept.updateFires_iff {s : WakeDetector} {past : List Heard} (h : TraceKept s past)
    (prob : ℚ) (nowUs : ℤ) : UpdateFires s prob nowUs ↔ FireRule past prob nowUs := by
  have hpush := SlidingWindow.contents_push_rtake h.window prob
  have hfull := SlidingWindow.count_eq_iff hpush
  have hgates : (s.probWindow.push prob).count = wakeWindowLen →
      wakeGates (s.probWindow.push prob).cells.toList = wakeGates (recentProbs past prob) := by
    intro hcount
    rw [← wakeGates_perm (SlidingWindow.contents_perm _ hcount), hpush, recentProbs]
  rw [UpdateFires, h.lastFire]
  refine ⟨?_, ?_⟩
  · rintro ⟨hcount, hpass, hcool⟩
    rw [hgates hcount, wakeGates_iff] at hpass
    obtain ⟨hhits, hpeak, hmean⟩ := hpass
    exact ⟨hfull.mp hcount, hhits, hpeak, hmean, hcool⟩
  · rintro ⟨hlong, hhits, hpeak, hmean, hcool⟩
    have hcount := hfull.mpr hlong
    rw [hgates hcount, wakeGates_iff]
    exact ⟨hcount, ⟨hhits, hpeak, hmean⟩, hcool⟩

/-- A fire shows in the sequence number, and nothing else does. -/
theorem heardEntry_fired (s : WakeDetector) (x : ℚ × ℤ) :
    (heardEntry s x).fired = true ↔ UpdateFires s x.1 x.2 := by
  by_cases hfires : UpdateFires s x.1 x.2
  · rw [heardEntry, hear, updateWindow_of_fires hfires]
    simp [fireWake, storeProb, hfires]
  · rw [heardEntry, hear, updateWindow_of_not_fires hfires]
    simp [storeProb, hfires]

/-- **One update keeps the invariant.** -/
theorem TraceKept.step {s : WakeDetector} {past : List Heard} (h : TraceKept s past)
    (x : ℚ × ℤ) : TraceKept (hear s x) (recordHeard past s x) := by
  have hfired := heardEntry_fired s x
  by_cases hfires : UpdateFires s x.1 x.2
  · have hflag := hfired.mpr hfires
    have hupd : hear s x = fireWake (storeProb s x.1) x.2 := updateWindow_of_fires hfires
    refine ⟨?_, ?_, ?_⟩
    · rw [heardSince, recordHeard, History.since_concat_pos hflag, List.map_nil,
        List.rtake_nil, hupd]
      exact SlidingWindow.contents_clear _ _
    · rw [previousFireUs, recordHeard, History.last?_concat_pos hflag, hupd]
      rfl
    · rw [recordHeard, List.countP_append, List.countP_singleton, if_pos hflag, hupd,
        UInt32.ofNat_add, ← h.fireSeq]
      rfl
  · have hflag := Bool.eq_false_iff.mpr (fun hflag => hfires (hfired.mp hflag))
    have hupd : hear s x = storeProb s x.1 := updateWindow_of_not_fires hfires
    refine ⟨?_, ?_, ?_⟩
    · rw [heardSince, recordHeard, History.since_concat_neg hflag, List.map_append, hupd]
      exact SlidingWindow.contents_push_rtake h.window x.1
    · rw [previousFireUs, recordHeard, History.last?_concat_neg hflag, hupd]
      exact h.lastFire
    · rw [recordHeard, List.countP_append, List.countP_singleton, hflag, hupd]
      exact h.fireSeq

/-- The rule, along a trace. -/
def ByRule (past : List Heard) (e : Heard) : Prop :=
  e.fired = true ↔ FireRule past e.prob e.nowUs

/-- The entry of an update obeys the rule. -/
theorem TraceKept.byRule {s : WakeDetector} {past : List Heard} (h : TraceKept s past)
    (x : ℚ × ℤ) : ByRule past (heardEntry s x) :=
  (heardEntry_fired s x).trans (h.updateFires_iff x.1 x.2)

/-- What holds of the detector and its trace after any run. -/
theorem wakeTrace_kept (xs : List (ℚ × ℤ)) :
    TraceKept (wakeTrace xs).1 (wakeTrace xs).2 ∧ History.Obeys ByRule (wakeTrace xs).2 := by
  refine Runs.run_induct
    (I := fun y : WakeDetector × List Heard => TraceKept y.1 y.2 ∧ History.Obeys ByRule y.2)
    ?_ xs ⟨TraceKept.boot, History.obeys_nil⟩
  rintro ⟨s, past⟩ x ⟨hkept, hobeys⟩
  exact ⟨hkept.step x, History.obeys_concat.mpr ⟨hobeys, hkept.byRule x⟩⟩

/-- The trace lists what was fed, in order. -/
theorem wakeTrace_inputs (xs : List (ℚ × ℤ)) :
    (wakeTrace xs).2.map (fun e => (e.prob, e.nowUs)) = xs := by
  refine Runs.map_run_observe ?_ xs WakeDetector.boot []
  intro past s x
  exact List.map_append

/-! ## What the rule gives -/

/-- Two fires lie a whole window apart. -/
theorem fires_apart {past mid rest : List Heard} {e e' : Heard}
    (hobeys : History.Obeys ByRule (past ++ e :: mid ++ e' :: rest)) (he : e.fired = true)
    (he' : e'.fired = true) : wakeWindowLen ≤ mid.length + 1 := by
  have hrule := (hobeys (past ++ e :: mid) e' rest rfl).mp he'
  have hfull := hrule.full
  have hsince : (History.since (·.fired) (past ++ e :: mid)).length ≤ mid.length :=
    History.length_since_le he mid
  rw [List.length_append, heardSince, List.length_map] at hfull
  exact hfull.trans (Nat.add_le_add_right hsince _)

/-- More than the cooldown between two fires. -/
def Cooled (e e' : Heard) : Prop := e'.nowUs - e.nowUs > wakeCooldownMs * 1000

instance : IsTrans Heard Cooled where
  trans e e' e'' h h' := by
    unfold Cooled at *
    have hpos : wakeCooldownMs * 1000 = 2000000 := rfl
    omega

theorem fires_cooled {h : List Heard} (hobeys : History.Obeys ByRule h) :
    (h.filter (·.fired)).Pairwise Cooled := by
  refine History.Obeys.pairwise (hobeys.imp ?_)
  intro past e hrule hfired l hl
  have hcooled := (hrule.mp hfired).cooled
  rw [previousFireUs, Option.mem_def.mp hl] at hcooled
  exact hcooled

/-- **The device detector meets its trace specification**: whatever it is fed
from boot, each update fires exactly by the rule on what was heard before it; so
no probability belongs to two fires, two fires lie more than the cooldown apart,
and the published number is the count of the fires, modulo `2 ^ 32`. -/
theorem wakeTrace_spec (xs : List (ℚ × ℤ)) :
    (wakeTrace xs).2.map (fun e => (e.prob, e.nowUs)) = xs ∧
      History.Obeys ByRule (wakeTrace xs).2 ∧
      (∀ past e mid e' rest, (wakeTrace xs).2 = past ++ e :: mid ++ e' :: rest →
        e.fired = true → e'.fired = true → wakeWindowLen ≤ mid.length + 1) ∧
      ((wakeTrace xs).2.filter (·.fired)).Pairwise Cooled ∧
      (wakeTrace xs).1.metrics.fireSeq = UInt32.ofNat ((wakeTrace xs).2.countP (·.fired)) := by
  obtain ⟨hkept, hobeys⟩ := wakeTrace_kept xs
  refine ⟨wakeTrace_inputs xs, hobeys, ?_, fires_cooled hobeys, hkept.fireSeq⟩
  intro past e mid e' rest hsplit he he'
  rw [hsplit] at hobeys
  exact fires_apart hobeys he he'

/-! ## The count wraps -/

/-- Five certain probabilities, later than the cooldown after the ones before. -/
def utterance (i : ℕ) : List (ℚ × ℤ) := List.replicate 5 (1, (i + 1) * 2000001)

/-- The wake phrase `n` times, each when the cooldown is just over. -/
def utterances (n : ℕ) : List (ℚ × ℤ) := (List.range n).flatMap utterance

/-- Where a run of utterances stands: `n` probabilities into the current one. -/
structure Uttered (y : WakeDetector × List Heard) (n fires : ℕ) (lastUs : ℤ) : Prop where
  kept : TraceKept y.1 y.2
  since : heardSince y.2 = List.replicate n 1
  last : previousFireUs y.2 = lastUs
  count : y.2.countP (·.fired) = fires

theorem Uttered.quiet {y : WakeDetector × List Heard} {n fires : ℕ} {lastUs : ℤ}
    (h : Uttered y n fires lastUs) (hn : n < 4) (nowUs : ℤ) :
    Uttered (Runs.observe hear recordHeard y (1, nowUs)) (n + 1) fires lastUs := by
  have hflag : (heardEntry y.1 (1, nowUs)).fired = false := by
    rw [Bool.eq_false_iff]
    intro hfired
    have hfull := ((h.kept.byRule (1, nowUs)).mp hfired).full
    rw [List.length_append, h.since, List.length_replicate] at hfull
    simp only [wakeWindowLen, List.length_singleton] at hfull
    omega
  refine ⟨h.kept.step _, ?_, ?_, ?_⟩
  · rw [Runs.observe_snd, heardSince, recordHeard, History.since_concat_neg hflag,
      List.map_append, List.replicate_succ', ← h.since]
    rfl
  · rw [Runs.observe_snd, previousFireUs, recordHeard, History.last?_concat_neg hflag]
    exact h.last
  · rw [Runs.observe_snd, recordHeard, List.countP_append, List.countP_singleton, hflag]
    exact h.count

theorem Uttered.fires {y : WakeDetector × List Heard} {fires : ℕ} {lastUs nowUs : ℤ}
    (h : Uttered y 4 fires lastUs) (hlater : nowUs - lastUs > 2000000) :
    Uttered (Runs.observe hear recordHeard y (1, nowUs)) 0 (fires + 1) nowUs := by
  have hrecent : recentProbs y.2 1 = [1, 1, 1, 1, 1] := by
    rw [recentProbs, h.since]
    rfl
  have hflag : (heardEntry y.1 (1, nowUs)).fired = true := by
    refine (h.kept.byRule (1, nowUs)).mpr ⟨?_, ?_, ?_, ?_, ?_⟩
    · rw [List.length_append, h.since]
      exact le_rfl
    · exact hrecent ▸ by decide +kernel
    · exact hrecent ▸ ⟨1, List.mem_cons_self, by norm_num [wakePeakMin]⟩
    · exact hrecent ▸ by norm_num [wakeAvgMin, wakeWindowLen]
    · exact h.last ▸ hlater
  refine ⟨h.kept.step _, ?_, ?_, ?_⟩
  · rw [Runs.observe_snd, heardSince, recordHeard, History.since_concat_pos hflag]
    rfl
  · rw [Runs.observe_snd, previousFireUs, recordHeard, History.last?_concat_pos hflag]
    rfl
  · rw [Runs.observe_snd, recordHeard, List.countP_append, List.countP_singleton, if_pos hflag,
      h.count]

theorem uttered (n : ℕ) : Uttered (wakeTrace (utterances n)) 0 n (n * 2000001) := by
  induction n with
  | zero => exact ⟨TraceKept.boot, rfl, rfl, rfl⟩
  | succ n ih =>
    rw [utterances, List.range_succ, List.flatMap_append, List.flatMap_singleton, wakeTrace,
      Runs.run, List.foldl_append]
    set nowUs : ℤ := (n + 1) * 2000001 with hnow
    have h4 := (((ih.quiet (by omega) nowUs).quiet (by omega) nowUs).quiet (by omega)
      nowUs).quiet (by omega) nowUs
    have hlater : nowUs - n * 2000001 > 2000000 := by omega
    exact_mod_cast h4.fires hlater

/-- Times of the utterances: in order, and all of them microseconds of an `int64_t`. -/
theorem utterances_times (n : ℕ) :
    (utterances n).Pairwise (fun x y => x.2 ≤ y.2) ∧
      ∀ x ∈ utterances n, x.1 = 1 ∧ 0 ≤ x.2 ∧ x.2 ≤ n * 2000001 := by
  have hmem : ∀ i, ∀ x ∈ utterance i, x = (1, ((i : ℤ) + 1) * 2000001) := by
    intro i x hx
    exact List.eq_of_mem_replicate hx
  refine ⟨?_, ?_⟩
  · rw [utterances, List.pairwise_flatMap]
    refine ⟨?_, List.pairwise_lt_range.imp ?_⟩
    · intro i _
      exact List.pairwise_replicate.mpr (Or.inr le_rfl)
    · intro i j hij x hx y hy
      rw [hmem i x hx, hmem j y hy]
      have hle : (i : ℤ) ≤ j := by exact_mod_cast hij.le
      linarith
  · intro x hx
    obtain ⟨i, hi, hx⟩ := List.mem_flatMap.mp hx
    have hlt : (i : ℤ) + 1 ≤ n := by exact_mod_cast List.mem_range.mp hi
    rw [hmem i x hx]
    refine ⟨rfl, ?_, ?_⟩
    · positivity
    · linarith

/-- **After `2 ^ 32` fires the published number is zero again**: certain
probabilities, times in order and within an `int64_t`. -/
theorem wakeTrace_fireSeq_wraps :
    (utterances (2 ^ 32)).Pairwise (fun x y => x.2 ≤ y.2) ∧
      (∀ x ∈ utterances (2 ^ 32), (0 ≤ x.1 ∧ x.1 ≤ 1) ∧ 0 ≤ x.2 ∧ x.2 < 2 ^ 63) ∧
      (wakeTrace (utterances (2 ^ 32))).2.countP (·.fired) = 2 ^ 32 ∧
      (wakeTrace (utterances (2 ^ 32))).1.metrics.fireSeq = 0 := by
  obtain ⟨hsorted, hrange⟩ := utterances_times (2 ^ 32)
  have huttered := uttered (2 ^ 32)
  refine ⟨hsorted, ?_, huttered.count, ?_⟩
  · intro x hx
    obtain ⟨hone, hpos, hle⟩ := hrange x hx
    refine ⟨⟨by rw [hone]; norm_num, hone.le⟩, hpos, lt_of_le_of_lt hle (by norm_num)⟩
  · rw [huttered.kept.fireSeq, huttered.count]
    rfl

end PipecatVoice
