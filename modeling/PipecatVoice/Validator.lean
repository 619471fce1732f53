import Mathlib.Algebra.Order.Field.Rat
import Mathlib.Tactic.Positivity
import PipecatVoice.WakeDetector

/-!
# The offline validator

`count_fires` of `verify_model.py`, which picks the detector's operating point
from recorded clips and says of itself that it mirrors `wake_word.cc`. It has no
peak gate and no mean gate, a lower threshold, a window that a fire does not
damp, and a cooldown counted in rounded invokes.

It is a greedy refractory detector too (`countFires_greedy`), with its own rule
and its own test. The two have parity (`Parity`) where neither the gates nor the
rounding make a difference. Then they count the same
(`countFires_eq_feedWindow_iff`), and without parity some stretch of the
probabilities is counted differently.
-/

namespace PipecatVoice

namespace VerifyModel

/-! ## Detector constants -/

/-- `WAKE_WINDOW_LEN` -/
def wakeWindowLen : ℕ := 5

/-- `WAKE_MIN_HITS` -/
def wakeMinHits : ℕ := 2

/-- `WAKE_THRESHOLD` -/
def wakeThreshold : ℚ := 1 / 2

/-- `WAKE_COOLDOWN_MS` -/
def wakeCooldownMs : ℕ := 2000

/-! ## The detector -/

/-- Rounding to the nearest integer, ties to even (`round`). -/
def pyRound (x : ℚ) : ℤ :=
  let r := x - x.floor
  if r < 1 / 2 then x.floor
  else if r > 1 / 2 then x.floor + 1
  else if x.floor % 2 = 0 then x.floor
  else x.floor + 1

/-- The refractory cooldown in invokes. -/
def cooldownInvokes (invokeMs : ℕ) : ℤ :=
  if invokeMs ≠ 0 then pyRound (wakeCooldownMs / invokeMs) else 0

/-- The window of invoke `i`: the slice `probs[i + 1 - WAKE_WINDOW_LEN : i + 1]`. -/
def window (probs : List ℚ) (i : ℕ) : List ℚ :=
  (probs.drop (i + 1 - wakeWindowLen)).take wakeWindowLen

/-- The loop body of `count_fires`, on the fires and the last fire. -/
def countFiresStep (probs : List ℚ) (threshold : ℚ) (minHits : ℕ) (cooldown : ℤ)
    (acc : ℕ × ℤ) (i : ℕ) : ℕ × ℤ :=
  if i + 1 < wakeWindowLen then acc
  else
    let hits := (window probs i).countP (threshold ≤ ·)
    if hits ≥ minHits ∧ (i : ℤ) - acc.2 > cooldown then (acc.1 + 1, i) else acc

/-- `count_fires` -/
def countFires (probs : List ℚ) (threshold : ℚ) (minHits invokeMs : ℕ) : ℕ :=
  ((List.range probs.length).foldl
    (countFiresStep probs threshold minHits (cooldownInvokes invokeMs)) (0, -10 ^ 9)).1

end VerifyModel

open VerifyModel (countFires cooldownInvokes countFiresStep)

/-! ## The validator is a refractory detector -/

/-- The cooldown is never negative, and never as long as the head start the
`last_fire` sentinel gives. -/
theorem cooldownInvokes_bounds (invokeMs : ℕ) :
    0 ≤ cooldownInvokes invokeMs ∧ cooldownInvokes invokeMs < 10 ^ 9 := by
  rw [cooldownInvokes]
  split
  · rename_i hne
    have hpos : (1 : ℚ) ≤ invokeMs := by exact_mod_cast Nat.one_le_iff_ne_zero.mpr hne
    have hdiv : 0 ≤ (VerifyModel.wakeCooldownMs : ℚ) / invokeMs ∧
        (VerifyModel.wakeCooldownMs : ℚ) / invokeMs ≤ 2000 :=
      ⟨by positivity, div_le_self (by norm_num [VerifyModel.wakeCooldownMs]) hpos⟩
    set x := (VerifyModel.wakeCooldownMs : ℚ) / invokeMs
    have hlow : 0 ≤ x.floor := Rat.le_floor_iff.mpr (by exact_mod_cast hdiv.1)
    have hhigh : x.floor ≤ 2000 := by
      have hfloor : ((x.floor : ℤ) : ℚ) ≤ 2000 := le_trans (Rat.floor_le x) hdiv.2
      exact_mod_cast hfloor
    simp only [VerifyModel.pyRound]
    split_ifs <;> omega
  · omega

/-- Invoke `i` qualifies for the validator: there are five probabilities, and
enough of them clear the threshold. -/
def ValidatorQualifies (threshold : ℚ) (minHits : ℕ) (probs : List ℚ) (i : ℕ) : Prop :=
  5 ≤ i + 1 ∧ windowHits threshold (lastFive probs i) ≥ minHits

instance (threshold : ℚ) (minHits : ℕ) (probs : List ℚ) :
    DecidablePred (ValidatorQualifies threshold minHits probs) := fun i =>
  inferInstanceAs (Decidable (5 ≤ i + 1 ∧ windowHits threshold (lastFive probs i) ≥ minHits))

/-- The validator's refractory rule: more than the cooldown, in invokes. -/
def validatorRecovery (invokeMs : ℕ) : Refractory where
  ready i j := (j : ℤ) - i > cooldownInvokes invokeMs
  decReady i j := inferInstanceAs (Decidable ((j : ℤ) - i > cooldownInvokes invokeMs))
  lt h := by
    have := (cooldownInvokes_bounds invokeMs).1
    omega
  mono := by
    intro i i' j j' h hi hj
    omega

/-- **The validator is greedy**: its loop stays where the greedy detector is. -/
theorem countFires_greedy (probs : List ℚ) (threshold : ℚ) (minHits invokeMs n : ℕ) :
    (List.range n).foldl (countFiresStep probs threshold minHits (cooldownInvokes invokeMs))
        (0, -10 ^ 9) =
      (((validatorRecovery invokeMs).greedy (ValidatorQualifies threshold minHits probs) n).2,
        ((validatorRecovery invokeMs).greedy (ValidatorQualifies threshold minHits probs) n).1.elim
          (-10 ^ 9) (↑·)) := by
  induction n with
  | zero => rfl
  | succ n ih =>
    rw [List.range_succ, List.foldl_append, ih, List.foldl_cons, List.foldl_nil,
      Refractory.greedy]
    set g := (validatorRecovery invokeMs).greedy (ValidatorQualifies threshold minHits probs) n
    have hready : (n : ℤ) - g.1.elim (-10 ^ 9) (↑·) > cooldownInvokes invokeMs ↔
        ∀ i ∈ g.1, (validatorRecovery invokeMs).ready i n := by
      rcases g.1 with _ | i
      · have := (cooldownInvokes_bounds invokeMs).2
        simp only [Option.elim_none, Option.mem_def, reduceCtorEq, false_implies, implies_true,
          iff_true]
        omega
      · simp only [Option.elim_some, Option.mem_def, Option.some.injEq, forall_eq']
        rfl
    simp only [countFiresStep]
    split
    · rename_i hfew
      rw [if_neg]
      exact fun h => absurd h.1.1 (Nat.not_le.mpr hfew)
    · rename_i hfive
      have hiff : ((VerifyModel.window probs n).countP (threshold ≤ ·) ≥ minHits ∧
          (n : ℤ) - g.1.elim (-10 ^ 9) (↑·) > cooldownInvokes invokeMs) ↔
          (ValidatorQualifies threshold minHits probs n ∧
            ∀ i ∈ g.1, (validatorRecovery invokeMs).ready i n) := by
        rw [hready]
        exact ⟨fun h => ⟨⟨Nat.not_lt.mp hfive, h.1⟩, h.2⟩, fun h => ⟨h.1.2, h.2⟩⟩
      by_cases hfire : ValidatorQualifies threshold minHits probs n ∧
          ∀ i ∈ g.1, (validatorRecovery invokeMs).ready i n
      · rw [if_pos (hiff.mpr hfire), if_pos hfire]
        rfl
      · rw [if_neg (fun h => hfire (hiff.mp h)), if_neg hfire]

/-! ## Validator against device -/

/-- Invoke `i` qualifies at the script's operating point. -/
abbrev ScriptQualifies : List ℚ → ℕ → Prop :=
  ValidatorQualifies VerifyModel.wakeThreshold VerifyModel.wakeMinHits

/-- Neither the device's further gates nor the rounding of the cooldown make a
difference to these probabilities. -/
structure Parity (invokeMs : ℕ) (probs : List ℚ) : Prop where
  /-- five probabilities with two of one half or more hold two of 0.6 or more, one of 0.8
  or more, and average one half or more -/
  gates : ∀ i < probs.length, ScriptQualifies probs i → wakeGates (lastFive probs i) = true
  /-- two such windows are more than the rounded cooldown apart exactly if they are five
  invokes and more than two seconds apart -/
  cooldown : ∀ i < probs.length, ∀ j < probs.length, ScriptQualifies probs i →
    ScriptQualifies probs j → ((j : ℤ) - i > cooldownInvokes invokeMs ↔
      i + 5 ≤ j ∧ ((j : ℤ) - i) * invokeMs > wakeCooldownMs)

/-- What passes the device's gates passes the script's test. -/
theorem scriptQualifies_of_wakeQualifies {probs : List ℚ} {i : ℕ} (h : WakeQualifies probs i) :
    ScriptQualifies probs i := by
  obtain ⟨hfive, hgates⟩ := h
  simp only [wakeGates, Bool.and_eq_true, decide_eq_true_eq] at hgates
  refine ⟨hfive, le_trans hgates.1.1 ?_⟩
  refine List.countP_mono_left fun p _ hp => ?_
  have hthreshold : wakeThreshold ≤ p := of_decide_eq_true hp
  refine decide_eq_true (le_trans ?_ hthreshold)
  norm_num [VerifyModel.wakeThreshold, wakeThreshold]

/-- The device's rule, without the microseconds. -/
theorem wakeRecovery_ready_iff {invokeMs i j : ℕ} : (wakeRecovery invokeMs).ready i j ↔
    i + 5 ≤ j ∧ ((j : ℤ) - i) * invokeMs > wakeCooldownMs := by
  refine and_congr_right fun _ => ?_
  exact Int.mul_lt_mul_right (by decide)

/-- With parity both detectors test the same windows. -/
theorem Parity.qualifies_iff {invokeMs : ℕ} {probs : List ℚ} (h : Parity invokeMs probs) :
    ∀ i < probs.length, ScriptQualifies probs i ↔ WakeQualifies probs i := by
  refine fun i hi => ⟨fun hq => ⟨hq.1, h.gates i hi hq⟩, scriptQualifies_of_wakeQualifies⟩

/-! ### Stretches of the probabilities -/

section Stretch

variable (before after : List ℚ) {part : List ℚ} {k : ℕ}

/-- A window of a stretch is one of the whole. -/
theorem lastFive_append (hfour : 4 ≤ k) (hk : k < part.length) :
    lastFive (before ++ (part ++ after)) (before.length + k) = lastFive part k := by
  have hdrop : before.length + k + 1 - 5 = before.length + (k + 1 - 5) := by omega
  rw [lastFive, hdrop, List.drop_length_add_append, List.drop_append_of_le_length (by omega),
    List.take_append_of_le_length, lastFive]
  rw [List.length_drop]
  omega

theorem scriptQualifies_append (hk : k < part.length) : ScriptQualifies part k ↔
    4 ≤ k ∧ ScriptQualifies (before ++ (part ++ after)) (before.length + k) := by
  refine ⟨?_, ?_⟩
  · rintro ⟨hfive, hhits⟩
    have hfour : 4 ≤ k := by omega
    refine ⟨hfour, by omega, ?_⟩
    rwa [lastFive_append before after hfour hk]
  · rintro ⟨hfour, -, hhits⟩
    refine ⟨by omega, ?_⟩
    rwa [lastFive_append before after hfour hk] at hhits

end Stretch

/-- Parity holds of every stretch, too. -/
theorem Parity.of_stretch {invokeMs : ℕ} {probs part : List ℚ} (h : Parity invokeMs probs)
    (hpart : part <:+: probs) : Parity invokeMs part := by
  obtain ⟨before, after, rfl⟩ := hpart
  rw [List.append_assoc] at h
  have hlen (k : ℕ) (hk : k < part.length) :
      before.length + k < (before ++ (part ++ after)).length := by
    simp only [List.length_append]
    omega
  refine ⟨?_, ?_⟩
  · intro k hk hq
    obtain ⟨hfour, hq⟩ := (scriptQualifies_append before after hk).mp hq
    rw [← lastFive_append before after hfour hk]
    exact h.gates _ (hlen k hk) hq
  · intro k hk k' hk' hq hq'
    obtain ⟨-, hq⟩ := (scriptQualifies_append before after hk).mp hq
    obtain ⟨-, hq'⟩ := (scriptQualifies_append before after hk').mp hq'
    have hcool := h.cooldown _ (hlen k hk) _ (hlen k' hk') hq hq'
    have hdiff : ((before.length + k' : ℕ) : ℤ) - (before.length + k : ℕ) = (k' : ℤ) - k := by
      omega
    rw [hdiff] at hcool
    rw [hcool, Nat.add_assoc, Nat.add_le_add_iff_left]

/-- The stretch from the window of `i` to the window of `j`. -/
def stretch (probs : List ℚ) (i j : ℕ) : List ℚ := (probs.drop (i - 4)).take (j - (i - 4) + 1)

section Counts

variable {s : WakeDetector} {startUs : ℤ} {invokeMs : ℕ}

/-- The device's fires, from an empty window with the cooldown over. -/
theorem feedWindow_eq_greedy (hempty : s.probWindow.count = 0)
    (hcool : startUs - s.lastFireUs > wakeCooldownMs * 1000) (probs : List ℚ) :
    (feedWindow s startUs invokeMs probs).2 =
      ((wakeRecovery invokeMs).greedy (WakeQualifies probs) probs.length).2 := by
  have hdevice := (feedWindow_greedy invokeMs probs hempty hcool probs.length le_rfl).fires
  rwa [List.take_length] at hdevice

/-- The script's fires. -/
theorem countFires_eq_greedy (invokeMs : ℕ) (probs : List ℚ) :
    countFires probs VerifyModel.wakeThreshold VerifyModel.wakeMinHits invokeMs =
      ((validatorRecovery invokeMs).greedy (ScriptQualifies probs) probs.length).2 := by
  rw [countFires, countFires_greedy]

/-- **Parity is enough**: the counts are equal. -/
theorem Parity.countFires_eq (hempty : s.probWindow.count = 0)
    (hcool : startUs - s.lastFireUs > wakeCooldownMs * 1000) {probs : List ℚ}
    (h : Parity invokeMs probs) :
    countFires probs VerifyModel.wakeThreshold VerifyModel.wakeMinHits invokeMs =
      (feedWindow s startUs invokeMs probs).2 := by
  rw [countFires_eq_greedy, feedWindow_eq_greedy hempty hcool]
  refine Refractory.count_congr h.qualifies_iff fun i j hi hj hq hq' => ?_
  rw [wakeRecovery_ready_iff]
  exact h.cooldown i hi j hj hq hq'

/-! ### Without parity -/

/-- What the script and the device count is the same for every stretch. -/
def CountsAgree (s : WakeDetector) (startUs : ℤ) (invokeMs : ℕ) (probs : List ℚ) : Prop :=
  ∀ part, part <:+: probs →
    countFires part VerifyModel.wakeThreshold VerifyModel.wakeMinHits invokeMs =
      (feedWindow s startUs invokeMs part).2

/-- The probabilities around a stretch. -/
theorem exists_stretch {probs : List ℚ} {i j : ℕ} (hij : i ≤ j) (hj : j < probs.length) :
    ∃ before after, probs = before ++ (stretch probs i j ++ after) ∧ before.length = i - 4 ∧
      (stretch probs i j).length = j - (i - 4) + 1 := by
  refine ⟨probs.take (i - 4), (probs.drop (i - 4)).drop (j - (i - 4) + 1), ?_, ?_, ?_⟩
  · rw [stretch, List.take_append_drop, List.take_append_drop]
  · rw [List.length_take]
    omega
  · rw [stretch, List.length_take, List.length_drop]
    omega

/-- A window that only the script takes for a wake is a stretch counted differently. -/
theorem CountsAgree.gates (hempty : s.probWindow.count = 0)
    (hcool : startUs - s.lastFireUs > wakeCooldownMs * 1000) {probs : List ℚ}
    (h : CountsAgree s startUs invokeMs probs) {i : ℕ} (hi : i < probs.length)
    (hq : ScriptQualifies probs i) : wakeGates (lastFive probs i) = true := by
  have hfour : 4 ≤ i := by have := hq.1; omega
  obtain ⟨before, after, hsplit, hbefore, hlen⟩ := exists_stretch (le_refl i) hi
  have hcount := h (stretch probs i i) ⟨before, after, by rw [List.append_assoc, ← hsplit]⟩
  have hfive : 4 < (stretch probs i i).length := by omega
  have hindex : i = before.length + 4 := by omega
  rw [countFires_eq_greedy, feedWindow_eq_greedy hempty hcool] at hcount
  have hone : 1 ≤ ((validatorRecovery invokeMs).greedy (ScriptQualifies (stretch probs i i))
      (stretch probs i i).length).2 := by
    refine (Refractory.one_le_count_iff _).mpr ⟨4, hfive, ?_⟩
    refine (scriptQualifies_append before after hfive).mpr ⟨le_rfl, ?_⟩
    rwa [← hsplit, ← hindex]
  rw [hcount] at hone
  obtain ⟨k, hk, hfull, hgates⟩ := (Refractory.one_le_count_iff _).mp hone
  -- the stretch holds one window
  obtain rfl : k = 4 := by omega
  rwa [← lastFive_append before after le_rfl hfive, ← hsplit, ← hindex] at hgates

/-- Two windows at a distance that only one of the two cooldowns covers are a stretch
counted differently. -/
theorem CountsAgree.cooldown (hempty : s.probWindow.count = 0)
    (hcool : startUs - s.lastFireUs > wakeCooldownMs * 1000) {probs : List ℚ}
    (h : CountsAgree s startUs invokeMs probs) {i j : ℕ} (hj : j < probs.length)
    (hqi : ScriptQualifies probs i) (hqj : ScriptQualifies probs j) :
    (validatorRecovery invokeMs).ready i j ↔ (wakeRecovery invokeMs).ready i j := by
  by_cases hij : i ≤ j
  swap
  · exact iff_of_false (fun hready => hij ((validatorRecovery invokeMs).lt hready).le)
      fun hready => hij ((wakeRecovery invokeMs).lt hready).le
  have hfour : 4 ≤ i := by have := hqi.1; omega
  obtain ⟨before, after, hsplit, hbefore, hlen⟩ := exists_stretch hij hj
  have hcount := h (stretch probs i j) ⟨before, after, by rw [List.append_assoc, ← hsplit]⟩
  rw [countFires_eq_greedy, feedWindow_eq_greedy hempty hcool] at hcount
  set part := stretch probs i j
  -- the two windows in the stretch: its first and its last
  obtain ⟨m, hm⟩ : ∃ m, m + 1 = part.length := ⟨j - (i - 4), hlen.symm⟩
  have hfirst : i = before.length + 4 := by omega
  have hlast : j = before.length + m := by omega
  have hscript {k : ℕ} (hk : k < part.length) : ScriptQualifies part k ↔
      4 ≤ k ∧ ScriptQualifies probs (before.length + k) := by
    rw [scriptQualifies_append before after hk, ← hsplit]
  have hwake {k : ℕ} (hfour : 4 ≤ k) (hk : k < part.length)
      (hq : ScriptQualifies probs (before.length + k)) : WakeQualifies part k := by
    have hgates := h.gates hempty hcool (by rw [hsplit]; simp only [List.length_append]; omega) hq
    rw [hsplit, lastFive_append before after hfour hk] at hgates
    exact ⟨by omega, hgates⟩
  have hshift :
      (validatorRecovery invokeMs).ready i j ↔ (validatorRecovery invokeMs).ready 4 m := by
    show (j : ℤ) - i > cooldownInvokes invokeMs ↔ (m : ℤ) - (4 : ℕ) > cooldownInvokes invokeMs
    omega
  have hshift' : (wakeRecovery invokeMs).ready i j ↔ (wakeRecovery invokeMs).ready 4 m := by
    have hdiff : (j : ℤ) - i = (m : ℤ) - (4 : ℕ) := by omega
    rw [wakeRecovery_ready_iff, wakeRecovery_ready_iff, hdiff]
    omega
  rw [hshift, hshift']
  refine ⟨?_, ?_⟩
  · -- the script counts two fires, so the device makes two, and no two are further apart
    intro hready
    have htwo := (Refractory.two_le_count_iff (R := validatorRecovery invokeMs)
      (q := ScriptQualifies part) part.length).mpr ⟨4, by omega, m, by omega,
        (hscript (by omega)).mpr ⟨le_rfl, hfirst ▸ hqi⟩,
        (hscript (by omega)).mpr ⟨by omega, hlast ▸ hqj⟩, hready⟩
    rw [hcount] at htwo
    obtain ⟨a, -, b, hb, hqa, -, hab⟩ := (Refractory.two_le_count_iff _).mp htwo
    have ha := hqa.1
    exact (wakeRecovery invokeMs).mono hab (by omega) (by omega)
  · intro hready
    have hfull := (wakeRecovery invokeMs).lt hready
    have htwo := (Refractory.two_le_count_iff (R := wakeRecovery invokeMs)
      (q := WakeQualifies part) part.length).mpr ⟨4, by omega, m, by omega,
        hwake le_rfl (by omega) (hfirst ▸ hqi), hwake (by omega) (by omega) (hlast ▸ hqj), hready⟩
    rw [← hcount] at htwo
    obtain ⟨a, -, b, hb, hqa, -, hab⟩ := (Refractory.two_le_count_iff _).mp htwo
    have ha := hqa.1
    exact (validatorRecovery invokeMs).mono hab (by omega) (by omega)

end Counts

/-- **When the validator is right**: from an empty window with the cooldown over,
`count_fires` at the script's operating point is the number of fires of `update_window`
if the probabilities have parity, and parity is what it takes to count every stretch of
them right. -/
theorem countFires_eq_feedWindow_iff (probs : List ℚ) (invokeMs : ℕ) (s : WakeDetector)
    (startUs : ℤ) (hempty : s.probWindow.count = 0)
    (hcool : startUs - s.lastFireUs > wakeCooldownMs * 1000) :
    (Parity invokeMs probs →
      countFires probs VerifyModel.wakeThreshold VerifyModel.wakeMinHits invokeMs =
        (feedWindow s startUs invokeMs probs).2) ∧
      (Parity invokeMs probs ↔ CountsAgree s startUs invokeMs probs) := by
  refine ⟨fun h => h.countFires_eq hempty hcool, ?_, ?_⟩
  · intro h part hpart
    exact (h.of_stretch hpart).countFires_eq hempty hcool
  · intro h
    refine ⟨fun i hi hq => h.gates hempty hcool hi hq, ?_⟩
    intro i _ j hj hqi hqj
    have hready := h.cooldown hempty hcool hj hqi hqj
    rwa [wakeRecovery_ready_iff] at hready

/-- A detector fresh from boot. -/
def freshDetector : WakeDetector where
  probWindow := ⟨Vector.replicate 5 0, ⟨0, by decide⟩, 0, Nat.zero_le 5⟩
  detectedLatch := false
  lastProbX1000 := 0
  metrics := { fireSeq := 0, peak := 0, avg := 0, hits := 0, window := [0, 0, 0, 0, 0] }
  lastFireUs := 0

/-- Twelve confident probabilities, 400 ms apart, from 2.4 s after boot: two fires on
either side. -/
theorem countFires_eq_feedWindow_iff_confident :
    Parity 400 (List.replicate 12 1) ∧
      countFires (List.replicate 12 1) VerifyModel.wakeThreshold VerifyModel.wakeMinHits 400 =
        (feedWindow freshDetector 2400000 400 (List.replicate 12 1)).2 := by
  have hparity : Parity 400 (List.replicate 12 1) := ⟨by decide +kernel, by decide +kernel⟩
  exact ⟨hparity, (countFires_eq_feedWindow_iff (List.replicate 12 1) 400 freshDetector 2400000 rfl
    (by decide)).1 hparity⟩

/-- Five probabilities of one half, two seconds after boot: the validator counts
a fire and the device makes none. -/
theorem countFires_ne_feedWindow :
    countFires [1 / 2, 1 / 2, 1 / 2, 1 / 2, 1 / 2] VerifyModel.wakeThreshold
        VerifyModel.wakeMinHits 30 = 1 ∧
      (feedWindow freshDetector 2030000 30 [1 / 2, 1 / 2, 1 / 2, 1 / 2, 1 / 2]).2 = 0 := by
  decide +kernel

end PipecatVoice
