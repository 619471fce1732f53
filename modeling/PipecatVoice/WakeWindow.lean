import Mathlib.Algebra.BigOperators.Group.List.Basic
import Mathlib.Algebra.Order.Ring.Rat
import Mathlib.Data.List.DropRight
import PipecatVoice.Lib.History
import PipecatVoice.Lib.Runs
import PipecatVoice.Lib.SlidingWindow

/-!
# The domain's wake window

`WakeWindow` of `domain/wake_window.hpp`, which is to replace the detector of the
wake-word component: eight clamped probabilities, a bar on their mean, and a
cooldown that lets a window fire again once it is over, to the millisecond. No
fire yet is a last fire at `-1`.

The trace specification (`wakeWindow_spec`) is the one of the device detector
with another rule, and with `reset` among the calls.
-/

namespace PipecatVoice

/-! ## The class -/

def kWakeWindowLen : ℕ := 8

structure WakeConfig where
  /-- mean over the window -/
  threshold : ℚ := 1 / 10
  /-- suppress re-fire, in milliseconds -/
  cooldown : ℤ := 2000

structure WakeWindow where
  cfg : WakeConfig
  /-- `window_`, `idx_` and `count_` -/
  window : SlidingWindow ℚ kWakeWindowLen
  lastProb : ℚ
  /-- `-1` is never -/
  lastFire : ℤ

namespace WakeWindow

/-- A window of zeros, written from the first cell. -/
def zeroed : SlidingWindow ℚ kWakeWindowLen where
  cells := Vector.replicate kWakeWindowLen 0
  next := ⟨0, Nat.zero_lt_succ 7⟩
  count := 0
  count_le := Nat.zero_le _

/-- The constructor. -/
def init (cfg : WakeConfig) : WakeWindow where
  cfg := cfg
  window := zeroed
  lastProb := 0
  lastFire := -1

/-- The two clamps at the top of `push`. -/
def clamp (prob : ℚ) : ℚ :=
  let prob := if prob < 0 then 0 else prob
  if prob > 1 then 1 else prob

/-- The stores of `push`. -/
def store (w : WakeWindow) (prob : ℚ) : WakeWindow :=
  { w with
    lastProb := clamp prob
    window := w.window.push (clamp prob) }

/-- The mean of the cells. -/
def avg (cells : List ℚ) : ℚ := cells.foldl (fun sum p => sum + p) 0 / kWakeWindowLen

/-- Fire, and damp the window. -/
def fire (w : WakeWindow) (now : ℤ) : WakeWindow :=
  { w with
    lastFire := now
    window := w.window.clear 0 }

/-- `push`: whether the wake event fires on this sample, and the window after it. -/
def push (w : WakeWindow) (prob : ℚ) (now : ℤ) : Bool × WakeWindow :=
  let w := w.store prob
  if w.window.count < kWakeWindowLen then (false, w)
  else if avg w.window.cells.toList < w.cfg.threshold then (false, w)
  else if w.lastFire ≥ 0 ∧ now - w.lastFire < w.cfg.cooldown then (false, w)
  else (true, w.fire now)

/-- `reset` keeps the configuration only. -/
def reset (w : WakeWindow) : WakeWindow := init w.cfg

/-- A push fires: the window is full, its mean reaches the bar, and no fire is
too recent. -/
def PushFires (w : WakeWindow) (prob : ℚ) (now : ℤ) : Prop :=
  (w.window.push (clamp prob)).count = kWakeWindowLen ∧
    w.cfg.threshold ≤ avg (w.window.push (clamp prob)).cells.toList ∧
    (0 ≤ w.lastFire → w.cfg.cooldown ≤ now - w.lastFire)

theorem push_of_fires {w : WakeWindow} {prob : ℚ} {now : ℤ} (h : w.PushFires prob now) :
    w.push prob now = (true, (w.store prob).fire now) := by
  obtain ⟨hfull, hmean, hcool⟩ := h
  have hcount : ¬ (w.store prob).window.count < kWakeWindowLen := by
    rw [Nat.not_lt]
    exact hfull.ge
  have hbar : ¬ avg (w.store prob).window.cells.toList < (w.store prob).cfg.threshold :=
    not_lt.mpr hmean
  have hover : ¬ ((w.store prob).lastFire ≥ 0 ∧
      now - (w.store prob).lastFire < (w.store prob).cfg.cooldown) := by
    rintro ⟨hfired, hrecent⟩
    exact not_le.mpr hrecent (hcool hfired)
  rw [push, if_neg hcount, if_neg hbar, if_neg hover]

theorem push_of_not_fires {w : WakeWindow} {prob : ℚ} {now : ℤ} (h : ¬ w.PushFires prob now) :
    w.push prob now = (false, w.store prob) := by
  rw [push]
  split
  · rfl
  · rename_i hfull
    split
    · rfl
    · rename_i hmean
      rw [if_pos]
      have hle := (w.window.push (clamp prob)).count_le
      by_contra hover
      refine h ⟨le_antisymm hle (Nat.not_lt.mp hfull), not_lt.mp hmean, fun hfired => ?_⟩
      exact not_lt.mp fun hrecent => hover ⟨hfired, hrecent⟩

theorem push_fst_iff (w : WakeWindow) (prob : ℚ) (now : ℤ) :
    (w.push prob now).1 = true ↔ w.PushFires prob now := by
  by_cases hfires : w.PushFires prob now
  · rw [push_of_fires hfires]
    exact iff_of_true rfl hfires
  · rw [push_of_not_fires hfires]
    exact iff_of_false Bool.false_ne_true hfires

end WakeWindow

/-! ## The trace and its rule -/

/-- A call of the class. -/
inductive WakeCall where
  | push (prob : ℚ) (now : ℤ)
  | reset

/-- What a push pushes. -/
def WakeCall.prob? : WakeCall → Option ℚ
  | .push prob _ => some (WakeWindow.clamp prob)
  | .reset => none

/-- The time of a push. -/
def WakeCall.now? : WakeCall → Option ℤ
  | .push _ now => some now
  | .reset => none

/-- One call, as the trace sees it. -/
structure Called where
  call : WakeCall
  /-- a push that returned true -/
  fired : Bool

/-- The call was a reset. -/
def Called.isReset (e : Called) : Bool := e.call.now?.isNone

/-- The call emptied the window. -/
def Called.emptied (e : Called) : Bool := e.fired || e.isReset

/-- Carry out one call. -/
def WakeWindow.call (w : WakeWindow) : WakeCall → Bool × WakeWindow
  | .push prob now => w.push prob now
  | .reset => (false, w.reset)

/-- The entry of that call. -/
def calledEntry (w : WakeWindow) (c : WakeCall) : Called := { call := c, fired := (w.call c).1 }

/-- Pushed since the last fire or reset, clamped. -/
def pushedSince (past : List Called) : List ℚ :=
  (History.since (·.emptied) past).filterMap (·.call.prob?)

/-- Time of the last fire since the last reset, if there was one. -/
def lastFire? (past : List Called) : Option ℤ :=
  (History.last? (·.fired) (History.since (·.isReset) past)).bind (·.call.now?)

/-- What the class keeps of its trace. -/
structure CallsKept (cfg : WakeConfig) (w : WakeWindow) (past : List Called) : Prop where
  cfg_eq : w.cfg = cfg
  window : w.window.contents = (pushedSince past).rtake kWakeWindowLen
  lastFire : w.lastFire = (lastFire? past).getD (-1)
  fire_nonneg : ∀ t ∈ lastFire? past, 0 ≤ t

variable {cfg : WakeConfig} {w : WakeWindow} {past : List Called}

theorem CallsKept.init (cfg : WakeConfig) : CallsKept cfg (WakeWindow.init cfg) [] := by
  refine ⟨rfl, ?_, rfl, fun t ht => absurd ht nofun⟩
  rw [pushedSince, History.since_nil, List.filterMap_nil, List.rtake_nil,
    ← List.length_eq_zero_iff]
  exact SlidingWindow.length_contents _

/-- A reset forgets the trace. -/
theorem CallsKept.reset (h : CallsKept cfg w past) :
    CallsKept cfg (w.call .reset).2 (past ++ [calledEntry w .reset]) := by
  have hsince : pushedSince (past ++ [calledEntry w .reset]) = [] := by
    rw [pushedSince, History.since_concat_pos rfl, List.filterMap_nil]
  have hlast : lastFire? (past ++ [calledEntry w .reset]) = none := by
    rw [lastFire?, History.since_concat_pos rfl]
    rfl
  refine ⟨h.cfg_eq, ?_, ?_, ?_⟩
  · rw [hsince, List.rtake_nil, ← List.length_eq_zero_iff]
    exact SlidingWindow.length_contents _
  · rw [hlast]
    rfl
  · rw [hlast]
    exact fun t ht => absurd ht nofun

/-- A push that fires starts the window and the cooldown anew. -/
theorem CallsKept.fire (h : CallsKept cfg w past) {prob : ℚ} {now : ℤ}
    (hfires : w.PushFires prob now) (hnow : 0 ≤ now) :
    CallsKept cfg (w.call (.push prob now)).2 (past ++ [calledEntry w (.push prob now)]) := by
  have hflag : (calledEntry w (.push prob now)).fired = true :=
    (w.push_fst_iff prob now).mpr hfires
  have hstop : (calledEntry w (.push prob now)).emptied = true := by
    rw [Called.emptied, hflag, Bool.true_or]
  have hpush : (w.call (.push prob now)).2 = (w.store prob).fire now :=
    congrArg Prod.snd (WakeWindow.push_of_fires hfires)
  have hlast : lastFire? (past ++ [calledEntry w (.push prob now)]) = some now := by
    rw [lastFire?, History.since_concat_neg rfl, History.last?_concat_pos hflag]
    rfl
  refine ⟨?_, ?_, ?_, ?_⟩
  · rw [hpush]
    exact h.cfg_eq
  · rw [hpush, pushedSince, History.since_concat_pos hstop]
    exact SlidingWindow.contents_clear _ _
  · rw [hpush, hlast]
    rfl
  · rw [hlast]
    rintro t ⟨rfl⟩
    exact hnow

/-- A push that does not fire, suppressed or not, only adds to the window. -/
theorem CallsKept.quiet (h : CallsKept cfg w past) {prob : ℚ} {now : ℤ}
    (hquiet : ¬ w.PushFires prob now) :
    CallsKept cfg (w.call (.push prob now)).2 (past ++ [calledEntry w (.push prob now)]) := by
  have hflag : (calledEntry w (.push prob now)).fired = false :=
    Bool.eq_false_iff.mpr fun hfired => hquiet ((w.push_fst_iff prob now).mp hfired)
  have hgo : (calledEntry w (.push prob now)).emptied = false := by
    rw [Called.emptied, hflag]
    rfl
  have hpush : (w.call (.push prob now)).2 = w.store prob :=
    congrArg Prod.snd (WakeWindow.push_of_not_fires hquiet)
  have hlast : lastFire? (past ++ [calledEntry w (.push prob now)]) = lastFire? past := by
    rw [lastFire?, History.since_concat_neg rfl, History.last?_concat_neg hflag, lastFire?]
  refine ⟨?_, ?_, ?_, ?_⟩
  · rw [hpush]
    exact h.cfg_eq
  · rw [hpush, pushedSince, History.since_concat_neg hgo, List.filterMap_append]
    exact SlidingWindow.contents_push_rtake h.window (WakeWindow.clamp prob)
  · rw [hpush, hlast]
    exact h.lastFire
  · rw [hlast]
    exact h.fire_nonneg

/-- **One call keeps the invariant**, a push at a time that is not negative. -/
theorem CallsKept.step (h : CallsKept cfg w past) (c : WakeCall) (hc : ∀ t ∈ c.now?, 0 ≤ t) :
    CallsKept cfg (w.call c).2 (past ++ [calledEntry w c]) := by
  cases c with
  | push prob now =>
    by_cases hfires : w.PushFires prob now
    · exact h.fire hfires (hc now rfl)
    · exact h.quiet hfires
  | reset => exact h.reset

end PipecatVoice
