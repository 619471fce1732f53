import PipecatVoice.Lib.Runs

/-!
# Unwinding

What an observer sees of a system does not depend on the actions of others. Two
conditions on single steps suffice: a step is *consistent* if states that look
alike still look alike after it, and the observer is *unaffected* by an action
if the state looks the same before and after it.

* `view_run_filter` — what is seen of a run is what is seen of the run without
  the actions of others;
* `view_run_eq` — runs that differ in the actions of others only look alike;
* `view_run_labels` — where only some runs are fit for it, and what is seen of
  an action is less than the action.
-/

namespace Unwinding

open Runs

universe u v w

variable {σ : Type u} {α : Type v} {ω : Type w}

/-- The system and the observer are fit for unwinding: `visible` names the
actions that may change what is seen. -/
structure Unwinds (step : σ → α → σ) (view : σ → ω) (visible : α → Bool) : Prop where
  /-- states that look alike still do after the same step -/
  consistent : ∀ s t a, visible a → view s = view t → view (step s a) = view (step t a)
  /-- the other actions are not seen -/
  unaffected : ∀ s a, ¬ visible a → view (step s a) = view s

variable {step : σ → α → σ} {view : σ → ω} {visible : α → Bool}

theorem Unwinds.view_run_filter (h : Unwinds step view visible) (as : List α) :
    ∀ {s t : σ}, view s = view t →
      view (run step s as) = view (run step t (as.filter visible)) := by
  induction as with
  | nil => exact fun hst => hst
  | cons a as ih =>
    intro s t hst
    by_cases ha : visible a
    · rw [List.filter_cons_of_pos ha]
      exact ih (h.consistent s t a ha hst)
    · rw [List.filter_cons_of_neg ha]
      exact ih ((h.unaffected s a ha).trans hst)

/-- **Two runs**: schedules with the same visible actions look alike. -/
theorem Unwinds.view_run_eq (h : Unwinds step view visible) {as bs : List α}
    (hsame : as.filter visible = bs.filter visible) (s : σ) :
    view (run step s as) = view (run step s bs) := by
  have ha := h.view_run_filter as (Eq.refl (view s))
  have hb := h.view_run_filter bs (Eq.refl (view s))
  rw [ha, hb, hsame]

/-- **Labels**: along a run that meets `G` the view follows what is seen of the
actions, and nothing else. -/
theorem view_run_labels {β : Type*} {G : σ → α → Bool} {I : σ → Prop} {label : α → Option β}
    {next : ω → β → ω} (view : σ → ω) (hinv : ∀ s a, I s → I (step s a))
    (hview : ∀ s a, I s → G s a → view (step s a) = (label a).elim (view s) (next (view s)))
    (as : List α) : ∀ {s : σ}, I s → Meets step G s as →
      view (run step s as) = (as.filterMap label).foldl next (view s) := by
  induction as with
  | nil => exact fun _ _ => rfl
  | cons a as ih =>
    intro s hs hmeets
    obtain ⟨hguard, hrest⟩ := (Bool.and_eq_true _ _).mp hmeets
    have hstep := hview s a hs hguard
    refine (ih (hinv s a hs) hrest).trans ?_
    rw [hstep]
    cases hlabel : label a with
    | none => rw [List.filterMap_cons_none hlabel, Option.elim_none]
    | some b => rw [List.filterMap_cons_some hlabel, Option.elim_some, List.foldl_cons]

end Unwinding
