import PipecatVoice.Lib.Runs
import PipecatVoice.TranscriptFanout

/-!
# Queues left behind

`transcripts_stream` enters the queue of a request in `_transcript_subscribers`
in the handler and takes it out in the `finally` of the generator. A request whose
client is gone before the generator has begun is over without the `finally`: its
queue stays (`removed_iff`), and nothing ever takes it out (`leak_persists`).
-/

namespace PipecatVoice.Fanout

universe u

variable {ι : Type u} {ε : Type u} [DecidableEq ι]

/-- If the request is over, its queue is not entered any more. -/
def Removed (q : ι) (s : State ι ε) : Prop := (s.subs q).pc = .closed → q ∉ s.subscribers

/-- The request is not closed before its generator has begun. -/
def begins (q : ι) (s : State ι ε) : Action ι ε → Bool
  | .close r => !(r = q && (s.subs q).pc = .fresh)
  | .request _ | .gen _ _ | .expire _ | .broadcast _ _ => true

theorem removed_iff_view (q : ι) (s : State ι ε) :
    Removed q s ↔ ((view q s).2.pc = .closed → (view q s).1 = false) := by
  rw [Removed, view, decide_eq_false_iff_not]

/-- A broadcast neither ends a request nor takes a queue out. -/
theorem removed_broadcast {q : ι} {s : State ι ε} (h : Sound (view q s).1 (view q s).2) (ts : ℕ)
    (event : ε) : Removed q (step s (.broadcast ts event)) ↔ Removed q s := by
  have hopen := h.isOpen
  rw [removed_iff_view, removed_iff_view, view_broadcast, hopen, Bool.not_false, Bool.and_true]
  split
  · rfl
  · rfl

/-- What a request's own action does: the `finally` runs wherever the generator
has begun. -/
theorem removed_own {q : ι} {a : Action ι ε} (howner : a.owner = some q) {s : State ι ε}
    (h : Sound (view q s).1 (view q s).2) :
    Removed q (step s a) ↔ Removed q s ∧ begins q s a := by
  have hlive := h.live
  have hsub : (view q s).2 = s.subs q := rfl
  rw [removed_iff_view, removed_iff_view]
  cases a <;> cases howner
  case request =>
    simp only [step, transcriptsStream]
    split
    · rename_i hpc
      simp [view_set, hsub, begins, hpc]
    · simp [begins]
  case gen isDisconnected =>
    simp only [step, gen]
    split
    · rename_i hpc
      simp [view_set, hsub, begins, hpc]
    · rename_i hpc
      split_ifs <;> simp [view_set, view_discard, hsub, begins, hpc]
    · rename_i hpc
      split <;> simp [view_set, hsub, begins, hpc]
    all_goals simp [begins]
  case expire =>
    simp only [step, expire]
    split
    · rename_i hpc
      simp [view_set, hsub, begins, hpc]
    all_goals simp [begins]
  case close =>
    simp only [step, close]
    split
    · rename_i hpc
      simp [view_set, view_discard, hsub, begins, hpc]
    · rename_i hpc
      simp [view_set, view_discard, hsub, begins, hpc]
    · rename_i hpc
      have hlisted : (view q s).1 = true := hlive (congrArg GenPc.live hpc)
      simp [view_set, hsub, begins, hpc, hlisted]
    all_goals
      rename_i hpc
      simp [hsub, begins, hpc]

/-- **A step** leaves a queue behind exactly when it closes a request that has not
begun. -/
theorem removed_step {q : ι} {s : State ι ε} (h : Sound (view q s).1 (view q s).2)
    (a : Action ι ε) : Removed q (step s a) ↔ Removed q s ∧ begins q s a := by
  cases howner : a.owner with
  | none =>
    cases a with
    | broadcast ts event => rw [removed_broadcast h, begins, and_iff_left rfl]
    | _ => cases howner
  | some r =>
    by_cases hr : q = r
    · subst hr
      exact removed_own howner h
    · have hbegins : begins q s a = true := by
        cases a <;> cases howner
        all_goals simp [begins, Ne.symm hr]
      rw [removed_iff_view, removed_iff_view, view_step_of_owner_ne howner hr,
        and_iff_left hbegins]

/-- **No subscriber leak**, but for the requests that end before they begin: in
every state of a run the queue of a request that is over has been taken out,
exactly when the request is not closed before the first iteration. -/
theorem removed_iff (as : List (Action ι ε)) (q : ι) :
    Runs.Always step (Removed q) State.init as ↔ Runs.Meets step (begins q) State.init as := by
  apply Runs.always_iff_meets (I := fun s => Sound (view q s).1 (view q s).2)
  · exact fun s a h => (step_sound h a).1
  · intro s a h hremoved
    rw [removed_step h, and_iff_right hremoved]
  · exact sound_init q
  · exact nofun

/-- A request comes in and its client goes away at once. -/
theorem removed_disconnectFirst :
    ¬ Runs.Always step (Removed 0) (State.init : State ℕ Unit) [.request 0, .close 0] := by
  intro h
  have hlast := Runs.always_iff_take.mp h 2
  exact hlast rfl (List.mem_singleton.mpr rfl)

/-- **A queue left behind stays**: whatever happens afterwards, it is offered
every event that is broadcast. -/
theorem leak_persists {as : List (Action ι ε)} {q : ι}
    (h : ¬ Removed q (Runs.run step State.init as)) (bs : List (Action ι ε)) :
    q ∈ (Runs.run step State.init (as ++ bs)).subscribers := by
  have hsound (as : List (Action ι ε)) :
      Sound (view q (Runs.run step State.init as)).1 (view q (Runs.run step State.init as)).2 :=
    Runs.run_induct (I := fun s => Sound (view q s).1 (view q s).2)
      (fun _ a h => (step_sound h a).1) as (sound_init q)
  have hleft : ¬ Removed q (Runs.run step State.init (as ++ bs)) := by
    rw [Runs.run, List.foldl_append]
    refine (Runs.run_induct (I := fun s => Sound (view q s).1 (view q s).2 ∧ ¬ Removed q s)
      ?_ bs ⟨hsound as, h⟩).2
    rintro s a ⟨hs, hleft⟩
    refine ⟨(step_sound hs a).1, ?_⟩
    rw [removed_step hs]
    exact fun hstep => hleft hstep.1
  exact not_not.mp (Classical.not_imp.mp hleft).2

end PipecatVoice.Fanout
