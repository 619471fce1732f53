import Mathlib.Data.List.Basic

/-!
# Runs of a total step function

A system is a total function `step : σ → α → σ`: an action that is not enabled
leaves the state alone, so a schedule is any list of actions and an
interleaving of several tasks is a list that mixes theirs.

* `run` — the state after a schedule;
* `Meets` — every step of the schedule meets a guard on the state before it
  and the action taken;
* `Always` — a property of the states holds at each state of the run;
* `collect` — what the steps of a run put out, one after the other;
* `observe` — a history variable: a second component that only watches.

The induction over schedules is done here once. A development states what one
step preserves and applies `run_induct` (what holds after every schedule) or
`meets_congr` (which schedules meet a guard).
-/

namespace Runs

universe u v w

variable {σ : Type u} {α : Type v} {η : Type w}

/-- The state after a schedule of actions. -/
def run (step : σ → α → σ) (s : σ) (as : List α) : σ := as.foldl step s

/-- Every step of the schedule meets the guard `G`, which sees the state before
the step and the action. -/
def Meets (step : σ → α → σ) (G : σ → α → Bool) : σ → List α → Bool
  | _, [] => true
  | s, a :: as => G s a && Meets step G (step s a) as

/-- Guards that agree wherever an invariant holds are met by the same
schedules. -/
theorem meets_congr {step : σ → α → σ} {G G' : σ → α → Bool} {I : σ → Prop}
    (hstep : ∀ s a, I s → I (step s a)) (hguard : ∀ s a, I s → G s a = G' s a) :
    ∀ {s : σ} (as : List α), I s → Meets step G s as = Meets step G' s as := by
  intro s as
  induction as generalizing s with
  | nil => exact fun _ => rfl
  | cons a as ih =>
    intro hs
    rw [Meets, Meets, hguard s a hs, ih (hstep s a hs)]

/-- A weaker guard is met by more schedules. -/
theorem Meets.imp {step : σ → α → σ} {G G' : σ → α → Bool} (h : ∀ s a, G s a → G' s a) :
    ∀ {s : σ} {as : List α}, Meets step G s as → Meets step G' s as := by
  intro s as
  induction as generalizing s with
  | nil => exact id
  | cons a as ih =>
    intro hmeets
    obtain ⟨hguard, hrest⟩ := (Bool.and_eq_true _ _).mp hmeets
    exact (Bool.and_eq_true _ _).mpr ⟨h s a hguard, ih hrest⟩

/-- **Run induction**: what every step preserves holds after every schedule. -/
theorem run_induct {step : σ → α → σ} {I : σ → Prop}
    (hstep : ∀ s a, I s → I (step s a)) {s : σ} (as : List α) (hs : I s) :
    I (run step s as) := by
  induction as generalizing s with
  | nil => exact hs
  | cons a as ih => exact ih (hstep s a hs)

/-- The same, for the actions of the schedule only. -/
theorem run_induct_mem {step : σ → α → σ} {I : σ → Prop} {as : List α}
    (hstep : ∀ s, ∀ a ∈ as, I s → I (step s a)) {s : σ} (hs : I s) : I (run step s as) := by
  induction as generalizing s with
  | nil => exact hs
  | cons a as ih =>
    refine ih (fun s b hb => hstep s b (List.mem_cons_of_mem a hb)) ?_
    exact hstep s a List.mem_cons_self hs

/-- A property of the state that a step keeps exactly when it meets `G`: the
run keeps it exactly when all of its steps do. -/
theorem run_iff_meets {step : σ → α → σ} {G : σ → α → Bool} {I P : σ → Prop}
    (hstep : ∀ s a, I s → I (step s a)) (hkeep : ∀ s a, I s → (P (step s a) ↔ P s ∧ G s a))
    (as : List α) : ∀ {s : σ}, I s → (P (run step s as) ↔ P s ∧ Meets step G s as) := by
  induction as with
  | nil => exact fun _ => (and_iff_left rfl).symm
  | cons a as ih =>
    intro s hs
    have hrest := ih (hstep s a hs)
    rw [hkeep s a hs, and_assoc] at hrest
    rw [Meets, Bool.and_eq_true]
    exact hrest

/-- **Simulation**: where each step of one system, taken within a guard, is matched
by the step of another, so are whole runs. -/
theorem run_simulates {σ' α' : Type*} {step : σ → α → σ} {step' : σ' → α' → σ'} {f : α' → α}
    {R : σ → σ' → Prop} {G : σ → α → Bool}
    (hstep : ∀ s s' a, R s s' → G s (f a) → R (step s (f a)) (step' s' a)) (as : List α') :
    ∀ {s : σ} {s' : σ'}, R s s' → Meets step G s (as.map f) →
      R (run step s (as.map f)) (run step' s' as) := by
  induction as with
  | nil => exact fun h _ => h
  | cons a as ih =>
    intro s s' h hmeets
    obtain ⟨hnow, hrest⟩ := (Bool.and_eq_true _ _).mp hmeets
    exact ih (hstep s s' a h hnow) hrest

/-- `P` holds at every state of the run, the first and the last included. -/
def Always (step : σ → α → σ) (P : σ → Prop) : σ → List α → Prop
  | s, [] => P s
  | s, a :: as => P s ∧ Always step P (step s a) as

theorem Always.head {step : σ → α → σ} {P : σ → Prop} {s : σ} {as : List α}
    (h : Always step P s as) : P s := by
  cases as with
  | nil => exact h
  | cons a as => exact h.1

/-- Every state of a run is the last state of a shorter one. -/
theorem always_iff_take {step : σ → α → σ} {P : σ → Prop} {as : List α} :
    ∀ {s : σ}, Always step P s as ↔ ∀ n, P (run step s (as.take n)) := by
  induction as with
  | nil => exact fun {s} => ⟨fun h n => by rwa [List.take_nil], fun h => h 0⟩
  | cons a as ih =>
    intro s
    rw [Always, ih]
    refine ⟨?_, ?_⟩
    · rintro ⟨hs, hrest⟩ n
      cases n with
      | zero => exact hs
      | succ n => exact hrest n
    · exact fun h => ⟨h 0, fun n => h (n + 1)⟩

/-- **Induction along a run that keeps `P`**: what a step preserves, given that
`P` holds where it begins and where it ends, holds all along. -/
theorem Always.keeps {step : σ → α → σ} {P I : σ → Prop}
    (hstep : ∀ s a, I s → P s → P (step s a) → I (step s a)) {s : σ} {as : List α}
    (hs : I s) (h : Always step P s as) : Always step I s as := by
  induction as generalizing s with
  | nil => exact hs
  | cons a as ih => exact ⟨hs, ih (hstep s a hs h.1 h.2.head) h.2⟩

/-- A property that a step out of it keeps exactly when it meets `G`: it holds
all along exactly when all of the steps do. Here `H` is what the schedule is
known to meet. -/
theorem always_iff_meets_within {step : σ → α → σ} {I P : σ → Prop} {H G : σ → α → Bool}
    (hstep : ∀ s a, I s → H s a → I (step s a))
    (hkeep : ∀ s a, I s → H s a → P s → (P (step s a) ↔ G s a)) (as : List α) :
    ∀ {s : σ}, I s → P s → Meets step H s as → (Always step P s as ↔ Meets step G s as) := by
  induction as with
  | nil => exact fun _ hs _ => iff_of_true hs rfl
  | cons a as ih =>
    intro s hinv hs hwithin
    obtain ⟨hnow, hrest⟩ := (Bool.and_eq_true _ _).mp hwithin
    have hnext := hstep s a hinv hnow
    rw [Always, Meets, Bool.and_eq_true, ← hkeep s a hinv hnow hs, and_iff_right hs]
    refine ⟨?_, ?_⟩
    · intro h
      exact ⟨h.head, (ih hnext h.head hrest).mp h⟩
    · rintro ⟨hP, hmeets⟩
      exact (ih hnext hP hrest).mpr hmeets

theorem meets_true (step : σ → α → σ) (as : List α) :
    ∀ s : σ, Meets step (fun _ _ => true) s as := by
  induction as with
  | nil => exact fun _ => rfl
  | cons a as ih => exact fun s => ih (step s a)

theorem always_iff_meets {step : σ → α → σ} {I P : σ → Prop} {G : σ → α → Bool}
    (hstep : ∀ s a, I s → I (step s a)) (hkeep : ∀ s a, I s → P s → (P (step s a) ↔ G s a))
    (as : List α) {s : σ} (hinv : I s) (hs : P s) : Always step P s as ↔ Meets step G s as :=
  always_iff_meets_within (fun s a h _ => hstep s a h) (fun s a h _ => hkeep s a h) as hinv hs
    (meets_true step as s)

theorem Always.imp {step : σ → α → σ} {P Q : σ → Prop} (himp : ∀ s, P s → Q s) {s : σ}
    {as : List α} (h : Always step P s as) : Always step Q s as := by
  induction as generalizing s with
  | nil => exact himp s h
  | cons a as ih => exact ⟨himp s h.1, ih h.2⟩

/-- An invariant holds all along. -/
theorem always_induct {step : σ → α → σ} {I : σ → Prop}
    (hstep : ∀ s a, I s → I (step s a)) {s : σ} (as : List α) (hs : I s) :
    Always step I s as := by
  induction as generalizing s with
  | nil => exact hs
  | cons a as ih => exact ⟨hs, ih (hstep s a hs)⟩

/-- What the steps that meet a guard preserve holds all along a run of them. -/
theorem always_of_meets {step : σ → α → σ} {I : σ → Prop} {G : σ → α → Bool}
    (hstep : ∀ s a, I s → G s a → I (step s a)) {s : σ} {as : List α} (hs : I s)
    (h : Meets step G s as) : Always step I s as := by
  induction as generalizing s with
  | nil => exact hs
  | cons a as ih =>
    obtain ⟨hnow, hrest⟩ := (Bool.and_eq_true _ _).mp h
    exact ⟨hs, ih (hstep s a hs hnow) hrest⟩

theorem always_and {step : σ → α → σ} {P Q : σ → Prop} {s : σ} {as : List α} :
    Always step (fun s => P s ∧ Q s) s as ↔ Always step P s as ∧ Always step Q s as := by
  simp only [always_iff_take]
  exact forall_and

/-- What the steps of a run put out. -/
def collect {β : Type w} (step : σ → α → σ) (out : σ → α → List β) : σ → List α → List β
  | _, [] => []
  | s, a :: as => out s a ++ collect step out (step s a) as

/-- A log that every step extends by its output. -/
theorem log_run {β : Type w} {step : σ → α → σ} {out : σ → α → List β} {I : σ → Prop}
    (log : σ → List β) (hstep : ∀ s a, I s → I (step s a))
    (hlog : ∀ s a, I s → log (step s a) = log s ++ out s a) (as : List α) :
    ∀ {s : σ}, I s → log (run step s as) = log s ++ collect step out s as := by
  induction as with
  | nil => exact fun _ => (List.append_nil _).symm
  | cons a as ih =>
    intro s hs
    rw [collect, ← List.append_assoc, ← hlog s a hs]
    exact ih (hstep s a hs)

/-- Add a history variable: `record` sees the history, the state before the
step and the action, and never influences the state. -/
def observe (step : σ → α → σ) (record : η → σ → α → η) (x : σ × η) (a : α) : σ × η :=
  (step x.1 a, record x.2 x.1 a)

@[simp] theorem observe_fst (step : σ → α → σ) (record : η → σ → α → η) (x : σ × η) (a : α) :
    (observe step record x a).1 = step x.1 a := rfl

@[simp] theorem observe_snd (step : σ → α → σ) (record : η → σ → α → η) (x : σ × η) (a : α) :
    (observe step record x a).2 = record x.2 x.1 a := rfl

/-- A history does not influence the run. -/
theorem run_observe_fst (step : σ → α → σ) (record : η → σ → α → η) (as : List α) :
    ∀ x : σ × η, (run (observe step record) x as).1 = run step x.1 as := by
  induction as with
  | nil => exact fun _ => rfl
  | cons a as ih => exact fun x => ih (observe step record x a)

/-- A record with one entry for each input lists the inputs, in order. -/
theorem map_run_observe {ε : Type*} {step : σ → α → σ} {record : List ε → σ → α → List ε}
    {input : ε → α}
    (hrecord : ∀ past s a, (record past s a).map input = past.map input ++ [a])
    (as : List α) (s : σ) (past : List ε) :
    (run (observe step record) (s, past) as).2.map input = past.map input ++ as := by
  induction as generalizing s past with
  | nil => exact (List.append_nil _).symm
  | cons a as ih =>
    have hrest := ih (step s a) (record past s a)
    rw [hrecord, List.append_assoc] at hrest
    exact hrest

/-- A guard that does not look at the history. -/
theorem meets_observe (step : σ → α → σ) (record : η → σ → α → η) (G : σ → α → Bool)
    (as : List α) :
    ∀ x : σ × η, Meets (observe step record) (fun x a => G x.1 a) x as = Meets step G x.1 as := by
  induction as with
  | nil => exact fun _ => rfl
  | cons a as ih =>
    intro x
    rw [Meets, Meets, ih, observe_fst]

end Runs
