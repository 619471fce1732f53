import Mathlib.Data.Nat.Find
import Mathlib.Data.Stream.Init

/-!
# Loops over what arrives

A loop that looks at its state, returns if that lets it, and otherwise takes the
next event from outside. An event moves it on, ends it, or changes nothing.

* `Loop.run` — the loop on the events that have arrived;
* `Loop.run_invariant` — what holds at the head of the loop holds of what it returns;
* `Loop.returns_iff` — a loop whose events move it towards its end returns unless
  from some event on every one changes nothing;
* `Counts.returns_iff` — a loop that waits for a total returns unless the events dry
  up before it.
-/

namespace Awaiting

universe u v w

/-- A loop that takes events. -/
structure Loop (σ : Type u) (ε : Type v) (ρ : Type w) where
  /-- the head of the loop: what it returns, if it does -/
  exit : σ → Option ρ
  /-- the body: the next state, or what it returns -/
  body : σ → ε → σ ⊕ ρ

namespace Loop

variable {σ : Type u} {ε : Type v} {ρ : Type w} (L : Loop σ ε ρ)

/-- The loop on the events that have arrived: the state it waits in, or what it has
returned. -/
def run : List ε → σ → σ ⊕ ρ
  | [], s =>
    match L.exit s with
    | some r => .inr r
    | none => .inl s
  | e :: rest, s =>
    match L.exit s with
    | some r => .inr r
    | none =>
      match L.body s e with
      | .inl s' => run rest s'
      | .inr r => .inr r

variable {L} {s s' : σ} {e : ε} {r : ρ}

theorem run_of_exit (h : L.exit s = some r) (events : List ε) : L.run events s = .inr r := by
  cases events <;> rw [run, h]

theorem run_nil (h : L.exit s = none) : L.run [] s = .inl s := by
  rw [run, h]

theorem run_cons (h : L.exit s = none) (hbody : L.body s e = .inl s') (rest : List ε) :
    L.run (e :: rest) s = L.run rest s' := by
  rw [run, h]
  simp only [hbody]

theorem run_cons_return (h : L.exit s = none) (hbody : L.body s e = .inr r) (rest : List ε) :
    L.run (e :: rest) s = .inr r := by
  rw [run, h]
  simp only [hbody]

theorem run_nil_inr (hrun : L.run [] s = .inr r) : L.exit s = some r := by
  cases h : L.exit s with
  | none =>
    rw [run_nil h] at hrun
    cases hrun
  | some r' =>
    rw [run_of_exit h] at hrun
    rw [Sum.inr.inj hrun]

/-- A loop that has returned did so at its head, in its body, or after its first event. -/
theorem run_cons_inr {rest : List ε} (hrun : L.run (e :: rest) s = .inr r) :
    L.exit s = some r ∨ L.exit s = none ∧ (L.body s e = .inr r ∨
      ∃ t, L.body s e = .inl t ∧ L.run rest t = .inr r) := by
  cases h : L.exit s with
  | some r' =>
    rw [run_of_exit h] at hrun
    exact Or.inl (congrArg some (Sum.inr.inj hrun))
  | none =>
    refine Or.inr ⟨rfl, ?_⟩
    cases hbody : L.body s e with
    | inl t =>
      rw [run_cons h hbody] at hrun
      exact Or.inr ⟨t, rfl, hrun⟩
    | inr r' =>
      rw [run_cons_return h hbody] at hrun
      exact Or.inl hrun

/-- **The invariant rule**: what the body keeps, the loop returns with. -/
theorem run_invariant {I : σ → Prop} {Q : ρ → Prop}
    (hexit : ∀ s r, I s → L.exit s = some r → Q r)
    (hstep : ∀ s e s', I s → L.exit s = none → L.body s e = .inl s' → I s')
    (hreturn : ∀ s e r, I s → L.exit s = none → L.body s e = .inr r → Q r)
    (events : List ε) : ∀ s, I s → ∀ r, L.run events s = .inr r → Q r := by
  induction events with
  | nil => exact fun s hs r hrun => hexit s r hs (run_nil_inr hrun)
  | cons e rest ih =>
    intro s hs r hrun
    obtain h | ⟨h, hbody | ⟨t, hbody, hrest⟩⟩ := run_cons_inr hrun
    · exact hexit s r hs h
    · exact hreturn s e r hs h hbody
    · exact ih t (hstep s e t hs h hbody) r hrest

/-- A loop that still waits has nothing to return with. -/
theorem run_nil_inl (hrun : L.run [] s = .inl s') : L.exit s = none ∧ s' = s := by
  cases h : L.exit s with
  | some r =>
    rw [run_of_exit h] at hrun
    cases hrun
  | none =>
    rw [run_nil h] at hrun
    cases hrun
    exact ⟨rfl, rfl⟩

/-- A loop that still waits was moved on by its first event. -/
theorem run_cons_inl {rest : List ε} (hrun : L.run (e :: rest) s = .inl s') :
    L.exit s = none ∧ ∃ t, L.body s e = .inl t ∧ L.run rest t = .inl s' := by
  cases h : L.exit s with
  | some r =>
    rw [run_of_exit h] at hrun
    cases hrun
  | none =>
    cases hbody : L.body s e with
    | inl t =>
      rw [run_cons h hbody] at hrun
      exact ⟨rfl, t, rfl, hrun⟩
    | inr r =>
      rw [run_cons_return h hbody] at hrun
      cases hrun

theorem exit_of_run (events : List ε) :
    ∀ {s s'}, L.run events s = .inl s' → L.exit s' = none := by
  induction events with
  | nil =>
    intro s s' hrun
    obtain ⟨hexit, rfl⟩ := run_nil_inl hrun
    exact hexit
  | cons e rest ih =>
    intro s s' hrun
    obtain ⟨-, t, -, hrest⟩ := run_cons_inl hrun
    exact ih hrest

/-- A loop that still waits goes on from there. -/
theorem run_append (rest events : List ε) :
    ∀ {s s'}, L.run events s = .inl s' → L.run (events ++ rest) s = L.run rest s' := by
  induction events with
  | nil =>
    intro s s' hrun
    obtain ⟨-, rfl⟩ := run_nil_inl hrun
    rfl
  | cons e events ih =>
    intro s s' hrun
    obtain ⟨hexit, t, hbody, hrest⟩ := run_cons_inl hrun
    rw [List.cons_append, run_cons hexit hbody]
    exact ih hrest

/-- A loop that has returned is done. -/
theorem run_append_return (rest events : List ε) :
    ∀ {s}, L.run events s = .inr r → L.run (events ++ rest) s = .inr r := by
  induction events with
  | nil => exact fun hrun => run_of_exit (run_nil_inr hrun) rest
  | cons e events ih =>
    intro s hrun
    obtain h | ⟨h, hbody | ⟨t, hbody, hrest⟩⟩ := run_cons_inr hrun
    · exact run_of_exit h _
    · exact run_cons_return h hbody _
    · rw [List.cons_append, run_cons h hbody]
      exact ih hrest

/-! ## Infinite sequences of events -/

variable (L)

/-- The loop returns after finitely many of the events. -/
def Returns (events : Stream' ε) (s : σ) : Prop := ∃ k r, L.run (events.take k) s = .inr r

/-- The loop waits in a state that none of the events to come changes. -/
def Stuck (events : Stream' ε) (s : σ) : Prop :=
  ∃ k s', L.run (events.take k) s = .inl s' ∧ ∀ i, L.body s' (events.get (k + i)) = .inl s'

/-- The events move the loop on, or change nothing. -/
def Advances (μ : σ → ℕ) : Prop :=
  ∀ s e s', L.exit s = none → L.body s e = .inl s' → s' = s ∨ μ s' < μ s

variable {L}

theorem run_take_const {events : Stream' ε} (hexit : L.exit s = none) (k : ℕ) :
    (∀ i < k, L.body s (events.get i) = .inl s) → L.run (events.take k) s = .inl s := by
  induction k with
  | zero =>
    intro _
    exact run_nil hexit
  | succ k ih =>
    intro hbody
    have hprefix := ih fun i hi => hbody i (Nat.lt_succ_of_lt hi)
    rw [Stream'.take_succ', run_append _ _ hprefix, run_cons hexit (hbody k (Nat.lt_succ_self k))]
    exact run_nil hexit

theorem Stuck.not_returns {events : Stream' ε} (h : L.Stuck events s) : ¬ L.Returns events s := by
  obtain ⟨k, s', hrun, hbody⟩ := h
  rintro ⟨n, r, hreturn⟩
  have hexit := exit_of_run _ hrun
  have hlong : L.run (events.take (k + n)) s = .inl s' := by
    rw [Stream'.take_add, run_append _ _ hrun]
    apply run_take_const hexit
    intro i _
    rw [Stream'.get_drop]
    exact hbody i
  rw [Nat.add_comm, Stream'.take_add, run_append_return _ _ hreturn] at hlong
  cases hlong

theorem Returns.of_step {events : Stream' ε} {k : ℕ} (hrun : L.run (events.take k) s = .inl s')
    (h : L.Returns (events.drop k) s') : L.Returns events s := by
  obtain ⟨n, r, hreturn⟩ := h
  refine ⟨k + n, r, ?_⟩
  rw [Stream'.take_add, run_append _ _ hrun]
  exact hreturn

theorem Stuck.of_step {events : Stream' ε} {k : ℕ} (hrun : L.run (events.take k) s = .inl s')
    (h : L.Stuck (events.drop k) s') : L.Stuck events s := by
  obtain ⟨n, t, hwait, hbody⟩ := h
  refine ⟨k + n, t, ?_, fun i => ?_⟩
  · rw [Stream'.take_add, run_append _ _ hrun]
    exact hwait
  · have hi := hbody i
    rwa [Stream'.get_drop, ← Nat.add_assoc] at hi

/-- A loop whose events move it on returns or gets stuck. -/
theorem returns_or_stuck {μ : σ → ℕ} (hμ : L.Advances μ) (s : σ) :
    ∀ events : Stream' ε, L.Returns events s ∨ L.Stuck events s := by
  induction hn : μ s using Nat.strong_induction_on generalizing s with
  | _ n ih =>
    intro events
    cases hexit : L.exit s with
    | some r => exact Or.inl ⟨0, r, run_of_exit hexit _⟩
    | none =>
      by_cases hall : ∀ i, L.body s (events.get i) = .inl s
      · refine Or.inr ⟨0, s, run_nil hexit, fun i => ?_⟩
        rw [Nat.zero_add]
        exact hall i
      · -- the first event that changes something
        classical
        have hex : ∃ i, L.body s (events.get i) ≠ .inl s := not_forall.mp hall
        have hfirst := Nat.find_spec hex
        have hmin := fun i (hi : i < Nat.find hex) => not_not.mp (Nat.find_min hex hi)
        generalize Nat.find hex = i at hfirst hmin
        have hwait := run_take_const hexit i hmin
        cases hbody : L.body s (events.get i) with
        | inr r =>
          refine Or.inl ⟨i + 1, r, ?_⟩
          rw [Stream'.take_succ', run_append _ _ hwait]
          exact run_cons_return hexit hbody []
        | inl s' =>
          have hchanged : s' ≠ s := fun heq => hfirst (heq ▸ hbody)
          have hless := (hμ s _ s' hexit hbody).resolve_left hchanged
          have hrun : L.run (events.take (i + 1)) s = L.run [] s' := by
            rw [Stream'.take_succ', run_append _ _ hwait, run_cons hexit hbody]
          cases hexit' : L.exit s' with
          | some r =>
            rw [run_of_exit hexit'] at hrun
            exact Or.inl ⟨i + 1, r, hrun⟩
          | none =>
            rw [run_nil hexit'] at hrun
            rcases ih (μ s') (hn ▸ hless) s' rfl (events.drop (i + 1)) with hrest | hrest
            · exact Or.inl (hrest.of_step hrun)
            · exact Or.inr (hrest.of_step hrun)

/-- **Termination**: a loop whose events move it on returns, unless it gets stuck. -/
theorem returns_iff {μ : σ → ℕ} (hμ : L.Advances μ) (events : Stream' ε) (s : σ) :
    L.Returns events s ↔ ¬ L.Stuck events s := by
  refine ⟨fun hreturns hstuck => hstuck.not_returns hreturns, fun h => ?_⟩
  exact (returns_or_stuck hμ s events).resolve_right h

end Loop

/-! ## Waiting for a total -/

variable {σ : Type u} {ε : Type v} {ρ : Type w}

/-- The loop waits until `remaining` is used up. An event ends it or brings an amount,
which may be nothing. -/
structure Counts (L : Loop σ ε ρ) (remaining : σ → ℤ) (amount : ε → Option ℕ) : Prop where
  /-- the loop is left when nothing remains -/
  exit_iff : ∀ s, L.exit s = none ↔ 0 < remaining s
  /-- an event that brings no amount ends the loop -/
  ends : ∀ s e, amount e = none → ∃ r, L.body s e = .inr r
  /-- an amount is taken off what remains -/
  takes : ∀ s e n, 0 < remaining s → amount e = some n → ∃ s', L.body s e = .inl s' ∧
    (n = 0 → s' = s) ∧ (remaining s ≤ n → remaining s' ≤ 0) ∧
    (n < remaining s → remaining s' = remaining s - n)

/-- What the events bring, all told. -/
def total (amount : ε → Option ℕ) : List ε → ℕ
  | [] => 0
  | e :: rest => (amount e).getD 0 + total amount rest

theorem total_cons {amount : ε → Option ℕ} {e : ε} {n : ℕ} (h : amount e = some n)
    (rest : List ε) : total amount (e :: rest) = n + total amount rest := by
  rw [total, h, Option.getD_some]

/-- Less than `len` is brought, by events none of which ends the loop, and after that
nothing more. -/
def DriesUp (amount : ε → Option ℕ) (len : ℤ) (events : Stream' ε) : Prop :=
  ∃ k, (∀ e ∈ events.take k, amount e ≠ none) ∧ total amount (events.take k) < len ∧
    ∀ i, amount (events.get (k + i)) = some 0

namespace Counts

open Loop

variable {L : Loop σ ε ρ} {remaining : σ → ℤ} {amount : ε → Option ℕ} {s s' : σ} {e : ε}

theorem amount_of_body (h : Counts L remaining amount) (hbody : L.body s e = .inl s') :
    ∃ n, amount e = some n := by
  cases hamount : amount e with
  | some n => exact ⟨n, rfl⟩
  | none =>
    obtain ⟨r, hr⟩ := h.ends s e hamount
    rw [hr] at hbody
    cases hbody

theorem advances (h : Counts L remaining amount) :
    L.Advances fun s => (remaining s).toNat := by
  intro s e s' hexit hbody
  have hpos := (h.exit_iff s).mp hexit
  obtain ⟨n, hamount⟩ := h.amount_of_body hbody
  obtain ⟨t, ht, hnothing, hlast, hmore⟩ := h.takes s e n hpos hamount
  obtain rfl : t = s' := Sum.inl.inj (ht.symm.trans hbody)
  rcases Nat.eq_zero_or_pos n with hzero | hn
  · exact Or.inl (hnothing hzero)
  · right
    rcases Int.lt_or_le n (remaining s) with hless | hle
    · have heq := hmore hless
      simp only
      omega
    · have heq := hlast hle
      simp only
      omega

/-- The loop still waits. -/
theorem run_inl (h : Counts L remaining amount) (events : List ε) :
    ∀ {s s'}, L.run events s = .inl s' → (∀ e ∈ events, amount e ≠ none) ∧
      remaining s' = remaining s - total amount events ∧ 0 < remaining s' := by
  induction events with
  | nil =>
    intro s s' hrun
    obtain ⟨hexit, rfl⟩ := run_nil_inl hrun
    exact ⟨fun e he => absurd he List.not_mem_nil, (Int.sub_zero _).symm, (h.exit_iff s').mp hexit⟩
  | cons e rest ih =>
    intro s s' hrun
    obtain ⟨hexit, t, hbody, hrest⟩ := run_cons_inl hrun
    obtain ⟨hamounts, hremaining, hpos⟩ := ih hrest
    obtain ⟨n, hamount⟩ := h.amount_of_body hbody
    obtain ⟨t', ht', -, hlast, hmore⟩ := h.takes s e n ((h.exit_iff s).mp hexit) hamount
    obtain rfl : t' = t := Sum.inl.inj (ht'.symm.trans hbody)
    have hless : n < remaining s := by
      by_contra hle
      have hdone := hlast (Int.not_lt.mp hle)
      omega
    refine ⟨List.forall_mem_cons.mpr ⟨by rw [hamount]; exact Option.some_ne_none n, hamounts⟩,
      ?_, hpos⟩
    rw [hremaining, hmore hless, total_cons hamount]
    omega

/-- The loop waits while less than what remains has been brought. -/
theorem exists_run_inl (h : Counts L remaining amount) (events : List ε) :
    ∀ {s}, (∀ e ∈ events, amount e ≠ none) → total amount events < remaining s →
      ∃ s', L.run events s = .inl s' := by
  induction events with
  | nil =>
    intro s _ htotal
    exact ⟨s, run_nil ((h.exit_iff s).mpr htotal)⟩
  | cons e rest ih =>
    intro s hamounts htotal
    obtain ⟨hfirst, hrest⟩ := List.forall_mem_cons.mp hamounts
    obtain ⟨n, hamount⟩ := Option.ne_none_iff_exists'.mp hfirst
    rw [total_cons hamount] at htotal
    have hpos : 0 < remaining s := by omega
    obtain ⟨t, ht, -, -, hmore⟩ := h.takes s e n hpos hamount
    obtain ⟨s', hs'⟩ := ih hrest (s := t) (by omega)
    exact ⟨s', by rw [run_cons ((h.exit_iff s).mpr hpos) ht, hs']⟩

/-- Getting stuck is running out of events that bring something. -/
theorem stuck_iff (h : Counts L remaining amount) (events : Stream' ε) (s : σ) :
    L.Stuck events s ↔ DriesUp amount (remaining s) events := by
  refine ⟨?_, ?_⟩
  · rintro ⟨k, s', hrun, hbody⟩
    obtain ⟨hamounts, hremaining, hpos⟩ := h.run_inl _ hrun
    refine ⟨k, hamounts, by omega, fun i => ?_⟩
    obtain ⟨n, hamount⟩ := h.amount_of_body (hbody i)
    obtain ⟨t, ht, -, hlast, hmore⟩ := h.takes s' _ n hpos hamount
    obtain rfl : t = s' := Sum.inl.inj (ht.symm.trans (hbody i))
    rw [hamount]
    rcases Int.lt_or_le n (remaining t) with hless | hle
    · have heq := hmore hless
      exact congrArg some (by omega)
    · have heq := hlast hle
      omega
  · rintro ⟨k, hamounts, htotal, hnothing⟩
    obtain ⟨s', hrun⟩ := h.exists_run_inl _ hamounts htotal
    obtain ⟨-, -, hpos⟩ := h.run_inl _ hrun
    refine ⟨k, s', hrun, fun i => ?_⟩
    obtain ⟨t, ht, hsame, -, -⟩ := h.takes s' _ 0 hpos (hnothing i)
    rw [ht, hsame rfl]

/-- **Waiting for a total** ends, unless the events dry up before it. -/
theorem returns_iff (h : Counts L remaining amount) (events : Stream' ε) (s : σ) :
    L.Returns events s ↔ ¬ DriesUp amount (remaining s) events := by
  rw [Loop.returns_iff h.advances, h.stuck_iff]

end Counts

end Awaiting
