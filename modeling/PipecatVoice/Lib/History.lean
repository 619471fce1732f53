import Mathlib.Data.List.DropRight
import Mathlib.Data.List.Chain

/-!
# Rules on what came before

A history is the list of what a system was given and what it answered, oldest
entry first. A trace specification is a rule `R past e`: which answers the entry
`e` may carry, given the entries before it.

* `Obeys` — every entry obeys the rule on its own past;
* `since` — the entries after the last one that `p` holds of;
* `last?` — that last one;
* `rtake_concat` — how the last `n` entries change with one more.

A machine that computes its answers from the past alone is compared with
`answers`. One that keeps a summary of its history (a counter, a window, the
time of the last event) is proved to obey a rule step by step, with `obeys_concat`.
-/

namespace History

universe u v

variable {η : Type u} {R : List η → η → Prop} {p : η → Bool} {h rest : List η} {e : η}

/-- Every entry obeys the rule. -/
def Obeys (R : List η → η → Prop) (h : List η) : Prop :=
  ∀ past e rest, h = past ++ e :: rest → R past e

theorem obeys_nil : Obeys R [] := by
  intro past e rest hsplit
  exact absurd hsplit.symm (by simp)

/-- **A history grows lawfully** by an entry that obeys the rule. -/
theorem obeys_concat : Obeys R (h ++ [e]) ↔ Obeys R h ∧ R h e := by
  refine ⟨fun hobeys => ⟨?_, hobeys h e [] rfl⟩, ?_⟩
  · rintro past a rest rfl
    exact hobeys past a (rest ++ [e]) (by simp)
  · rintro ⟨hobeys, hlast⟩ past a rest hsplit
    rcases List.eq_nil_or_concat rest with rfl | ⟨rest, b, rfl⟩
    · obtain ⟨rfl, hhead⟩ := List.append_inj' hsplit rfl
      obtain rfl : e = a := by simpa using hhead
      exact hlast
    · rw [List.concat_eq_append, ← List.cons_append, ← List.append_assoc] at hsplit
      obtain ⟨rfl, -⟩ := List.append_inj' hsplit rfl
      exact hobeys past a rest rfl

theorem Obeys.imp {R' : List η → η → Prop} (himp : ∀ past e, R past e → R' past e)
    (hobeys : Obeys R h) : Obeys R' h :=
  fun past e rest hsplit => himp past e (hobeys past e rest hsplit)

/-! ## Since the last one -/

/-- The entries after the last one that `p` holds of. -/
def since (p : η → Bool) (h : List η) : List η := h.rtakeWhile (!p ·)

@[simp] theorem since_nil : since p [] = [] := List.rtakeWhile_nil _

theorem since_concat_pos (hp : p e = true) : since p (h ++ [e]) = [] :=
  List.rtakeWhile_concat_neg _ _ _ (by simp [hp])

theorem since_concat_neg (hp : p e = false) : since p (h ++ [e]) = since p h ++ [e] :=
  List.rtakeWhile_concat_pos _ _ _ (by simp [hp])

/-- No more than what followed one such entry. -/
theorem length_since_le (hp : p e = true) :
    ∀ rest : List η, (since p (h ++ e :: rest)).length ≤ rest.length := by
  intro rest
  induction rest using List.reverseRecOn with
  | nil => rw [since_concat_pos hp]
  | append_singleton rest a ih =>
    rw [← List.cons_append, ← List.append_assoc]
    cases ha : p a with
    | true =>
      rw [since_concat_pos ha]
      exact Nat.zero_le _
    | false =>
      rw [since_concat_neg ha, List.length_append, List.length_append]
      exact Nat.add_le_add_right ih _

/-- The last entry that `p` holds of. -/
def last? (p : η → Bool) (h : List η) : Option η := (h.filter p).getLast?

theorem last?_concat_pos (hp : p e = true) : last? p (h ++ [e]) = some e := by
  simp [last?, List.filter_append, hp]

theorem last?_append_neg (hrest : ∀ e ∈ rest, p e = false) :
    last? p (h ++ rest) = last? p h := by
  have hnone : rest.filter p = [] := by
    rw [List.filter_eq_nil_iff]
    intro e he
    rw [hrest e he]
    exact Bool.false_ne_true
  rw [last?, List.filter_append, hnone, List.append_nil, last?]

theorem last?_concat_neg (hp : p e = false) : last? p (h ++ [e]) = last? p h :=
  last?_append_neg (by simpa using hp)

/-- **A gap to the last one is a gap to all of them**, for a transitive gap. -/
theorem Obeys.pairwise {gap : η → η → Prop} [IsTrans η gap]
    (hobeys : Obeys (fun past e => p e = true → ∀ l ∈ last? p past, gap l e) h) :
    (h.filter p).Pairwise gap := by
  rw [← List.isChain_iff_pairwise]
  induction h using List.reverseRecOn with
  | nil => exact List.IsChain.nil
  | append_singleton h e ih =>
    obtain ⟨hbefore, hlast⟩ := obeys_concat.mp hobeys
    rw [List.filter_append, List.isChain_append]
    refine ⟨ih hbefore, ?_, ?_⟩
    · cases hp : p e with
      | true => simp [hp]
      | false => simp [hp]
    · intro l hl a ha
      cases hp : p e with
      | true =>
        obtain rfl : e = a := by simpa [hp] using ha
        exact hlast hp l hl
      | false => simp [hp] at ha

/-! ## The last few -/

/-- **The last `n` entries, one more entry on**: it comes last, and the first of
`n` makes way. -/
theorem rtake_concat {n : ℕ} (hn : 0 < n) (h : List η) (e : η) :
    (h ++ [e]).rtake n =
      (if (h.rtake n).length < n then h.rtake n else (h.rtake n).tail) ++ [e] := by
  obtain ⟨k, rfl⟩ : ∃ k, n = k + 1 := Nat.exists_eq_succ_of_ne_zero (Nat.pos_iff_ne_zero.mp hn)
  have hlen : (h.rtake (k + 1)).length = h.length - (h.length - (k + 1)) := by
    rw [List.rtake, List.length_drop]
  rw [List.rtake_concat_succ]
  congr 1
  split
  · rename_i hfew
    rw [List.rtake, List.rtake, Nat.sub_eq_zero_of_le (by omega), Nat.sub_eq_zero_of_le (by omega)]
  · rename_i hfull
    rw [List.rtake, List.rtake, ← List.drop_one, List.drop_drop]
    congr 1
    omega

/-! ## Answers computed from the past -/

variable {β : Type v} {f : List η → β}

/-- An answer for each entry, computed from the entries up to it. -/
def answers (f : List η → β) : List η → List η → List β
  | _, [] => []
  | past, e :: es => f (past ++ [e]) :: answers f (past ++ [e]) es

theorem answers_append (past es es' : List η) :
    answers f past (es ++ es') = answers f past es ++ answers f (past ++ es) es' := by
  induction es generalizing past with
  | nil => rw [List.nil_append, List.append_nil, answers, List.nil_append]
  | cons e es ih =>
    rw [List.cons_append, answers, ih, answers, List.cons_append, List.append_assoc,
      List.singleton_append]

theorem answers_eq_map (past es : List η) :
    answers f past es = (List.range es.length).map fun k => f (past ++ es.take (k + 1)) := by
  induction es generalizing past with
  | nil => rfl
  | cons e es ih =>
    rw [answers, ih, List.length_cons, List.range_succ_eq_map, List.map_cons, List.map_map]
    simp [Function.comp_def]

end History
