import Mathlib.Data.List.Basic
import Mathlib.Data.List.Pairwise
import Mathlib.Data.Nat.Basic

/-!
# Greedy firing under a refractory rule

A detector looks at the indices `0, 1, 2, …` in turn. An index may qualify; a
detector that fired before must also have recovered. It fires at the first index
where both hold, and so on: `greedy`.

The rule is any relation `ready i j` ("fired at `i`, may fire at `j`") that goes
forward and that waiting longer never breaks. Under such a rule firing as early
as possible is optimal (`greedy_maximum`): the number of fires is the length of
the longest train of qualifying, pairwise recovered indices. Two detectors with
different rules and different tests fire equally often exactly when their
longest trains are equally long (`count_eq_iff`), as they are where the tests
agree, and the rules on what passes them (`count_congr`).
-/

/-- A refractory rule. -/
structure Refractory where
  /-- having fired at the first index, the detector may fire at the second -/
  ready : ℕ → ℕ → Prop
  /-- the rule can be decided -/
  decReady : DecidableRel ready
  /-- a detector never fires twice at one index, nor earlier than it last did -/
  lt : ∀ {i j : ℕ}, ready i j → i < j
  /-- an earlier last fire and a later index keep the detector recovered -/
  mono : ∀ {i i' j j' : ℕ}, ready i j → i' ≤ i → j ≤ j' → ready i' j'

namespace Refractory

instance (R : Refractory) : DecidableRel R.ready := R.decReady

variable (R : Refractory) (q : ℕ → Prop)

/-- A train of fires below `n`, newest first: every index qualifies, and each is
recovered from all the earlier ones. -/
def Train (n : ℕ) (l : List ℕ) : Prop :=
  l.Pairwise (fun j i => R.ready i j) ∧ ∀ i ∈ l, i < n ∧ q i

/-- The greedy detector after the indices below `n`: its last fire and the
number of its fires. -/
def greedy [DecidablePred q] : ℕ → Option ℕ × ℕ
  | 0 => (none, 0)
  | n + 1 =>
    if q n ∧ ∀ i ∈ (greedy n).1, R.ready i n then (some n, (greedy n).2 + 1) else greedy n

variable {R q}

theorem Train.weaken {n : ℕ} {l : List ℕ} (h : R.Train q n l) : R.Train q (n + 1) l :=
  ⟨h.1, fun i hi => ⟨Nat.lt_succ_of_lt (h.2 i hi).1, (h.2 i hi).2⟩⟩

theorem Train.sublist {n : ℕ} {l l' : List ℕ} (h : R.Train q n l) (hl : l'.Sublist l) :
    R.Train q n l' :=
  ⟨h.1.sublist hl, fun i hi => h.2 i (hl.subset hi)⟩

/-- All but the newest index of a train below `n + 1` are below `n`. -/
theorem Train.tail {n i : ℕ} {l : List ℕ} (h : R.Train q (n + 1) (i :: l)) : R.Train q n l := by
  obtain ⟨hpair, hmem⟩ := h
  obtain ⟨hhead, htail⟩ := List.pairwise_cons.mp hpair
  refine ⟨htail, fun j hj => ⟨?_, (hmem j (List.mem_cons_of_mem i hj)).2⟩⟩
  have hji : j < i := R.lt (hhead j hj)
  have hin : i < n + 1 := (hmem i List.mem_cons_self).1
  omega

/-- A train whose newest index is below `n` is a train below `n`. -/
theorem Train.strengthen {n i : ℕ} {l : List ℕ} (h : R.Train q (n + 1) (i :: l)) (hi : i < n) :
    R.Train q n (i :: l) := by
  refine ⟨h.1, fun j hj => ⟨?_, (h.2 j hj).2⟩⟩
  rcases List.mem_cons.mp hj with rfl | hj
  · exact hi
  · exact (h.tail.2 j hj).1

/-- Rules that agree on what qualifies allow the same trains. -/
theorem train_congr {R' : Refractory} {q' : ℕ → Prop} {n : ℕ} (hq : ∀ i < n, q i ↔ q' i)
    (hready : ∀ i j, i < n → j < n → q i → q j → (R.ready i j ↔ R'.ready i j)) (l : List ℕ) :
    R.Train q n l ↔ R'.Train q' n l := by
  refine ⟨?_, ?_⟩
  · rintro ⟨hpair, hmem⟩
    refine ⟨hpair.imp_of_mem fun {j i} hj hi h => ?_, fun i hi => ?_⟩
    · exact (hready i j (hmem i hi).1 (hmem j hj).1 (hmem i hi).2 (hmem j hj).2).mp h
    · exact ⟨(hmem i hi).1, (hq i (hmem i hi).1).mp (hmem i hi).2⟩
  · rintro ⟨hpair, hmem⟩
    have hmem' : ∀ i ∈ l, i < n ∧ q i := fun i hi =>
      ⟨(hmem i hi).1, (hq i (hmem i hi).1).mpr (hmem i hi).2⟩
    refine ⟨hpair.imp_of_mem fun {j i} hj hi h => ?_, hmem'⟩
    exact (hready i j (hmem' i hi).1 (hmem' j hj).1 (hmem' i hi).2 (hmem' j hj).2).mpr h

variable [DecidablePred q]

/-- The greedy fires form a train that ends in the last fire. -/
theorem exists_greedy_train (n : ℕ) :
    ∃ l, R.Train q n l ∧ l.length = (R.greedy q n).2 ∧ l.head? = (R.greedy q n).1 := by
  induction n with
  | zero => exact ⟨[], ⟨List.Pairwise.nil, by simp⟩, rfl, rfl⟩
  | succ n ih =>
    obtain ⟨l, hl, hlen, hhead⟩ := ih
    rw [greedy]
    split
    · rename_i hfire
      refine ⟨n :: l, ⟨List.pairwise_cons.mpr ⟨fun i hi => ?_, hl.1⟩, fun i hi => ?_⟩, ?_, rfl⟩
      · -- every earlier fire is at or before the last one
        rcases l with _ | ⟨last, l⟩
        · simp at hi
        · have hready : R.ready last n := hfire.2 last (by rw [← hhead]; rfl)
          rcases List.mem_cons.mp hi with rfl | hi
          · exact hready
          · exact R.mono hready (Nat.le_of_lt (R.lt ((List.pairwise_cons.mp hl.1).1 i hi))) le_rfl
      · rcases List.mem_cons.mp hi with rfl | hi
        · exact ⟨Nat.lt_succ_self i, hfire.1⟩
        · exact hl.weaken.2 i hi
      · rw [List.length_cons, hlen]
    · exact ⟨l, hl.weaken, hlen, hhead⟩

/-- No train is longer than the greedy one, and one that is as long ends no
earlier. -/
theorem train_le_greedy (n : ℕ) : ∀ l, R.Train q n l → l.length ≤ (R.greedy q n).2 ∧
    (l.length = (R.greedy q n).2 → ∀ i ∈ l.head?, ∀ last ∈ (R.greedy q n).1, last ≤ i) := by
  induction n with
  | zero =>
    rintro (_ | ⟨i, l⟩) hl
    · exact ⟨le_rfl, by simp⟩
    · exact absurd (hl.2 i List.mem_cons_self).1 (Nat.not_lt_zero i)
  | succ n ih =>
    rintro (_ | ⟨i, l⟩) hl
    · exact ⟨Nat.zero_le _, by simp⟩
    obtain ⟨hin, hqi⟩ := hl.2 i List.mem_cons_self
    rw [greedy]
    by_cases hi : i < n
    · -- the train lies below `n`: compare with the greedy detector one index ago
      obtain ⟨hle, hlast⟩ := ih _ (hl.strengthen hi)
      split
      · exact ⟨Nat.le_succ_of_le hle, fun heq => absurd heq (by omega)⟩
      · exact ⟨hle, hlast⟩
    · -- the train fires at `n`: drop that fire and compare
      obtain rfl : i = n := by omega
      obtain ⟨hle, hlast⟩ := ih l hl.tail
      split
      · refine ⟨Nat.succ_le_succ hle, fun _ => ?_⟩
        simp
      · rename_i hquiet
        have hlt : l.length ≠ (R.greedy q i).2 := by
          intro heq
          refine hquiet ⟨hqi, fun last hmem => ?_⟩
          obtain ⟨g, -, hglen, hghead⟩ := exists_greedy_train (R := R) (q := q) i
          rcases l with _ | ⟨j, l⟩
          · -- the greedy detector has fired, so the empty train is not as long
            rcases g with _ | ⟨_, g⟩
            · rw [← hghead] at hmem
              simp at hmem
            · simp only [List.length_nil, ← hglen, List.length_cons] at heq
              omega
          · have hready : R.ready j i :=
              (List.pairwise_cons.mp hl.1).1 j List.mem_cons_self
            exact R.mono hready (hlast heq j rfl last hmem) le_rfl
        refine ⟨?_, fun _ j hj last hmem => ?_⟩
        · rw [List.length_cons]
          omega
        · obtain rfl : i = j := by simpa using hj
          obtain ⟨g, hg, -, hghead⟩ := exists_greedy_train (R := R) (q := q) i
          rw [← hghead] at hmem
          exact Nat.le_of_lt (hg.2 last (List.mem_of_mem_head? hmem)).1

/-- **Greedy firing is optimal**: its fires form a train, and no train is
longer. -/
theorem greedy_maximum (n : ℕ) :
    (∃ l, R.Train q n l ∧ l.length = (R.greedy q n).2) ∧
      ∀ l, R.Train q n l → l.length ≤ (R.greedy q n).2 := by
  obtain ⟨l, hl, hlen, -⟩ := exists_greedy_train (R := R) (q := q) n
  exact ⟨⟨l, hl, hlen⟩, fun l' hl' => (train_le_greedy n l' hl').1⟩

/-- There are trains of every length up to the greedy count, and no others. -/
theorem exists_train_iff (n k : ℕ) :
    (∃ l, R.Train q n l ∧ l.length = k) ↔ k ≤ (R.greedy q n).2 := by
  obtain ⟨⟨l, hl, hlen⟩, hmax⟩ := greedy_maximum (R := R) (q := q) n
  refine ⟨?_, ?_⟩
  · rintro ⟨l', hl', rfl⟩
    exact hmax l' hl'
  · intro hk
    exact ⟨l.take k, hl.sublist (List.take_sublist k l), by rw [List.length_take]; omega⟩

/-- Two greedy detectors fire equally often exactly when they allow trains of
the same lengths. -/
theorem count_eq_iff {R' : Refractory} {q' : ℕ → Prop} [DecidablePred q'] (n : ℕ) :
    (R.greedy q n).2 = (R'.greedy q' n).2 ↔
      ∀ k, (∃ l, R.Train q n l ∧ l.length = k) ↔ ∃ l, R'.Train q' n l ∧ l.length = k := by
  simp only [exists_train_iff]
  refine ⟨?_, ?_⟩
  · intro h k
    rw [h]
  · intro h
    exact le_antisymm ((h _).mp le_rfl) ((h _).mpr le_rfl)

/-- Rules that agree on what qualifies fire equally often. -/
theorem count_congr {R' : Refractory} {q' : ℕ → Prop} [DecidablePred q'] {n : ℕ}
    (hq : ∀ i < n, q i ↔ q' i)
    (hready : ∀ i j, i < n → j < n → q i → q j → (R.ready i j ↔ R'.ready i j)) :
    (R.greedy q n).2 = (R'.greedy q' n).2 := by
  refine (count_eq_iff n).mpr fun k => exists_congr fun l => ?_
  rw [train_congr hq hready]

/-- A detector fires exactly when some index qualifies. -/
theorem one_le_count_iff (n : ℕ) : 1 ≤ (R.greedy q n).2 ↔ ∃ i < n, q i := by
  rw [← exists_train_iff]
  refine ⟨?_, ?_⟩
  · rintro ⟨l, hl, hlen⟩
    obtain ⟨i, rfl⟩ := List.length_eq_one_iff.mp hlen
    exact ⟨i, hl.2 i (List.mem_singleton.mpr rfl)⟩
  · rintro ⟨i, hi, hqi⟩
    refine ⟨[i], ⟨List.pairwise_singleton _ _, ?_⟩, rfl⟩
    rintro j hj
    rw [List.mem_singleton.mp hj]
    exact ⟨hi, hqi⟩

/-- It fires twice exactly when some two recovered indices qualify. -/
theorem two_le_count_iff (n : ℕ) :
    2 ≤ (R.greedy q n).2 ↔ ∃ i < n, ∃ j < n, q i ∧ q j ∧ R.ready i j := by
  rw [← exists_train_iff]
  refine ⟨?_, ?_⟩
  · rintro ⟨l, hl, hlen⟩
    obtain ⟨j, i, rfl⟩ := List.length_eq_two.mp hlen
    obtain ⟨hi, hqi⟩ := hl.2 i (by simp)
    obtain ⟨hj, hqj⟩ := hl.2 j List.mem_cons_self
    have hready : R.ready i j := List.rel_of_pairwise_cons hl.1 (List.mem_singleton.mpr rfl)
    exact ⟨i, hi, j, hj, hqi, hqj, hready⟩
  · rintro ⟨i, hi, j, hj, hqi, hqj, hready⟩
    have hpair : [j, i].Pairwise fun j i => R.ready i j := List.pairwise_pair.mpr hready
    refine ⟨[j, i], ⟨hpair, ?_⟩, rfl⟩
    intro k hk
    rw [List.mem_cons, List.mem_singleton] at hk
    rcases hk with rfl | rfl
    · exact ⟨hj, hqj⟩
    · exact ⟨hi, hqi⟩

end Refractory
