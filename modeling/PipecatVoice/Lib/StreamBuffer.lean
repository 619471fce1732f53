import Mathlib.Data.List.Basic

/-!
# Stream buffers

A bounded buffer between a writer that does not wait and a reader: a send takes what there
is room for, a receive what is there. Where the capacity, the sends and the receives are
whole in some unit, so is everything that passes.

* `sent`, `send` — a send takes the beginning of the data; a receive is `List.take`;
* `Whole` — nothing is split.
-/

namespace StreamBuffer

variable {α : Type*} {cap k n : ℕ} {b data : List α}

/-- How much a send takes. -/
def sent (cap : ℕ) (b data : List α) : ℕ := min data.length (cap - b.length)

/-- The buffer after a send. -/
def send (cap : ℕ) (b data : List α) : List α := b ++ data.take (sent cap b data)

/-- The buffer is not overfull, and nothing in it is split. -/
structure Whole (cap k : ℕ) (b : List α) : Prop where
  /-- it holds what it can hold -/
  le : b.length ≤ cap
  /-- in whole units -/
  dvd : k ∣ b.length

theorem whole_nil (cap k : ℕ) : Whole cap k ([] : List α) := ⟨Nat.zero_le _, Nat.dvd_zero k⟩

theorem sent_le (cap : ℕ) (b data : List α) : sent cap b data ≤ data.length := Nat.min_le_left _ _

theorem length_send (cap : ℕ) (b data : List α) :
    (send cap b data).length = b.length + sent cap b data := by
  rw [send, List.length_append, List.length_take, Nat.min_eq_left (sent_le cap b data)]

/-- **A send splits nothing**. -/
theorem Whole.dvd_sent (h : Whole cap k b) (hcap : k ∣ cap) (hdata : k ∣ data.length) :
    k ∣ sent cap b data := by
  rcases Nat.le_total data.length (cap - b.length) with hle | hle
  · rw [sent, Nat.min_eq_left hle]
    exact hdata
  · rw [sent, Nat.min_eq_right hle]
    exact Nat.dvd_sub hcap h.dvd

theorem Whole.send (h : Whole cap k b) (hcap : k ∣ cap) (hdata : k ∣ data.length) :
    Whole cap k (send cap b data) := by
  refine ⟨?_, ?_⟩
  · have hle := h.le
    rw [length_send, sent]
    omega
  · rw [length_send]
    exact Nat.dvd_add h.dvd (h.dvd_sent hcap hdata)

/-- **A receive splits nothing**. -/
theorem Whole.dvd_take (h : Whole cap k b) (hn : k ∣ n) : k ∣ (b.take n).length := by
  rw [List.length_take]
  rcases Nat.le_total n b.length with hle | hle
  · rw [Nat.min_eq_left hle]
    exact hn
  · rw [Nat.min_eq_right hle]
    exact h.dvd

theorem Whole.drop (h : Whole cap k b) (hn : k ∣ n) : Whole cap k (b.drop n) := by
  refine ⟨?_, ?_⟩
  · have hle := h.le
    rw [List.length_drop]
    omega
  · rw [List.length_drop]
    exact Nat.dvd_sub h.dvd hn

end StreamBuffer
