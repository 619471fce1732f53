import Mathlib.Data.List.Basic
import Mathlib.Data.List.DropRight
import Mathlib.Data.List.Perm.Basic
import PipecatVoice.Lib.History

/-!
# A bounded queue that drops its oldest value

The queue holds at most `cap` values; a push that finds it full loses the oldest
one. What left it is kept apart, by the way it left.

`Ordered` says what that comes to for everything pushed: nothing is duplicated
or made up, what was popped and what is queued are in push order, and the queue
is the end of what was pushed since the last pop.
-/

/-- A queue, oldest value first, with what left it. -/
structure BoundedQueue (α : Type) where
  queue : List α
  /-- taken out at the front, in order -/
  popped : List α
  /-- made way for a new value, in order -/
  lost : List α

namespace BoundedQueue

variable {α : Type} {cap : ℕ} {q : BoundedQueue α} {pushed : List α}

def empty : BoundedQueue α := ⟨[], [], []⟩

/-- Append a value; the oldest of a full queue is lost. -/
def push (cap : ℕ) (q : BoundedQueue α) (a : α) : BoundedQueue α :=
  if q.queue.length < cap then { q with queue := q.queue ++ [a] }
  else { q with queue := q.queue.tail ++ [a], lost := q.lost ++ q.queue.take 1 }

/-- Take the oldest `k` values out. -/
def pop (k : ℕ) (q : BoundedQueue α) : BoundedQueue α :=
  { q with queue := q.queue.drop k, popped := q.popped ++ q.queue.take k }

/-- The queue and everything pushed so far. -/
structure Ordered (cap : ℕ) (pushed : List α) (q : BoundedQueue α) : Prop where
  account : pushed.Perm (q.popped ++ q.lost ++ q.queue)
  /-- `passed` ends with the last value popped, and the queue is the end of the rest -/
  split : ∃ passed rest, pushed = passed ++ rest ∧ q.popped.Sublist passed ∧
    q.popped.getLast? = passed.getLast? ∧ q.queue = rest.rtake cap

theorem Ordered.empty : Ordered cap [] (BoundedQueue.empty : BoundedQueue α) :=
  ⟨List.Perm.refl _, [], [], rfl, List.Sublist.refl _, rfl, (List.rtake_nil cap).symm⟩

theorem Ordered.length_le (h : Ordered cap pushed q) : q.queue.length ≤ cap := by
  obtain ⟨passed, rest, -, -, -, hqueue⟩ := h.split
  rw [hqueue, List.rtake, List.length_drop]
  omega

/-- In push order: what was popped, then what is queued. -/
theorem Ordered.sublist (h : Ordered cap pushed q) : (q.popped ++ q.queue).Sublist pushed := by
  obtain ⟨passed, rest, hsplit, hpopped, -, hqueue⟩ := h.split
  rw [hsplit, hqueue]
  exact hpopped.append (List.drop_sublist _ _)

theorem Ordered.push (h : Ordered cap pushed q) (hcap : 0 < cap) (a : α) :
    Ordered cap (pushed ++ [a]) (q.push cap a) := by
  obtain ⟨passed, rest, hsplit, hpopped, hlast, hqueue⟩ := h.split
  have haccount := h.account.append_right [a]
  have hnext := History.rtake_concat hcap rest a
  rw [← hqueue] at hnext
  rw [BoundedQueue.push]
  split
  · rename_i hfew
    refine ⟨by rwa [List.append_assoc] at haccount, passed, rest ++ [a], ?_, hpopped, hlast, ?_⟩
    · rw [hsplit, List.append_assoc]
    · rw [hnext, if_pos hfew]
  · rename_i hfull
    refine ⟨?_, passed, rest ++ [a], ?_, hpopped, hlast, ?_⟩
    · show (pushed ++ [a]).Perm (q.popped ++ (q.lost ++ q.queue.take 1) ++ (q.queue.tail ++ [a]))
      rw [← List.append_assoc q.popped, List.append_assoc (q.popped ++ q.lost),
        ← List.append_assoc (q.queue.take 1), ← List.drop_one, List.take_append_drop,
        ← List.append_assoc]
      exact haccount
    · rw [hsplit, List.append_assoc]
    · rw [hnext, if_neg hfull]

/-- What leaves the queue is counted with the popped values. -/
theorem perm_pop (popped lost queue : List α) (k : ℕ) :
    (popped ++ lost ++ queue).Perm (popped ++ queue.take k ++ lost ++ queue.drop k) := by
  have hswap : (lost ++ queue.take k).Perm (queue.take k ++ lost) := List.perm_append_comm
  have hfront : popped ++ lost ++ queue = popped ++ (lost ++ queue.take k) ++ queue.drop k := by
    rw [List.append_assoc, List.append_assoc, List.append_assoc, List.take_append_drop]
  rw [hfront, List.append_assoc popped (queue.take k) lost]
  exact (hswap.append_left popped).append_right _

theorem Ordered.pop (h : Ordered cap pushed q) (k : ℕ) : Ordered cap pushed (q.pop k) := by
  obtain ⟨passed, rest, hsplit, hpopped, hlast, hqueue⟩ := h.split
  refine ⟨h.account.trans (perm_pop _ _ _ k), ?_⟩
  by_cases hnone : q.queue.take k = []
  · -- nothing is taken out
    have hdrop : q.queue.drop k = q.queue := by
      conv_rhs => rw [← List.take_append_drop k q.queue, hnone, List.nil_append]
    exact ⟨passed, rest, hsplit, by rw [BoundedQueue.pop, hnone, List.append_nil]; exact hpopped,
      by rw [BoundedQueue.pop, hnone, List.append_nil]; exact hlast, hdrop.trans hqueue⟩
  · have hlen := h.length_le
    refine ⟨passed ++ rest.rdrop cap ++ q.queue.take k, q.queue.drop k, ?_, ?_, ?_, ?_⟩
    · rw [List.append_assoc, List.take_append_drop, hqueue, List.append_assoc, List.rdrop,
        List.rtake, List.take_append_drop]
      exact hsplit
    · exact (hpopped.trans (List.sublist_append_left _ _)).append (List.Sublist.refl _)
    · show (q.popped ++ q.queue.take k).getLast? = _
      rw [List.getLast?_append_of_ne_nil _ hnone, List.getLast?_append_of_ne_nil _ hnone]
    · show q.queue.drop k = _
      rw [List.rtake, List.length_drop, Nat.sub_eq_zero_of_le (by omega), List.drop_zero]

end BoundedQueue
