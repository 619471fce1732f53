import PipecatVoice.Lib.BoundedQueue
import PipecatVoice.Lib.RawRing
import PipecatVoice.Lib.Runs
import PipecatVoice.Session

/-!
# The uplink backlog

The ring of packets that `captureTask` keeps while a connection is being set up:
the lambdas `ring_push` and `ring_pop` over memory from `malloc`, and the frames of
a turn, each of which pushes a packet and may flush. Over any frames the ring is a
bounded queue (`backlog_queue`), no access leaves the array or reads a packet that
was not written, and flushing empties the backlog by two packets a frame.

`captureStep` has the same ring without the memory; its sends are the flush of
this module (`captureStep_burst`).
-/

namespace PipecatVoice

theorem ringPkts_pos : 0 < ringPkts := Nat.zero_lt_succ 399

/-! ## The frames of a turn -/

/-- One frame within a turn. What a packet is does not matter to the ring. -/
structure TurnFrame (α : Type) where
  /-- the packet encoded from it -/
  packet : α
  /-- the session is connected and its peer is there -/
  flush : Bool

variable {α : Type}

/-- `while (budget-- > 0 && ring_pop(pkt)) sendAudio(pkt)`: what is sent, in order. -/
def sendBurst? : ℕ → RawRing α ringPkts → Option (RawRing α ringPkts × List α)
  | 0, r => some (r, [])
  | budget + 1, r => do
    match ← r.pop? with
    | none => some (r, [])
    | some (pkt, r) =>
      let (r, sent) ← sendBurst? budget r
      some (r, pkt :: sent)

/-- `(r_count > 1) ? 3 : 1` -/
def flushBudget (count : ℕ) : ℕ := if count > 1 then 3 else 1

/-- A frame: `ring_push`, then the flush. -/
def turnFrame? (r : RawRing α ringPkts) (f : TurnFrame α) :
    Option (RawRing α ringPkts × List α) := do
  let r ← r.push? f.packet
  if f.flush then sendBurst? (flushBudget r.count) r else some (r, [])

/-- Frames, with what each of them sends. -/
def turnFrames? (r : RawRing α ringPkts) :
    List (TurnFrame α) → Option (RawRing α ringPkts × List (List α))
  | [] => some (r, [])
  | f :: fs => do
    let (r, sent) ← turnFrame? r f
    let (r, rest) ← turnFrames? r fs
    some (r, sent :: rest)

/-! ## The queue -/

/-- A frame, for the bounded queue. -/
def queueFrame (q : BoundedQueue α) (f : TurnFrame α) : BoundedQueue α :=
  if f.flush then
    (q.push ringPkts f.packet).pop (flushBudget (q.push ringPkts f.packet).queue.length)
  else q.push ringPkts f.packet

theorem queueFrame_ordered {pushed : List α} {q : BoundedQueue α}
    (h : q.Ordered ringPkts pushed) (f : TurnFrame α) :
    (queueFrame q f).Ordered ringPkts (pushed ++ [f.packet]) := by
  have hpush := h.push (ringPkts_pos) f.packet
  rw [queueFrame]
  split
  · exact hpush.pop _
  · exact hpush

/-- A burst takes from the front of the queue. -/
theorem sendBurst?_eq (budget : ℕ) : ∀ {r : RawRing α ringPkts} {l : List α}, r.Queues l →
    ∃ r', sendBurst? budget r = some (r', l.take budget) ∧ r'.Queues (l.drop budget) := by
  induction budget with
  | zero => exact fun h => ⟨_, rfl, h⟩
  | succ budget ih =>
    intro r l h
    cases l with
    | nil =>
      refine ⟨r, ?_, h⟩
      rw [sendBurst?, h.pop_nil]
      rfl
    | cons pkt l =>
      obtain ⟨r₁, hpop, h₁⟩ := h.pop_cons
      obtain ⟨r', hburst, h'⟩ := ih h₁
      refine ⟨r', ?_, h'⟩
      rw [sendBurst?, hpop]
      simp only [Option.bind_eq_bind, Option.bind_some, hburst, List.take_succ_cons]

theorem flushBudget_pos (count : ℕ) : 1 ≤ flushBudget count ∧ flushBudget count ≤ 3 := by
  rw [flushBudget]
  split <;> omega

theorem push_queue (q : BoundedQueue α) (a : α) : (q.push ringPkts a).queue =
    (if q.queue.length < ringPkts then q.queue else q.queue.tail) ++ [a] := by
  rw [BoundedQueue.push]
  split <;> rfl

theorem push_popped (q : BoundedQueue α) (a : α) : (q.push ringPkts a).popped = q.popped := by
  rw [BoundedQueue.push]
  split <;> rfl

/-- **A frame of the ring is a frame of the queue.** -/
theorem turnFrame?_eq {r : RawRing α ringPkts} {q : BoundedQueue α} (h : r.Queues q.queue)
    (f : TurnFrame α) :
    ∃ r' sent, turnFrame? r f = some (r', sent) ∧ r'.Queues (queueFrame q f).queue ∧
      (queueFrame q f).popped = q.popped ++ sent ∧
      (f.flush = true → 1 ≤ sent.length ∧ sent.length ≤ 3) := by
  obtain ⟨r₁, hpush, h₁⟩ := h.push f.packet
  rw [← push_queue] at h₁
  rw [turnFrame?, hpush, queueFrame]
  simp only [Option.bind_eq_bind, Option.bind_some]
  by_cases hflush : f.flush = true
  · obtain ⟨r', hburst, h'⟩ := sendBurst?_eq (flushBudget r₁.count) h₁
    rw [h₁.count_eq] at hburst h'
    rw [if_pos hflush, if_pos hflush, h₁.count_eq, hburst]
    refine ⟨r', _, rfl, h', by rw [BoundedQueue.pop, push_popped], fun _ => ?_⟩
    obtain ⟨hpos, hle⟩ := flushBudget_pos (q.push ringPkts f.packet).queue.length
    have hone : 1 ≤ (q.push ringPkts f.packet).queue.length := by
      rw [push_queue, List.length_append, List.length_singleton]
      omega
    rw [List.length_take]
    omega
  · rw [if_neg hflush, if_neg hflush]
    exact ⟨r₁, [], rfl, h₁, by rw [push_popped, List.append_nil], fun h => absurd h hflush⟩

/-- The queue after frames. -/
def queueFrames (q : BoundedQueue α) (fs : List (TurnFrame α)) : BoundedQueue α :=
  Runs.run queueFrame q fs

/-- **Any frames.** -/
theorem turnFrames?_eq (fs : List (TurnFrame α)) :
    ∀ {r : RawRing α ringPkts} {q : BoundedQueue α}, r.Queues q.queue →
      ∃ r' sent, turnFrames? r fs = some (r', sent) ∧ r'.Queues (queueFrames q fs).queue ∧
        (queueFrames q fs).popped = q.popped ++ sent.flatten ∧
        ((∀ f ∈ fs, f.flush = true) → ∀ s ∈ sent, 1 ≤ s.length ∧ s.length ≤ 3) := by
  induction fs with
  | nil =>
    intro r q h
    exact ⟨r, [], rfl, h, (List.append_nil _).symm, fun _ s hs => absurd hs List.not_mem_nil⟩
  | cons f fs ih =>
    intro r q h
    obtain ⟨r₁, sent, hframe, h₁, hpopped, hsent⟩ := turnFrame?_eq h f
    obtain ⟨r', rest, hrest, h', hpopped', hall⟩ := ih h₁
    refine ⟨r', sent :: rest, ?_, h', ?_, ?_⟩
    · rw [turnFrames?, hframe]
      simp only [Option.bind_eq_bind, Option.bind_some, hrest]
    · rw [List.flatten_cons, ← List.append_assoc, ← hpopped]
      exact hpopped'
    · intro hflush s hs
      rcases List.mem_cons.mp hs with rfl | hs
      · exact hsent (hflush f List.mem_cons_self)
      · exact hall (fun g hg => hflush g (List.mem_cons_of_mem f hg)) s hs

theorem queueFrames_ordered (fs : List (TurnFrame α)) :
    ∀ {pushed : List α} {q : BoundedQueue α}, q.Ordered ringPkts pushed →
      (queueFrames q fs).Ordered ringPkts (pushed ++ fs.map (·.packet)) := by
  induction fs with
  | nil => exact fun h => by rwa [List.map_nil, List.append_nil]
  | cons f fs ih =>
    intro pushed q h
    have hrest := ih (queueFrame_ordered h f)
    rwa [List.append_assoc, List.singleton_append] at hrest

/-- Flushing frames shorten a backlog by two packets each, while there are two. -/
theorem length_queueFrames_flush (fs : List (TurnFrame α)) (hflush : ∀ f ∈ fs, f.flush = true) :
    ∀ {q : BoundedQueue α}, q.queue.length ≤ 399 →
      (queueFrames q fs).queue.length = q.queue.length - 2 * fs.length := by
  induction fs with
  | nil => exact fun _ => rfl
  | cons f fs ih =>
    intro q hq
    have hfew : q.queue.length < ringPkts := Nat.lt_succ_of_le hq
    have hframe : (queueFrame q f).queue.length = q.queue.length - 2 := by
      rw [queueFrame, if_pos (hflush f List.mem_cons_self), BoundedQueue.pop, push_queue,
        if_pos hfew, List.length_drop, List.length_append, List.length_singleton, flushBudget]
      split <;> omega
    have hrest := ih (fun g hg => hflush g (List.mem_cons_of_mem f hg)) (q := queueFrame q f)
      (by omega)
    rw [List.length_cons]
    refine hrest.trans ?_
    omega

/-- **The backlog is a bounded queue**: over the frames of a turn, whatever the
memory held before, every access succeeds; the ring holds the queue, and what is
sent was popped from it, in push order and nothing twice; what is queued is the end
of what was pushed since the last pop. Then, while every frame flushes, each sends
one to three packets, and a backlog below the capacity shrinks by two a frame, down
to nothing. -/
theorem backlog_queue [Inhabited α] (cells : RawArray α ringPkts) (fs : List (TurnFrame α)) :
    ∃ r sent, turnFrames? ⟨cells, 0, 0⟩ fs = some (r, sent) ∧
      r.head < ringPkts ∧ r.count ≤ ringPkts ∧
      r.values? = some (queueFrames .empty fs).queue ∧
      sent.flatten = (queueFrames .empty fs).popped ∧
      (queueFrames .empty fs).Ordered ringPkts (fs.map (·.packet)) ∧
      (sent.flatten ++ (queueFrames .empty fs).queue).Sublist (fs.map (·.packet)) ∧
      ∀ gs : List (TurnFrame α), (∀ g ∈ gs, g.flush = true) →
        ∃ r' sent', turnFrames? r gs = some (r', sent') ∧
          (∀ s ∈ sent', 1 ≤ s.length ∧ s.length ≤ 3) ∧
          (r.count ≤ 399 → r'.count = r.count - 2 * gs.length) := by
  have hfresh := RawRing.Queues.fresh (ringPkts_pos) cells
  obtain ⟨r, sent, hrun, hr, hpopped, -⟩ := turnFrames?_eq fs (q := .empty) hfresh
  have hordered := queueFrames_ordered fs (BoundedQueue.Ordered.empty (α := α))
  rw [List.nil_append] at hordered
  have hsent : sent.flatten = (queueFrames .empty fs).popped := hpopped.symm
  refine ⟨r, sent, hrun, hr.head_lt, ?_, hr.values?, hsent, hordered, ?_, ?_⟩
  · rw [hr.count_eq]
    exact hordered.length_le
  · rw [hsent]
    exact hordered.sublist
  · intro gs hflush
    obtain ⟨r', sent', hrun', hr', -, hall⟩ := turnFrames?_eq gs hr
    refine ⟨r', sent', hrun', hall hflush, ?_⟩
    intro hfew
    rw [hr.count_eq] at hfew ⊢
    rw [hr'.count_eq, length_queueFrames_flush gs hflush hfew]

/-- Frames that do not flush, while there is room. -/
theorem queueFrames_fill (fs : List (TurnFrame α)) (hquiet : ∀ f ∈ fs, f.flush = false) :
    ∀ {q : BoundedQueue α}, q.queue.length + fs.length ≤ ringPkts →
      queueFrames q fs = { q with queue := q.queue ++ fs.map (·.packet) } := by
  induction fs with
  | nil => exact fun _ => by rw [List.map_nil, List.append_nil]; rfl
  | cons f fs ih =>
    intro q hroom
    rw [List.length_cons] at hroom
    have hframe : queueFrame q f = { q with queue := q.queue ++ [f.packet] } := by
      rw [queueFrame, if_neg (by rw [hquiet f List.mem_cons_self]; exact Bool.false_ne_true),
        BoundedQueue.push, if_pos (by omega)]
    have hrest := ih (fun g hg => hquiet g (List.mem_cons_of_mem f hg)) (q := queueFrame q f) (by
      rw [hframe, List.length_append, List.length_singleton]
      omega)
    rw [queueFrames, Runs.run, List.foldl_cons]
    refine hrest.trans ?_
    rw [hframe, List.append_assoc]
    rfl

/-- Numbered packets: the ring is filled, and one more frame flushes. -/
def overfull : List (TurnFrame ℕ) := (List.range 400).map (⟨·, false⟩) ++ [⟨400, true⟩]

theorem queueFrames_overfull :
    queueFrames .empty overfull = ⟨List.range' 4 397, [1, 2, 3], [0]⟩ := by
  have hfill := queueFrames_fill ((List.range 400).map fun i => (⟨i, false⟩ : TurnFrame ℕ))
    (by simp) (q := .empty) (by simp [BoundedQueue.empty, ringPkts])
  have hpackets : ((List.range 400).map fun i => (⟨i, false⟩ : TurnFrame ℕ)).map (·.packet) =
      0 :: 1 :: 2 :: 3 :: List.range' 4 396 := by
    rw [List.map_map, List.range_eq_range']
    exact List.map_id _
  have hfull : queueFrames .empty ((List.range 400).map fun i => ⟨i, false⟩) =
      ⟨0 :: 1 :: 2 :: 3 :: List.range' 4 396, [], []⟩ := by
    rw [hfill, hpackets]
    rfl
  have hlast : List.range' 4 396 ++ [400] = List.range' 4 397 :=
    (List.range'_1_concat (s := 4) (n := 396)).symm
  have hpush : BoundedQueue.push ringPkts ⟨0 :: 1 :: 2 :: 3 :: List.range' 4 396, [], []⟩ 400 =
      ⟨1 :: 2 :: 3 :: List.range' 4 397, [], [0]⟩ := by
    rw [BoundedQueue.push, if_neg (by
      rw [List.length_cons, List.length_cons, List.length_cons, List.length_cons,
        List.length_range']
      exact Nat.lt_irrefl 400), ← hlast]
    rfl
  have hbudget : flushBudget (1 :: 2 :: 3 :: List.range' 4 397).length = 3 := if_pos (by
    rw [List.length_cons, List.length_cons]
    omega)
  have hflush : queueFrames .empty overfull =
      queueFrame ⟨0 :: 1 :: 2 :: 3 :: List.range' 4 396, [], []⟩ ⟨400, true⟩ := by
    rw [← hfull, overfull, queueFrames, Runs.run, List.foldl_append]
    rfl
  rw [hflush, queueFrame, if_pos rfl, hpush, hbudget]
  rfl

/-- A packet that was lost was not popped either: after a loss the ring holds fewer
packets than were pushed and not popped, although it has room. -/
theorem overfull_queue :
    (turnFrames? ⟨RawArray.fresh, 0, 0⟩ overfull).bind (fun x => x.1.values?) =
        some (List.range' 4 397) ∧
      (turnFrames? ⟨RawArray.fresh, 0, 0⟩ overfull).map (fun x => x.2.flatten) =
        some [1, 2, 3] ∧
      (overfull.map (·.packet)).rtake (min 400 (overfull.length - [1, 2, 3].length)) =
        List.range' 3 398 := by
  obtain ⟨r, sent, hrun, hr, hsent, -⟩ := turnFrames?_eq overfull (q := .empty)
    (RawRing.Queues.fresh (ringPkts_pos) RawArray.fresh)
  rw [queueFrames_overfull] at hr hsent
  refine ⟨?_, ?_, by decide +kernel⟩
  · rw [hrun, Option.bind_some, hr.values?]
  · rw [hrun, Option.map_some]
    exact congrArg some hsent.symm

/-! ## The same ring in the capture task -/

theorem toList_of_pop_none {n : ℕ} {b : RingBuf α n} (h : b.pop = none) : b.toList = [] := by
  rw [RingBuf.pop] at h
  split at h
  · rename_i hzero
    rw [← List.length_eq_zero_iff, RingBuf.length_toList, hzero]
  · exact absurd h (by simp)

/-- **The sends of `captureStep` are a burst**: from `.send budget` it takes as many
packets from the front of its ring, and goes on to unlock. -/
theorem captureStep_burst (cfg : Config) (us : ℕ) (mic : Mic) (sh : Shared) (budget : ℕ) :
    ∀ {c : CaptureTask}, c.pc = .send budget →
      ∃ k ring,
        Runs.run (fun x mic => captureStep cfg us mic x.1 x.2) (sh, c) (List.replicate k mic) =
            (sh, { c with ring := ring, pc := .unlock }) ∧
          ring.toList = c.ring.toList.drop budget := by
  induction budget with
  | zero =>
    intro c hpc
    refine ⟨1, c.ring, ?_, rfl⟩
    simp only [List.replicate_one, Runs.run, List.foldl_cons, List.foldl_nil, captureStep, hpc]
  | succ budget ih =>
    intro c hpc
    rcases hpop : c.ring.pop with _ | ⟨pkt, ring⟩
    · refine ⟨1, c.ring, ?_, ?_⟩
      · simp only [List.replicate_one, Runs.run, List.foldl_cons, List.foldl_nil, captureStep, hpc,
          hpop]
      · rw [toList_of_pop_none hpop, List.drop_nil]
    · have hstep : captureStep cfg us mic sh c =
          (sh, { c with ring := ring, pc := .send budget }) := by
        simp only [captureStep, hpc, hpop]
      obtain ⟨k, ring', hrun, hring⟩ := ih (c := { c with ring := ring, pc := .send budget }) rfl
      refine ⟨k + 1, ring', ?_, ?_⟩
      · rw [List.replicate_succ, Runs.run, List.foldl_cons]
        simp only [hstep]
        exact hrun
      · rw [RingBuf.toList_pop hpop, List.drop_succ_cons]
        exact hring

end PipecatVoice
