import Mathlib.Data.List.Nodup
import Mathlib.Logic.Function.Basic
import PipecatVoice.Lib.Unwinding

/-!
# The transcript stream

Each request to `/api/transcripts/stream` makes a bounded queue, enters it in
`_transcript_subscribers` and runs a generator that turns what it takes from the
queue into server-sent events. `broadcast_transcript` puts an event into every
queue there is and lets a full one be.

* `broadcastTranscript` — the producer;
* `gen`, `expire`, `close` — a generator, from one suspension to the next;
* `step` — the event loop: one of these, or a new request;
* `owed` — the events a subscriber is due.
-/

namespace PipecatVoice.Fanout

universe u

/-! ## A subscriber's queue -/

/-- `_TRANSCRIPT_QUEUE_MAXSIZE` -/
def transcriptQueueMaxsize : ℕ := 256

/-- What `put_nowait` can raise. -/
inductive PutError where
  /-- `asyncio.QueueFull` -/
  | full
  /-- `asyncio.QueueShutDown` -/
  | shutDown

/-- An `asyncio.Queue(maxsize=_TRANSCRIPT_QUEUE_MAXSIZE)`. -/
structure Queue (ε : Type u) where
  /-- what is in it, oldest first -/
  items : List ε
  /-- no more than fit -/
  length_le : items.length ≤ transcriptQueueMaxsize
  /-- it takes nothing any more -/
  isShutDown : Bool

namespace Queue

variable {ε : Type u}

/-- The queue as it is made. -/
def empty : Queue ε := ⟨[], Nat.zero_le _, false⟩

/-- `put_nowait` -/
def putNowait (queue : Queue ε) (event : ε) : Except PutError (Queue ε) :=
  if queue.isShutDown then .error .shutDown
  else if h : queue.items.length < transcriptQueueMaxsize then
    .ok { queue with
      items := queue.items ++ [event]
      length_le := by rw [List.length_append]; exact h }
  else .error .full

/-- `get`, if there is something to get. -/
def get? (queue : Queue ε) : Option (ε × Queue ε) :=
  match h : queue.items with
  | [] => none
  | event :: rest =>
    have hle : rest.length ≤ transcriptQueueMaxsize := by
      have hle := queue.length_le
      rw [h] at hle
      exact Nat.le_of_succ_le hle
    some (event, { queue with items := rest, length_le := hle })

/-- There is room for another event. -/
def hasRoom (queue : Queue ε) : Bool := queue.items.length < transcriptQueueMaxsize

/-- The queue after an event is offered: one that raises is left alone. -/
def offer (queue : Queue ε) (event : ε) : Queue ε :=
  match queue.putNowait event with
  | .ok queue' => queue'
  | .error _ => queue

theorem offer_items {queue : Queue ε} (h : queue.isShutDown = false) (event : ε) :
    (queue.offer event).items = queue.items ++ if queue.hasRoom then [event] else [] := by
  unfold offer putNowait hasRoom
  rw [h]
  by_cases hroom : queue.items.length < transcriptQueueMaxsize
  · simp [hroom]
  · simp [hroom]

@[simp] theorem offer_isShutDown (queue : Queue ε) (event : ε) :
    (queue.offer event).isShutDown = queue.isShutDown := by
  unfold offer putNowait
  split_ifs <;> rfl

theorem get?_eq_some {queue queue' : Queue ε} {event : ε}
    (h : queue.get? = some (event, queue')) :
    queue.items = event :: queue'.items ∧ queue'.isShutDown = queue.isShutDown := by
  unfold get? at h
  split at h
  · cases h
  · cases h
    exact ⟨‹_›, rfl⟩

end Queue

/-! ## A subscriber's generator -/

/-- An event with the time it was broadcast. -/
structure Stamped (ε : Type u) where
  /-- `ts` -/
  ts : ℕ
  /-- the rest -/
  event : ε

/-- What the generator yields. -/
inductive Chunk (ε : Type u) where
  /-- `: connected at` -/
  | hello
  /-- `data:` -/
  | data (event : Stamped ε)
  /-- `: ping` -/
  | ping

/-- The event in a chunk. -/
def Chunk.event? {ε : Type u} : Chunk ε → Option (Stamped ε)
  | .data event => some event
  | .hello | .ping => none

/-- Where a generator is. -/
inductive GenPc where
  /-- there has been no such request -/
  | absent
  /-- before the first chunk -/
  | fresh
  /-- about to test `request.is_disconnected()` -/
  | test
  /-- in `wait_for(queue.get())` -/
  | wait
  /-- over -/
  | closed
  deriving DecidableEq

/-- The generator is neither to come nor over. -/
def GenPc.live : GenPc → Bool
  | .fresh | .test | .wait => true
  | .absent | .closed => false

/-- One request's queue and generator. -/
structure Subscriber (ε : Type u) where
  /-- where the generator is -/
  pc : GenPc
  /-- its queue -/
  queue : Queue (Stamped ε)
  /-- what it has yielded -/
  sent : List (Chunk ε)

namespace Subscriber

variable {ε : Type u}

/-- No request yet. -/
def none : Subscriber ε := ⟨.absent, .empty, []⟩

/-- The events it has received. -/
def received (sub : Subscriber ε) : List (Stamped ε) := sub.sent.filterMap Chunk.event?

end Subscriber

/-! ## The event loop -/

variable {ι : Type u} {ε : Type u} [DecidableEq ι]

/-- The server, as far as the stream is concerned. Requests are told apart by
the identity of their queues. -/
structure State (ι : Type u) (ε : Type u) where
  /-- `_transcript_subscribers`, in the order it is gone through -/
  subscribers : List ι
  /-- it is a set -/
  nodup : subscribers.Nodup
  /-- the requests -/
  subs : ι → Subscriber ε

/-- The server before the first request. -/
def State.init : State ι ε := ⟨[], List.nodup_nil, fun _ => .none⟩

namespace State

/-- `_transcript_subscribers.add` -/
def add (s : State ι ε) (q : ι) : State ι ε :=
  { s with subscribers := s.subscribers.insert q, nodup := s.nodup.insert }

/-- `_transcript_subscribers.discard` -/
def discard (s : State ι ε) (q : ι) : State ι ε :=
  { s with subscribers := s.subscribers.erase q, nodup := s.nodup.erase q }

/-- A request moves on. -/
def set (s : State ι ε) (q : ι) (sub : Subscriber ε) : State ι ε :=
  { s with subs := Function.update s.subs q sub }

end State

/-- One pass of the loop of `broadcast_transcript`: the queues after it, and the
dead ones so far. -/
def putOne (event : Stamped ε) (q : ι) (subs : ι → Subscriber ε) (dead : List ι) :
    Except PutError ((ι → Subscriber ε) × List ι) :=
  tryCatch
    (do
      let queue ← (subs q).queue.putNowait event
      pure (Function.update subs q { subs q with queue := queue }, dead))
    fun
      -- the subscriber is too slow: it falls behind
      | .full => pure (subs, dead)
      | .shutDown => pure (subs, dead ++ [q])

/-- The loop over the subscribers. -/
def putAll (event : Stamped ε) : List ι → (ι → Subscriber ε) → List ι →
    Except PutError ((ι → Subscriber ε) × List ι)
  | [], subs, dead => .ok (subs, dead)
  | q :: rest, subs, dead => do
    let (subs, dead) ← putOne event q subs dead
    putAll event rest subs dead

/-- `broadcast_transcript`, at the time `ts` -/
def broadcastTranscript (ts : ℕ) (event : ε) (s : State ι ε) : Except PutError (State ι ε) := do
  let (subs, dead) ← putAll ⟨ts, event⟩ s.subscribers s.subs []
  pure (dead.foldl State.discard { s with subs := subs })

/-- `transcripts_stream`, for a queue of its own. -/
def transcriptsStream (q : ι) (s : State ι ε) : State ι ε :=
  if (s.subs q).pc = .absent then (s.add q).set q ⟨.fresh, .empty, []⟩ else s

/-- The generator runs until it is suspended again. -/
def gen (q : ι) (isDisconnected : Bool) (s : State ι ε) : State ι ε :=
  let sub := s.subs q
  match sub.pc with
  | .fresh => s.set q { sub with pc := .test, sent := sub.sent ++ [.hello] }
  | .test =>
    if isDisconnected then (s.discard q).set q { sub with pc := .closed }
    else s.set q { sub with pc := .wait }
  | .wait =>
    match sub.queue.get? with
    | Option.none => s
    | some (event, queue) =>
      s.set q { pc := .test, queue := queue, sent := sub.sent ++ [.data event] }
  | .absent | .closed => s

/-- `wait_for` times out. -/
def expire (q : ι) (s : State ι ε) : State ι ε :=
  let sub := s.subs q
  match sub.pc with
  | .wait => s.set q { sub with pc := .test, sent := sub.sent ++ [.ping] }
  | .absent | .fresh | .test | .closed => s

/-- The generator is cancelled or closed. The `finally` of one that has not
begun does not run. -/
def close (q : ι) (s : State ι ε) : State ι ε :=
  let sub := s.subs q
  match sub.pc with
  | .test | .wait => (s.discard q).set q { sub with pc := .closed }
  | .fresh => s.set q { sub with pc := .closed }
  | .absent | .closed => s

/-- What happens next. -/
inductive Action (ι : Type u) (ε : Type u) where
  /-- a request comes in -/
  | request (q : ι)
  /-- a generator runs -/
  | gen (q : ι) (isDisconnected : Bool)
  /-- a generator has waited long enough -/
  | expire (q : ι)
  /-- a generator is cancelled -/
  | close (q : ι)
  /-- a turn is broadcast -/
  | broadcast (ts : ℕ) (event : ε)

/-- One action. A producer that raises changes nothing. -/
def step (s : State ι ε) : Action ι ε → State ι ε
  | .request q => transcriptsStream q s
  | .gen q isDisconnected => gen q isDisconnected s
  | .expire q => expire q s
  | .close q => close q s
  | .broadcast ts event =>
    match broadcastTranscript ts event s with
    | .ok s' => s'
    | .error _ => s

/-! ## What a broadcast does -/

/-- A broadcast as its subscribers see it. -/
def Subscriber.offer (sub : Subscriber ε) (event : Stamped ε) : Subscriber ε :=
  { sub with queue := sub.queue.offer event }

/-- Nothing leaves a pass of the loop but its result. -/
theorem putOne_eq (event : Stamped ε) (q : ι) (subs : ι → Subscriber ε) (dead : List ι) :
    putOne event q subs dead = .ok (Function.update subs q ((subs q).offer event),
      dead ++ [q].filter fun q => (subs q).queue.isShutDown) := by
  have hsame : Function.update subs q (subs q) = subs := Function.update_eq_self q subs
  have hdead : [q].filter (fun r => (subs r).queue.isShutDown) =
      if (subs q).queue.isShutDown then [q] else [] := by
    rw [List.filter_singleton, Bool.cond_eq_ite]
  rw [hdead]
  unfold putOne Subscriber.offer Queue.offer Queue.putNowait
  split_ifs with hshut hroom
  · exact congrArg (fun f => Except.ok (f, dead ++ [q])) hsame.symm
  · rw [List.append_nil]
    rfl
  · rw [List.append_nil]
    exact congrArg (fun f => Except.ok (f, dead)) hsame.symm

/-- **The producer's loop** comes to its end: every queue has been offered the
event, and the dead ones are those that are shut down. -/
theorem putAll_eq (event : Stamped ε) {l : List ι} (hnodup : l.Nodup) :
    ∀ (subs : ι → Subscriber ε) (dead : List ι), putAll event l subs dead =
      .ok (fun q => if q ∈ l then (subs q).offer event else subs q,
        dead ++ l.filter fun q => (subs q).queue.isShutDown) := by
  induction l with
  | nil =>
    intro subs dead
    simp [putAll]
  | cons q rest ih =>
    obtain ⟨hq, hrest⟩ := List.nodup_cons.mp hnodup
    intro subs dead
    have hne : ∀ r ∈ rest, r ≠ q := fun r hr hrq => hq (hrq ▸ hr)
    rw [putAll, putOne_eq]
    refine (ih hrest _ _).trans ?_
    congr 2
    · funext r
      by_cases hr : r = q
      · rw [hr, if_neg hq, Function.update_self, if_pos List.mem_cons_self]
      · rw [Function.update_of_ne hr]
        simp [hr]
    · rw [List.append_assoc]
      congr 1
      rw [← List.singleton_append (l := rest), List.filter_append]
      congr 1
      apply List.filter_congr
      intro r hr
      rw [Function.update_of_ne (hne r hr)]

theorem subs_foldl_discard (dead : List ι) :
    ∀ s : State ι ε, (dead.foldl State.discard s).subs = s.subs := by
  induction dead with
  | nil => exact fun _ => rfl
  | cons q rest ih => exact fun s => ih (s.discard q)

theorem mem_foldl_discard (dead : List ι) (q : ι) : ∀ s : State ι ε,
    q ∈ (dead.foldl State.discard s).subscribers ↔ q ∈ s.subscribers ∧ q ∉ dead := by
  induction dead with
  | nil => simp
  | cons r rest ih =>
    intro s
    rw [List.foldl_cons, ih, State.discard, s.nodup.mem_erase_iff, List.mem_cons, not_or]
    tauto

/-- **A broadcast**: nothing is raised, every subscriber is offered the event,
and no one leaves but those whose queue is shut down. -/
theorem broadcastTranscript_ok (ts : ℕ) (event : ε) (s : State ι ε) :
    ∃ s', broadcastTranscript ts event s = .ok s' ∧
      (∀ q, s'.subs q =
        if q ∈ s.subscribers then (s.subs q).offer ⟨ts, event⟩ else s.subs q) ∧
      ∀ q, q ∈ s'.subscribers ↔ q ∈ s.subscribers ∧ ¬ (s.subs q).queue.isShutDown := by
  unfold broadcastTranscript
  rw [putAll_eq _ s.nodup]
  refine ⟨_, rfl, ?_, ?_⟩
  · intro q
    rw [subs_foldl_discard]
  · intro q
    rw [mem_foldl_discard, List.nil_append, List.mem_filter]
    tauto

/-! ## What one subscriber sees -/

/-- A request as it sees itself: whether it is subscribed, its queue and its
generator. -/
def view (q : ι) (s : State ι ε) : Bool × Subscriber ε := (decide (q ∈ s.subscribers), s.subs q)

theorem view_add (q r : ι) (s : State ι ε) :
    view q (s.add r) = if q = r then (true, s.subs q) else view q s := by
  unfold view State.add
  split_ifs with h
  · simp [h]
  · simp [List.mem_insert_iff, h]

theorem view_discard (q r : ι) (s : State ι ε) :
    view q (s.discard r) = if q = r then (false, s.subs q) else view q s := by
  unfold view State.discard
  split_ifs with h
  · simp [s.nodup.mem_erase_iff, h]
  · simp [s.nodup.mem_erase_iff, h]

theorem view_set (q r : ι) (s : State ι ε) (sub : Subscriber ε) :
    view q (s.set r sub) = if q = r then ((view q s).1, sub) else view q s := by
  unfold view State.set
  split_ifs with h
  · simp [h]
  · simp [h]

/-- The request an action belongs to; a broadcast belongs to none. -/
def Action.owner : Action ι ε → Option ι
  | .request q | .gen q _ | .expire q | .close q => some q
  | .broadcast _ _ => Option.none

/-- The actions a request takes part in. -/
def concerns (q : ι) (a : Action ι ε) : Bool := a.owner = some q || a.owner = Option.none

theorem view_broadcast (q : ι) (s : State ι ε) (ts : ℕ) (event : ε) :
    view q (step s (.broadcast ts event)) =
      ((view q s).1 && !(view q s).2.queue.isShutDown,
        if (view q s).1 then (view q s).2.offer ⟨ts, event⟩ else (view q s).2) := by
  obtain ⟨s', hok, hsubs, hmem⟩ := broadcastTranscript_ok ts event s
  simp only [step, hok, view, hsubs, hmem]
  simp

/-- Another request's actions are not seen. -/
theorem view_step_of_owner_ne {q r : ι} {a : Action ι ε} (howner : a.owner = some r) (hne : q ≠ r)
    (s : State ι ε) : view q (step s a) = view q s := by
  cases a <;> cases howner
  all_goals
    simp only [step, transcriptsStream, gen, expire, close]
    (repeat' split) <;> simp only [view_set, view_add, view_discard, if_neg hne]

/-- A request's own actions depend on nothing but what it sees. -/
theorem view_step_congr {q : ι} {a : Action ι ε} (ha : concerns q a) {s t : State ι ε}
    (hst : view q s = view q t) : view q (step s a) = view q (step t a) := by
  have hsub : s.subs q = t.subs q := congrArg Prod.snd hst
  cases howner : a.owner with
  | none =>
    cases a with
    | broadcast ts event => rw [view_broadcast, view_broadcast, hst]
    | _ => cases howner
  | some r =>
    obtain rfl : r = q := by simpa [concerns, howner] using ha
    cases a <;> cases howner
    all_goals
      simp only [step, transcriptsStream, gen, expire, close, hsub]
      (repeat' split) <;> simp only [view_set, view_add, view_discard, if_true, hst, hsub]

theorem unwinds (q : ι) : Unwinding.Unwinds (step (ε := ε)) (view q) (concerns q) where
  consistent := fun _ _ _ ha hst => view_step_congr ha hst
  unaffected := by
    intro s a ha
    cases howner : a.owner with
    | none => simp [concerns, howner] at ha
    | some r =>
      apply view_step_of_owner_ne howner
      rintro rfl
      simp [concerns, howner] at ha

/-! ## What a subscriber receives -/

/-- What has been received, and what waits in the queue. -/
def Subscriber.delivered (sub : Subscriber ε) : List (Stamped ε) :=
  sub.received ++ sub.queue.items

/-- The event a broadcast owes a subscriber: the one broadcast, if it is
subscribed and there is room for it. -/
def owed (q : ι) (s : State ι ε) : Action ι ε → List (Stamped ε)
  | .broadcast ts event =>
    if q ∈ s.subscribers ∧ (s.subs q).queue.hasRoom then [⟨ts, event⟩] else []
  | .request _ | .gen _ _ | .expire _ | .close _ => []

/-- What holds of each request. -/
structure Sound (listed : Bool) (sub : Subscriber ε) : Prop where
  /-- nothing shuts a queue down -/
  isOpen : sub.queue.isShutDown = false
  /-- a request that is still to come has nothing -/
  absent : sub.pc = .absent → listed = false ∧ sub.delivered = []
  /-- a request is subscribed until its generator is over -/
  live : sub.pc.live → listed

/-- A yield moves the event taken into the chunks sent. -/
theorem delivered_yield {sub : Subscriber ε} {event : Stamped ε} {queue : Queue (Stamped ε)}
    (hget : sub.queue.get? = some (event, queue)) (pc : GenPc) :
    Subscriber.delivered ⟨pc, queue, sub.sent ++ [.data event]⟩ = sub.delivered := by
  obtain ⟨hitems, -⟩ := Queue.get?_eq_some hget
  simp [Subscriber.delivered, Subscriber.received, hitems, Chunk.event?]

/-- Other chunks carry no event. -/
theorem delivered_chunk (sub : Subscriber ε) (pc : GenPc) {chunk : Chunk ε}
    (hchunk : chunk.event? = Option.none) :
    Subscriber.delivered ⟨pc, sub.queue, sub.sent ++ [chunk]⟩ = sub.delivered := by
  simp [Subscriber.delivered, Subscriber.received, hchunk]

/-- A request's own action delivers nothing and loses nothing. -/
theorem own_step {q : ι} {a : Action ι ε} (howner : a.owner = some q) {s : State ι ε}
    (h : Sound (view q s).1 (view q s).2) :
    Sound (view q (step s a)).1 (view q (step s a)).2 ∧
      (view q (step s a)).2.delivered = (view q s).2.delivered := by
  have hopen := h.isOpen
  have hlive : ∀ {pc : GenPc}, (s.subs q).pc = pc → pc.live → (view q s).1 :=
    fun hpc hpclive => h.live ((congrArg GenPc.live hpc).trans hpclive)
  cases a <;> cases howner
  case request =>
    simp only [step, transcriptsStream]
    split_ifs with habsent
    · rw [view_set, if_pos rfl, view_add, if_pos rfl]
      refine ⟨⟨rfl, nofun, fun _ => rfl⟩, ?_⟩
      rw [(h.absent habsent).2]
      rfl
    · exact ⟨h, rfl⟩
  case gen isDisconnected =>
    simp only [step, gen]
    split
    · rename_i hpc
      rw [view_set, if_pos rfl]
      exact ⟨⟨hopen, nofun, fun _ => hlive hpc rfl⟩, delivered_chunk _ _ rfl⟩
    · rename_i hpc
      split_ifs
      · rw [view_set, if_pos rfl]
        exact ⟨⟨hopen, nofun, nofun⟩, rfl⟩
      · rw [view_set, if_pos rfl]
        exact ⟨⟨hopen, nofun, fun _ => hlive hpc rfl⟩, rfl⟩
    · rename_i hpc
      split
      · exact ⟨h, rfl⟩
      · rename_i event queue hget
        rw [view_set, if_pos rfl]
        refine ⟨⟨?_, nofun, fun _ => hlive hpc rfl⟩, delivered_yield hget _⟩
        exact (Queue.get?_eq_some hget).2.trans hopen
    · exact ⟨h, rfl⟩
    · exact ⟨h, rfl⟩
  case expire =>
    simp only [step, expire]
    split
    · rename_i hpc
      rw [view_set, if_pos rfl]
      exact ⟨⟨hopen, nofun, fun _ => hlive hpc rfl⟩, delivered_chunk _ _ rfl⟩
    all_goals exact ⟨h, rfl⟩
  case close =>
    simp only [step, close]
    split
    iterate 3
      rw [view_set, if_pos rfl]
      exact ⟨⟨hopen, nofun, nofun⟩, rfl⟩
    all_goals exact ⟨h, rfl⟩

/-- A broadcast delivers what it owes. -/
theorem broadcast_step {q : ι} {s : State ι ε} (h : Sound (view q s).1 (view q s).2) (ts : ℕ)
    (event : ε) :
    let v := view q (step s (.broadcast ts event))
    Sound v.1 v.2 ∧
      v.2.delivered = (view q s).2.delivered ++ owed q s (.broadcast ts event) := by
  intro v
  have hv : v = _ := view_broadcast q s ts event
  rw [h.isOpen, Bool.not_false, Bool.and_true] at hv
  cases hlisted : (view q s).1 with
  | false =>
    have hq : q ∉ s.subscribers := by simpa [view] using hlisted
    rw [hlisted, if_neg Bool.false_ne_true] at hv
    have hsound : Sound false (view q s).2 := hlisted ▸ h
    simpa [hv, owed, hq] using hsound
  | true =>
    have hq : q ∈ s.subscribers := by simpa [view] using hlisted
    rw [hlisted, if_pos rfl] at hv
    rw [hv]
    refine ⟨⟨(Queue.offer_isShutDown _ _).trans h.isOpen, ?_, fun _ => rfl⟩, ?_⟩
    · intro hpc
      have habsent := (h.absent hpc).1
      rw [hlisted] at habsent
      cases habsent
    · have hitems := Queue.offer_items h.isOpen (⟨ts, event⟩ : Stamped ε)
      simp only [owed, hq, true_and, Subscriber.delivered, List.append_assoc]
      exact congrArg ((view q s).2.received ++ ·) hitems

theorem step_sound {q : ι} {s : State ι ε} (h : Sound (view q s).1 (view q s).2)
    (a : Action ι ε) :
    Sound (view q (step s a)).1 (view q (step s a)).2 ∧
      (view q (step s a)).2.delivered = (view q s).2.delivered ++ owed q s a := by
  cases howner : a.owner with
  | none =>
    cases a with
    | broadcast ts event => exact broadcast_step h ts event
    | _ => cases howner
  | some r =>
    have howed : owed q s a = [] := by cases a <;> first | rfl | cases howner
    rw [howed, List.append_nil]
    by_cases hr : q = r
    · subst hr
      exact own_step howner h
    · rw [view_step_of_owner_ne howner hr]
      exact ⟨h, rfl⟩

theorem sound_init (q : ι) :
    Sound (view q (State.init : State ι ε)).1 (view q (State.init : State ι ε)).2 :=
  ⟨rfl, fun _ => ⟨rfl, rfl⟩, nofun⟩

/-- **Fan-out.** After any schedule, what a subscriber has received, followed by
what waits in its queue, is exactly what the broadcasts owed it, in their order;
it is subscribed until its generator is over; the producer does not raise,
whatever queues are full; and what the subscriber receives is no different after
any other schedule with the same broadcasts and the same actions of its own. -/
theorem transcript_fanout (as : List (Action ι ε)) (q : ι) :
    let s := Runs.run step State.init as
    (s.subs q).received ++ (s.subs q).queue.items =
        Runs.collect step (owed q) State.init as ∧
      ((s.subs q).pc.live → q ∈ s.subscribers) ∧
      (∀ ts event, ∃ s', broadcastTranscript ts event s = .ok s') ∧
      ∀ bs : List (Action ι ε), as.filter (concerns q) = bs.filter (concerns q) →
        (Runs.run step State.init bs).subs q = s.subs q := by
  intro s
  have hstart := sound_init (ε := ε) q
  have hsound : Sound (view q s).1 (view q s).2 :=
    Runs.run_induct (I := fun s => Sound (view q s).1 (view q s).2)
      (fun _ a h => (step_sound h a).1) as hstart
  refine ⟨?_, ?_, ?_, ?_⟩
  · exact Runs.log_run (fun s => (view q s).2.delivered)
      (I := fun s => Sound (view q s).1 (view q s).2)
      (fun _ a h => (step_sound h a).1) (fun _ a h => (step_sound h a).2) as hstart
  · exact fun hlive => of_decide_eq_true (hsound.live hlive)
  · intro ts event
    obtain ⟨s', hok, -⟩ := broadcastTranscript_ok ts event s
    exact ⟨s', hok⟩
  · intro bs hsame
    exact congrArg Prod.snd ((unwinds q).view_run_eq hsame.symm State.init)

end PipecatVoice.Fanout
