import Mathlib.Data.List.Perm.Subperm
import Mathlib.Logic.Function.Basic
import PipecatVoice.Lib.Runs
import PipecatVoice.Lib.SlotTable

/-!
# Log clients

The log side of `web_server.cpp`: a handshake on `/ws/logs` enters the socket's
descriptor in `s_ws_fds`; the broadcaster queues each chunk of the log for every
descriptor in the table; the server's task sends what is queued, and takes a
descriptor out when a send fails. Connections come and go in between, and the
system uses their descriptors again.

A send that fails and the removal are one step: only a broadcast can fall between
the two, and it does the same right before.

* `step` — one event;
* `logProperty`, `timely` — what is to hold at each step, and the steps at which it does;
* `prompt` — no descriptor is used again while the table or the queue has it, and closed
  clients leave room in the table;
* `logFrames_iff` — what these runs have to do with each other.
-/

namespace PipecatVoice.LogClients

open Runs SlotTable

/-- `kMaxWsClients` -/
def kMaxWsClients : ℕ := 4

/-- A connection of the server. -/
structure Session where
  /-- tells the connections of a run apart -/
  id : ℕ
  /-- its descriptor -/
  fd : ℕ
  /-- the `/ws/logs` handshake is done -/
  handshaken : Bool
  deriving DecidableEq, Repr

/-- `WsSend` -/
structure WsSend where
  /-- `fd` -/
  fd : ℕ
  /-- the payload -/
  payload : List UInt8
  deriving DecidableEq, Repr

/-- The server, the table and the queue of its task. -/
structure State where
  /-- the connections that are open -/
  sessions : List Session
  /-- connections accepted so far -/
  accepted : ℕ
  /-- `s_ws_fds`; a slot with a negative number is free -/
  wsFds : List (Option ℕ)
  /-- the sends that are queued -/
  queue : List WsSend
  deriving DecidableEq, Repr

/-- The server at its start. -/
def State.start : State := ⟨[], 0, List.replicate kMaxWsClients none, []⟩

/-- What happens. -/
inductive Event where
  /-- a connection is accepted on a descriptor that is not in use -/
  | accept (fd : ℕ)
  /-- the connection on a descriptor makes the `/ws/logs` handshake -/
  | handshake (fd : ℕ)
  /-- a connection is closed, by the client or by the purge of the least recently used -/
  | close (fd : ℕ)
  /-- the broadcaster takes a chunk from the log; `queued` says for which descriptors it
  gets memory and a place in the queue -/
  | broadcast (chunk : List UInt8) (queued : ℕ → Bool)
  /-- the server's task runs a queued send -/
  | send (i : ℕ)

/-- A descriptor is in use. -/
def State.inUse (s : State) (fd : ℕ) : Bool := s.sessions.any fun c => c.fd = fd

/-- `ws_add_client` -/
def wsAddClient (fd : ℕ) (s : State) : State := { s with wsFds := enter fd s.wsFds }

/-- `ws_remove_client` -/
def wsRemoveClient (fd : ℕ) (s : State) : State := { s with wsFds := leave fd s.wsFds }

/-- The server answers a handshake on `fd`. -/
def Session.shake (fd : ℕ) (c : Session) : Session :=
  if c.fd = fd then { c with handshaken := true } else c

/-- `ws_logs_handler`, for the handshake. -/
def wsLogsHandler (fd : ℕ) (s : State) : State :=
  wsAddClient fd { s with sessions := s.sessions.map (Session.shake fd) }

/-- One chunk of `log_broadcast_task`. -/
def logBroadcast (chunk : List UInt8) (queued : ℕ → Bool) (s : State) : State :=
  { s with
    queue := s.queue ++ ((keys s.wsFds).filter queued).map fun fd => ⟨fd, chunk⟩ }

/-- `ws_send_work`: the send fails if there is no session. -/
def wsSendWork (w : WsSend) (s : State) : State :=
  if s.inUse w.fd then s else wsRemoveClient w.fd s

/-- One event; an event that cannot happen changes nothing. -/
def step (s : State) : Event → State
  | .accept fd =>
    if s.inUse fd then s
    else { s with
      sessions := ⟨s.accepted, fd, false⟩ :: s.sessions
      accepted := s.accepted + 1 }
  | .handshake fd => if s.inUse fd then wsLogsHandler fd s else s
  | .close fd => { s with sessions := s.sessions.filter fun c => c.fd ≠ fd }
  | .broadcast chunk queued => logBroadcast chunk queued s
  | .send i =>
    match s.queue[i]? with
    | some w => wsSendWork w { s with queue := s.queue.eraseIdx i }
    | none => s

/-! ## What is to hold -/

/-- The log connections that are open. -/
def State.openLogs (s : State) : ℕ := s.sessions.countP (·.handshaken)

/-- A log frame is written to a connection that made the handshake, and a handshake made
while there is room is registered. -/
def logProperty (s : State) : Event → Bool
  | .send i =>
    match s.queue[i]? with
    | some w => s.sessions.all fun c => c.fd ≠ w.fd || c.handshaken
    | none => true
  | .handshake fd =>
    !(s.inUse fd && decide (s.openLogs < kMaxWsClients)) ||
      (step s (.handshake fd)).wsFds.contains (some fd)
  | _ => true

/-- Which connection made the last handshake on a descriptor. -/
abbrev Registered := ℕ → Option ℕ

/-- The history after an event. -/
def record (h : Registered) (s : State) : Event → Registered
  | .handshake fd =>
    match s.sessions.find? fun c => c.fd = fd with
    | some c => Function.update h fd (some c.id)
    | none => h
  | _ => h

/-- The descriptors that closed clients have left in the table. -/
def State.leftBehind (s : State) : ℕ :=
  (keys s.wsFds).countP fun fd => !s.sessions.any fun c => c.fd = fd && c.handshaken

/-- A connection is accepted on a descriptor that is neither in the table nor in a queued
send. -/
def acceptsFresh (s : State) : Event → Bool
  | .accept fd =>
    s.inUse fd || !s.wsFds.contains (some fd) && s.queue.all fun w => decide (w.fd ≠ fd)
  | _ => true

/-- A handshake made while there is room finds some, also with what closed clients have
left in the table. -/
def roomLeft (s : State) : Event → Bool
  | .handshake fd =>
    !(s.inUse fd && decide (s.openLogs < kMaxWsClients)) ||
      decide (s.openLogs + s.leftBehind < kMaxWsClients)
  | _ => true

/-- The table and the queue keep up with the connections. -/
def prompt (s : State) (e : Event) : Bool := acceptsFresh s e && roomLeft s e

/-- The history names the connections that made the handshake. -/
structure LogInv (s : State) (h : Registered) : Prop where
  /-- connections are numbered in the order they are accepted -/
  fresh : ∀ c ∈ s.sessions, c.id < s.accepted
  /-- so are the ones in the history -/
  past : ∀ fd id, h fd = some id → id < s.accepted
  /-- a descriptor has one connection -/
  unique : ∀ c ∈ s.sessions, ∀ c' ∈ s.sessions, c.fd = c'.fd → c.id = c'.id
  /-- a connection made the handshake if it is the last that did on its descriptor -/
  registered : ∀ c ∈ s.sessions, c.handshaken = true ↔ h c.fd = some c.id

@[simp] theorem Session.shake_id (fd : ℕ) (c : Session) : (c.shake fd).id = c.id := by
  rw [shake]
  split <;> rfl

@[simp] theorem Session.shake_fd (fd : ℕ) (c : Session) : (c.shake fd).fd = c.fd := by
  rw [shake]
  split <;> rfl

theorem inUse_iff {s : State} {fd : ℕ} : s.inUse fd = true ↔ ∃ c ∈ s.sessions, c.fd = fd := by
  simp only [State.inUse, List.any_eq_true, decide_eq_true_eq]

/-- A send and a broadcast leave the connections alone. -/
theorem send_sessions (s : State) (i : ℕ) :
    (step s (.send i)).sessions = s.sessions ∧ (step s (.send i)).accepted = s.accepted := by
  rw [step]
  split
  · rw [wsSendWork]
    split
    · exact ⟨rfl, rfl⟩
    · exact ⟨rfl, rfl⟩
  · exact ⟨rfl, rfl⟩

/-- **No descriptor twice**: what one event does to the table. -/
theorem nodup_step (s : State) (e : Event) (h : (keys s.wsFds).Nodup) :
    (keys (step s e).wsFds).Nodup := by
  cases e with
  | accept fd =>
    rw [step]
    split
    · exact h
    · exact h
  | handshake fd =>
    rw [step]
    split
    · exact nodup_enter h fd
    · exact h
  | close fd => exact h
  | broadcast chunk queued => exact h
  | send i =>
    rw [step]
    split
    · rw [wsSendWork]
      split
      · exact h
      · exact nodup_leave h _
    · exact h

namespace LogInv

variable {s : State} {h : Registered}

theorem start : LogInv State.start fun _ => none where
  fresh c hc := absurd hc List.not_mem_nil
  past fd id hid := by cases hid
  unique c hc := absurd hc List.not_mem_nil
  registered c hc := absurd hc List.not_mem_nil

/-- Only the connections count. -/
theorem congr (hinv : LogInv s h) {s' : State} (hsessions : s'.sessions = s.sessions)
    (haccepted : s'.accepted = s.accepted) : LogInv s' h where
  fresh := by
    rw [hsessions, haccepted]
    exact hinv.fresh
  past := by
    rw [haccepted]
    exact hinv.past
  unique := by
    rw [hsessions]
    exact hinv.unique
  registered := by
    rw [hsessions]
    exact hinv.registered

/-- A connection is accepted. -/
theorem accept (hinv : LogInv s h) {fd : ℕ} (hfree : ∀ c ∈ s.sessions, c.fd ≠ fd) :
    LogInv { s with
      sessions := ⟨s.accepted, fd, false⟩ :: s.sessions
      accepted := s.accepted + 1 } h where
  fresh c hc := by
    rcases List.mem_cons.mp hc with rfl | hc
    · exact Nat.lt_succ_self _
    · exact Nat.lt_succ_of_lt (hinv.fresh c hc)
  past fd id hid := Nat.lt_succ_of_lt (hinv.past fd id hid)
  unique c hc c' hc' heq := by
    rcases List.mem_cons.mp hc with rfl | hc <;> rcases List.mem_cons.mp hc' with rfl | hc'
    · rfl
    · exact absurd heq.symm (hfree c' hc')
    · exact absurd heq (hfree c hc)
    · exact hinv.unique c hc c' hc' heq
  registered c hc := by
    rcases List.mem_cons.mp hc with rfl | hc
    · refine ⟨fun hshaken => (by cases hshaken), fun hid => ?_⟩
      exact absurd (hinv.past _ _ hid) (Nat.lt_irrefl _)
    · exact hinv.registered c hc

/-- A connection makes the handshake. -/
theorem handshake (hinv : LogInv s h) {c₀ : Session} (hc₀ : c₀ ∈ s.sessions) :
    LogInv (wsLogsHandler c₀.fd s) (Function.update h c₀.fd (some c₀.id)) where
  fresh c hc := by
    obtain ⟨d, hd, rfl⟩ := List.mem_map.mp hc
    rw [Session.shake_id]
    exact hinv.fresh d hd
  past fd id hid := by
    by_cases heq : fd = c₀.fd
    · rw [heq, Function.update_self] at hid
      cases hid
      exact hinv.fresh c₀ hc₀
    · rw [Function.update_of_ne heq] at hid
      exact hinv.past fd id hid
  unique c hc c' hc' heq := by
    obtain ⟨d, hd, rfl⟩ := List.mem_map.mp hc
    obtain ⟨d', hd', rfl⟩ := List.mem_map.mp hc'
    rw [Session.shake_fd, Session.shake_fd] at heq
    rw [Session.shake_id, Session.shake_id]
    exact hinv.unique d hd d' hd' heq
  registered c hc := by
    obtain ⟨d, hd, rfl⟩ := List.mem_map.mp hc
    rw [Session.shake_fd, Session.shake_id]
    by_cases heq : d.fd = c₀.fd
    · rw [Session.shake, if_pos heq, heq, Function.update_self]
      exact ⟨fun _ => congrArg some (hinv.unique c₀ hc₀ d hd heq.symm), fun _ => rfl⟩
    · rw [Session.shake, if_neg heq, Function.update_of_ne heq]
      exact hinv.registered d hd

/-- A connection is closed. -/
theorem close (hinv : LogInv s h) (fd : ℕ) :
    LogInv { s with sessions := s.sessions.filter fun c => c.fd ≠ fd } h where
  fresh c hc := hinv.fresh c (List.mem_of_mem_filter hc)
  past := hinv.past
  unique c hc c' hc' :=
    hinv.unique c (List.mem_of_mem_filter hc) c' (List.mem_of_mem_filter hc')
  registered c hc := hinv.registered c (List.mem_of_mem_filter hc)

/-- **One event.** -/
theorem step (hinv : LogInv s h) (e : Event) : LogInv (step s e) (record h s e) := by
  cases e with
  | accept fd =>
    rw [LogClients.step]
    split
    · exact hinv
    · rename_i hfree
      apply hinv.accept
      intro c hc heq
      exact hfree (inUse_iff.mpr ⟨c, hc, heq⟩)
  | handshake fd =>
    rw [LogClients.step, record]
    cases hfind : s.sessions.find? fun c => c.fd = fd with
    | none =>
      have hfree : ¬ s.inUse fd = true := fun huse => by
        obtain ⟨c, hc, heq⟩ := inUse_iff.mp huse
        exact absurd (decide_eq_true heq) (List.find?_eq_none.mp hfind c hc)
      rw [if_neg hfree]
      exact hinv
    | some c₀ =>
      have hmem := List.mem_of_find?_eq_some hfind
      have hfd := List.find?_some hfind
      obtain rfl : c₀.fd = fd := of_decide_eq_true hfd
      rw [if_pos (inUse_iff.mpr ⟨c₀, hmem, rfl⟩)]
      exact hinv.handshake hmem
  | close fd => exact hinv.close fd
  | broadcast chunk queued => exact hinv.congr rfl rfl
  | send i =>
    obtain ⟨hsessions, haccepted⟩ := send_sessions s i
    exact hinv.congr hsessions haccepted

end LogInv

/-! ## Tables that keep up -/

/-- What is in the table or in the queue belongs to log clients, or to nobody. -/
def Clients (s : State) : Prop :=
  ∀ c ∈ s.sessions, some c.fd ∈ s.wsFds ∨ (∃ w ∈ s.queue, w.fd = c.fd) → c.handshaken = true

/-- **One event** keeps the table and the queue to log clients, unless it is a
connection on a descriptor they have. -/
theorem clients_step_iff {s : State} (h : Clients s) (e : Event) :
    Clients (step s e) ↔ acceptsFresh s e = true := by
  cases e with
  | accept fd =>
    rw [step, acceptsFresh]
    cases huse : s.inUse fd with
    | true => exact iff_of_true (by rw [if_pos rfl]; exact h) rfl
    | false =>
      rw [if_neg Bool.false_ne_true]
      simp only [Clients, List.forall_mem_cons, Bool.false_or, Bool.and_eq_true,
        Bool.not_eq_true', List.all_eq_true, decide_eq_true_eq, Bool.false_eq_true, imp_false,
        not_or, not_exists, not_and]
      refine (and_iff_left h).trans ?_
      rw [← Bool.not_eq_true, List.contains_iff_mem]
  | handshake fd =>
    refine iff_of_true ?_ rfl
    rw [step]
    split
    · intro c hc hmem
      obtain ⟨d, hd, rfl⟩ := List.mem_map.mp hc
      by_cases heq : d.fd = fd
      · rw [Session.shake, if_pos heq]
      · rw [Session.shake, if_neg heq] at hmem ⊢
        exact h d hd (hmem.imp_left fun hin => mem_of_mem_enter hin heq)
    · exact h
  | close fd => exact iff_of_true (fun c hc => h c (List.mem_of_mem_filter hc)) rfl
  | broadcast chunk queued =>
    refine iff_of_true ?_ rfl
    rintro c hc (htable | ⟨w, hw, heq⟩)
    · exact h c hc (.inl htable)
    · obtain hold | hnew := List.mem_append.mp hw
      · exact h c hc (.inr ⟨w, hold, heq⟩)
      · -- what is queued now is for a descriptor in the table
        obtain ⟨fd, hfd, rfl⟩ := List.mem_map.mp hnew
        obtain rfl : fd = c.fd := heq
        exact h c hc (.inl (mem_keys.mp (List.mem_of_mem_filter hfd)))
  | send i =>
    refine iff_of_true ?_ rfl
    obtain ⟨hsessions, -⟩ := send_sessions s i
    intro c hc hmem
    rw [hsessions] at hc
    refine h c hc ?_
    rw [step] at hmem
    split at hmem
    · have hqueue : ∀ w ∈ s.queue.eraseIdx i, w ∈ s.queue := fun _ => List.mem_of_mem_eraseIdx
      rw [wsSendWork] at hmem
      split at hmem
      · exact hmem.imp_right fun ⟨w, hw, heq⟩ => ⟨w, hqueue w hw, heq⟩
      · exact hmem.imp mem_of_mem_leave fun ⟨w, hw, heq⟩ => ⟨w, hqueue w hw, heq⟩
    · exact hmem

/-- A send in the queue goes to a log client. -/
theorem Clients.logProperty_send {s : State} (h : Clients s) (i : ℕ) :
    logProperty s (.send i) = true := by
  rw [logProperty]
  cases hw : s.queue[i]? with
  | none => rfl
  | some w =>
    refine List.all_eq_true.mpr fun c hc => ?_
    rw [Bool.or_eq_true, decide_eq_true_eq]
    by_cases heq : c.fd = w.fd
    · exact .inr (h c hc (.inr ⟨w, List.mem_of_getElem? hw, heq.symm⟩))
    · exact .inl heq

/-- The descriptors in the table are those of open log connections, and those that closed
ones have left. -/
theorem length_keys_le {s : State} (h : (keys s.wsFds).Nodup) :
    (keys s.wsFds).length ≤ s.openLogs + s.leftBehind := by
  have hopen : ((keys s.wsFds).countP fun fd =>
      s.sessions.any fun c => c.fd = fd && c.handshaken) ≤ s.openLogs := by
    rw [List.countP_eq_length_filter, State.openLogs, List.countP_eq_length_filter,
      ← List.length_map Session.fd]
    refine (List.subperm_of_subset (h.filter _) ?_).length_le
    intro fd hfd
    obtain ⟨c, hc, hclient⟩ := List.any_eq_true.mp (List.mem_filter.mp hfd).2
    obtain ⟨heq, hshaken⟩ := (Bool.and_eq_true _ _).mp hclient
    exact List.mem_map.mpr ⟨c, List.mem_filter.mpr ⟨hc, hshaken⟩, of_decide_eq_true heq⟩
  rw [List.length_eq_countP_add_countP fun fd =>
    s.sessions.any fun c => c.fd = fd && c.handshaken]
  refine Nat.add_le_add hopen (Nat.le_of_eq ?_)
  refine List.countP_congr fun fd _ => ?_
  rw [decide_eq_true_eq, Bool.not_eq_true', Bool.not_eq_true]

theorem length_step (s : State) (e : Event) : (step s e).wsFds.length = s.wsFds.length := by
  cases e with
  | accept fd =>
    rw [step]
    split <;> rfl
  | handshake fd =>
    rw [step]
    split
    · exact length_enter fd s.wsFds
    · rfl
  | close fd => rfl
  | broadcast chunk queued => rfl
  | send i =>
    rw [step]
    split
    · rw [wsSendWork]
      split
      · rfl
      · exact length_leave _ s.wsFds
    · rfl

/-- What a prompt run keeps. -/
structure PromptInv (s : State) : Prop where
  /-- the table and the queue are the log clients' -/
  clients : Clients s
  /-- no descriptor takes two slots -/
  nodup : (keys s.wsFds).Nodup
  /-- the size of the table -/
  slots : s.wsFds.length = kMaxWsClients

theorem PromptInv.step {s : State} (h : PromptInv s) {e : Event} (he : prompt s e = true) :
    PromptInv (step s e) where
  clients := (clients_step_iff h.clients e).mpr ((Bool.and_eq_true _ _).mp he).1
  nodup := nodup_step s e h.nodup
  slots := (length_step s e).trans h.slots

/-- **It is enough** that the table and the queue keep up. -/
theorem PromptInv.logProperty {s : State} (h : PromptInv s) {e : Event} (he : prompt s e = true) :
    logProperty s e = true := by
  cases e with
  | accept fd => rfl
  | close fd => rfl
  | broadcast chunk queued => rfl
  | send i => exact h.clients.logProperty_send i
  | handshake fd =>
    have hroom := ((Bool.and_eq_true _ _).mp he).2
    rw [roomLeft] at hroom
    rw [LogClients.logProperty]
    cases hguard : s.inUse fd && decide (s.openLogs < kMaxWsClients) with
    | false => rfl
    | true =>
      rw [hguard, Bool.not_true, Bool.false_or, decide_eq_true_eq] at hroom
      have hfew : (keys s.wsFds).length < s.wsFds.length := by
        rw [h.slots]
        exact Nat.lt_of_le_of_lt (length_keys_le h.nodup) hroom
      have hstep : (LogClients.step s (.handshake fd)).wsFds = enter fd s.wsFds := by
        rw [LogClients.step, if_pos ((Bool.and_eq_true _ _).mp hguard).1]
        rfl
      rw [hstep, Bool.not_true, Bool.false_or, List.contains_iff_mem]
      exact mem_enter_iff.mpr (.inr (none_mem_of_length_keys_lt hfew))

end PipecatVoice.LogClients
