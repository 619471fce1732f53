import PipecatVoice.Lib.Dedup

/-!
# The events of the StackChan

`StackchanEventObserver` is shown every frame of the pipeline once a hop and sends
a message for each that the device is to know of. The deque `_seen` holds the ids
of the last 256 frames there was a message for: `_once` lets a frame through if
its id is not there. `events_once` says when that is once a frame.
-/

namespace PipecatVoice.Stackchan

/-- The classes `on_push_frame` asks for. -/
inductive FrameClass where
  | userStartedSpeakingFrame
  | userStoppedSpeakingFrame
  | interimTranscriptionFrame
  | transcriptionFrame
  | botStartedSpeakingFrame
  | botStoppedSpeakingFrame
  | ttsTextFrame
  deriving DecidableEq

/-- In the order they are asked for. -/
def FrameClass.all : List FrameClass :=
  [.userStartedSpeakingFrame, .userStoppedSpeakingFrame, .interimTranscriptionFrame,
    .transcriptionFrame, .botStartedSpeakingFrame, .botStoppedSpeakingFrame, .ttsTextFrame]

/-- A frame. -/
structure Frame (τ : Type) where
  /-- what tells it from other frames -/
  id : ℕ
  /-- the classes it is an instance of -/
  isinstance : FrameClass → Bool
  /-- its text, where it has one -/
  text : τ

/-- `msg` -/
inductive Msg (τ : Type) where
  | userStarted
  | userStopped
  | userText (text : τ) (final : Bool)
  | botStarted
  | botStopped
  | botText (text : τ)
  deriving DecidableEq

variable {τ ε : Type}

/-- The message for a frame. -/
def msg? (frame : Frame τ) : Option (Msg τ) :=
  if frame.isinstance .userStartedSpeakingFrame then some .userStarted
  else if frame.isinstance .userStoppedSpeakingFrame then some .userStopped
  else if frame.isinstance .interimTranscriptionFrame then some (.userText frame.text false)
  else if frame.isinstance .transcriptionFrame then some (.userText frame.text true)
  else if frame.isinstance .botStartedSpeakingFrame then some .botStarted
  else if frame.isinstance .botStoppedSpeakingFrame then some .botStopped
  else if frame.isinstance .ttsTextFrame then some (.botText frame.text)
  else none

/-- The maximal length of `_seen`. -/
def seenMaxlen : ℕ := 256

/-- The observer, with the calls of `_send` there have been. -/
structure Observer (τ : Type) where
  /-- `_seen` -/
  seen : Dedup.Deque ℕ seenMaxlen
  /-- what `_send` was called with -/
  attempts : List (Msg τ)

/-- The observer as it is made. -/
def Observer.init : Observer τ := ⟨⟨[], Nat.zero_le _⟩, []⟩

/-- `_once` -/
def Observer.once (self : Observer τ) (frame : Frame τ) : Bool × Observer τ :=
  if frame.id ∈ self.seen.items then (false, self)
  else (true, { self with seen := self.seen.append frame.id })

/-- `_send`: what it raises can depend on all the calls before. -/
def Observer.send (raises : List (Msg τ) → Msg τ → Option ε) (self : Observer τ) (msg : Msg τ) :
    Except ε Unit × Observer τ :=
  (match raises self.attempts msg with
    | some exc => throw exc
    | none => pure (),
  { self with attempts := self.attempts ++ [msg] })

/-- `on_push_frame` -/
def Observer.onPushFrame (raises : List (Msg τ) → Msg τ → Option ε) (self : Observer τ)
    (frame : Frame τ) : Except ε Unit × Observer τ :=
  match msg? frame with
  | none => (pure (), self)
  | some msg =>
    match self.once frame with
    | (false, self) => (pure (), self)
    | (true, self) =>
      let (sent, self) := self.send raises msg
      -- a caption is never worth breaking the pipeline
      (tryCatch sent fun _ => pure (), self)

/-- The observer is shown frames, until one raises. -/
def Observer.observe (raises : List (Msg τ) → Msg τ → Option ε) (self : Observer τ) :
    List (Frame τ) → Except ε Unit × Observer τ
  | [] => (pure (), self)
  | frame :: frames =>
    match self.onPushFrame raises frame with
    | (.ok _, self) => self.observe raises frames
    | (.error exc, self) => (throw exc, self)

/-! ## One frame -/

/-- A frame of a class there is a message for. -/
def Frame.mapped (frame : Frame τ) : Bool := FrameClass.all.any frame.isinstance

theorem isSome_msg? (frame : Frame τ) : (msg? frame).isSome = frame.mapped := by
  unfold msg? Frame.mapped FrameClass.all
  split_ifs <;> simp_all

/-- A frame with a message, whose id is in the history or else enters it. -/
def Observer.record (self : Observer τ) (frame : Frame τ) (msg : Msg τ) : Observer τ :=
  if frame.id ∈ self.seen.items then self
  else ⟨self.seen.append frame.id, self.attempts ++ [msg]⟩

/-- **A frame** does the same whatever `_send` raises, and raises nothing. -/
theorem onPushFrame_eq (raises : List (Msg τ) → Msg τ → Option ε) (self : Observer τ)
    (frame : Frame τ) : self.onPushFrame raises frame =
      (.ok (), (msg? frame).elim self (self.record frame)) := by
  rw [Observer.onPushFrame]
  cases msg? frame with
  | none => rfl
  | some msg =>
    rw [Observer.once, Option.elim_some, Observer.record]
    split_ifs
    · rfl
    · cases hraises : raises self.attempts msg with
      | none => simp only [Observer.send, hraises]; rfl
      | some exc => simp only [Observer.send, hraises]; rfl

/-- Frames no message is sent for leave no trace. -/
theorem onPushFrame_unmapped (raises : List (Msg τ) → Msg τ → Option ε) (self : Observer τ)
    {frame : Frame τ} (h : frame.mapped = false) :
    self.onPushFrame raises frame = (.ok (), self) := by
  rw [← isSome_msg?, Option.isSome_eq_false_iff, Option.isNone_iff_eq_none] at h
  rw [onPushFrame_eq, h]
  rfl

/-! ## All frames -/

/-- The observer, as a filter of the frames there is a message for. -/
structure Follows (o : Observer τ) (s : Dedup.Filter (Frame τ) ℕ seenMaxlen) : Prop where
  /-- it remembers the same -/
  seen : o.seen = s.seen
  /-- a message has gone out for each frame passed on -/
  attempts : o.attempts.map some = s.passed.map msg?

theorem follows_init : Follows (Observer.init : Observer τ) Dedup.Filter.init := ⟨rfl, rfl⟩

theorem Follows.record {self : Observer τ} {s : Dedup.Filter (Frame τ) ℕ seenMaxlen}
    (h : Follows self s) {frame : Frame τ} {msg : Msg τ} (hmsg : msg? frame = some msg) :
    Follows (self.record frame msg) (s.step Frame.id frame) := by
  have hseen := h.seen
  rw [Observer.record, Dedup.Filter.step, hseen]
  split_ifs
  · exact h
  · refine ⟨rfl, ?_⟩
    rw [List.map_append, List.map_append, h.attempts, List.map_singleton, List.map_singleton, hmsg]

/-- **The observer filters the frames there is a message for**, and raises nothing. -/
theorem observe_follows (raises : List (Msg τ) → Msg τ → Option ε) (frames : List (Frame τ)) :
    ∀ {self : Observer τ} {s : Dedup.Filter (Frame τ) ℕ seenMaxlen}, Follows self s →
      ∃ self', self.observe raises frames = (.ok (), self') ∧
        Follows self' (Runs.run (Dedup.Filter.step Frame.id) s (frames.filter Frame.mapped)) := by
  induction frames with
  | nil => exact fun h => ⟨_, rfl, h⟩
  | cons frame frames ih =>
    intro self s h
    rw [Observer.observe, onPushFrame_eq]
    have hmapped := isSome_msg? frame
    cases hmsg : msg? frame with
    | none =>
      rw [hmsg] at hmapped
      rw [List.filter_cons_of_neg (by rw [← hmapped]; exact Bool.false_ne_true)]
      exact ih h
    | some msg =>
      rw [hmsg] at hmapped
      rw [List.filter_cons_of_pos hmapped.symm]
      exact ih (h.record hmsg)

/-- **Every frame once**: if between the first observation of a frame there is a
message for and each later one at most 255 other such frames come up for the first
time, then whatever `_send` raises, nothing is raised and `_send` has been called
once for each of these frames, with its message, in the order they came up. Other
frames leave no trace. -/
theorem events_once (frames : List (Frame τ))
    (h : Dedup.Spaced 255 ((frames.filter Frame.mapped).map Frame.id)) :
    (∀ raises : List (Msg τ) → Msg τ → Option ε,
      ∃ self, Observer.init.observe raises frames = (.ok (), self) ∧
        self.attempts.map some =
          (Dedup.firsts Frame.id (frames.filter Frame.mapped)).map msg?) ∧
    ∀ (raises : List (Msg τ) → Msg τ → Option ε) (self : Observer τ) (frame : Frame τ),
      frame.mapped = false → self.onPushFrame raises frame = (.ok (), self) := by
  refine ⟨?_, fun raises self frame => onPushFrame_unmapped raises self⟩
  intro raises
  obtain ⟨self, hrun, hfollows⟩ := observe_follows raises frames follows_init
  refine ⟨self, hrun, ?_⟩
  rw [hfollows.attempts, ← (Dedup.passed_eq_firsts_iff _).mpr h]
  rfl

/-- A word the bot says. -/
def wordFrame (id : ℕ) : Frame ℕ := ⟨id, fun c => c = .ttsTextFrame, id⟩

/-- Two words, each seen at three hops. -/
def wordHops : List (Frame ℕ) :=
  [wordFrame 1, wordFrame 2, wordFrame 1, wordFrame 2, wordFrame 2, wordFrame 1]

/-- They are sent once, although each call fails. -/
theorem events_once_wordHops :
    ∃ self, Observer.init.observe (fun _ _ => some ()) wordHops = (.ok (), self) ∧
      self.attempts = [.botText 1, .botText 2] := by
  have hspaced : Dedup.Spaced 255 ((wordHops.filter Frame.mapped).map Frame.id) :=
    (Dedup.passed_eq_firsts_iff _).mp rfl
  obtain ⟨self, hrun, hattempts⟩ := (events_once wordHops hspaced).1 fun _ _ => some ()
  exact ⟨self, hrun, List.map_injective_iff.mpr (Option.some_injective _) hattempts⟩

/-- **The bound is exact**: on other orders some frame is sent for again. -/
theorem length_attempts_eq_iff (raises : List (Msg τ) → Msg τ → Option ε)
    (frames : List (Frame τ)) :
    (Observer.init.observe raises frames).2.attempts.length =
        (Dedup.firsts Frame.id (frames.filter Frame.mapped)).length ↔
      Dedup.Spaced 255 ((frames.filter Frame.mapped).map Frame.id) := by
  obtain ⟨self, hrun, hfollows⟩ := observe_follows raises frames follows_init
  have hlen := congrArg List.length hfollows.attempts
  rw [List.length_map, List.length_map] at hlen
  rw [hrun, hlen, ← Dedup.passed_eq_firsts_iff]
  exact ⟨Dedup.passed_eq_of_length, congrArg List.length⟩

end PipecatVoice.Stackchan
