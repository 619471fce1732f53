import Mathlib.Data.List.Sort
import PipecatVoice.Lib.Runs
import PipecatVoice.WakeDetector

/-!
# Uploading the audio of a wake word

On a fire the capture task stores the audio and the metrics of the fire under
`wake_mtx_` and notifies the uploader. The uploader takes the notifications,
copies the snapshot under the mutex and posts it; the web server copies the same
snapshot whenever it is asked to. There is one snapshot, overwritten by every
fire, and the notifications say how many fires there were, not which.

* `captureStep`, `uploadStep`, `webStep` — the tasks, one access a step;
* `Sound` — what holds after any schedule;
* `uploads_increasing_iff` — the schedules in which no fire is posted twice.
-/

namespace PipecatVoice.WakeUpload

/-! ## The snapshot -/

/-- `kWakeSampleRate` -/
def wakeSampleRate : ℕ := 16000

/-- `kWakeCaptureSamples` -/
def wakeCaptureSamples : ℕ := wakeSampleRate * 3

/-- The low bytes of a number, least significant first. -/
def leBytes (width n : ℕ) : List UInt8 :=
  (List.range width).map fun i => UInt8.ofNat (n >>> (8 * i))

/-- `makeWav`: mono 16-bit samples behind a header of 44 bytes. -/
def makeWav (pcm : List Int16) (sr : ℕ) : List UInt8 :=
  let dataBytes := pcm.length * 2
  "RIFF".toUTF8.toList ++ leBytes 4 (36 + dataBytes) ++ "WAVE".toUTF8.toList ++
  "fmt ".toUTF8.toList ++ leBytes 4 16 ++ leBytes 2 1 ++ leBytes 2 1 ++ leBytes 4 sr ++
  leBytes 4 (sr * 2) ++ leBytes 2 2 ++ leBytes 2 16 ++
  "data".toUTF8.toList ++ leBytes 4 dataBytes ++
  pcm.flatMap fun x => leBytes 2 x.toUInt16.toNat

/-- What a fire brings: the audio in the rolling buffer, and the metrics the
detector published. -/
structure Fire where
  /-- the rolling buffer, oldest sample first -/
  pcm : List Int16
  /-- it holds this many at most -/
  length_le : pcm.length ≤ wakeCaptureSamples
  /-- `WakeEngine::lastMetrics` -/
  metrics : WakeMetrics

/-- An upload: the body, and the fields of the query. -/
structure Post where
  /-- the fire that wrote the audio copied -/
  fire : ℕ
  /-- the WAV file -/
  body : List UInt8
  /-- the metrics, with the fire's own sequence number -/
  metrics : WakeMetrics
  /-- `samples` -/
  samples : ℕ
  /-- `uptime` -/
  uptime : UInt32

/-! ## The tasks -/

/-- The tasks that take `wake_mtx_`. -/
inductive Task where
  | capture
  | upload
  | web
  deriving DecidableEq

/-- Where the capture task is. -/
inductive CapturePc where
  | listen
  | lock
  | copyPcm
  | storeLen
  | storeMetrics
  | bumpSeq
  | notify
  | unlock
  deriving DecidableEq

/-- Where the uploader is. -/
inductive UploadPc where
  | take
  | lock
  | testLen
  | copyMetrics
  | unlock
  | unlockNone
  | post
  | posting
  deriving DecidableEq

/-- Where the web server is. -/
inductive WebPc where
  | idle
  | lock
  | copy
  deriving DecidableEq

/-- The members the tasks share. Fires are numbered from one. -/
structure Shared where
  /-- the owner of `wake_mtx_` -/
  wakeMtx : Option Task
  /-- `wake_pcm_` -/
  wakePcm : List Int16
  /-- the fire that wrote it -/
  pcmFire : ℕ
  /-- `wake_pcm_len_` -/
  wakePcmLen : ℕ
  /-- `wake_metrics_` -/
  wakeMetrics : WakeMetrics
  /-- `wake_capture_seq_` -/
  wakeCaptureSeq : UInt32
  /-- the uploader's notification count -/
  notified : UInt32
  /-- the fires so far -/
  fires : List Fire
  /-- the uploads so far -/
  posts : List Post

/-- The capture task. -/
structure CaptureTask where
  /-- the program counter -/
  pc : CapturePc
  /-- the number of the fire being stored -/
  number : ℕ
  /-- the fire being stored -/
  fire : Fire

/-- The uploader. -/
structure UploadTask where
  /-- the program counter -/
  pc : UploadPc
  /-- the upload being put together -/
  upload : Post
  /-- `seq`, for the log -/
  seq : UInt32

/-- The whole system. -/
structure State where
  /-- the shared members -/
  sh : Shared
  /-- the capture task -/
  cap : CaptureTask
  /-- the uploader -/
  up : UploadTask
  /-- the web server -/
  web : WebPc

/-- One step of the capture task; `fired` is the fire `detected()` reports. -/
def captureStep (fired : Option Fire) (sh : Shared) (c : CaptureTask) : Shared × CaptureTask :=
  match c.pc with
  | .listen =>
    match fired with
    | none => (sh, c)
    | some fire =>
      ({ sh with fires := sh.fires ++ [fire] }, ⟨.lock, sh.fires.length + 1, fire⟩)
  | .lock =>
    if sh.wakeMtx = none then ({ sh with wakeMtx := some .capture }, { c with pc := .copyPcm })
    else (sh, c)
  | .copyPcm =>
    -- what the buffer held beyond the samples copied stays there
    ({ sh with
        wakePcm := c.fire.pcm ++ sh.wakePcm.drop c.fire.pcm.length
        pcmFire := c.number },
      { c with pc := .storeLen })
  | .storeLen => ({ sh with wakePcmLen := c.fire.pcm.length }, { c with pc := .storeMetrics })
  | .storeMetrics => ({ sh with wakeMetrics := c.fire.metrics }, { c with pc := .bumpSeq })
  | .bumpSeq => ({ sh with wakeCaptureSeq := sh.wakeCaptureSeq + 1 }, { c with pc := .notify })
  | .notify => ({ sh with notified := sh.notified + 1 }, { c with pc := .unlock })
  | .unlock => ({ sh with wakeMtx := none }, { c with pc := .listen })

/-- One step of the uploader; `uptime` is the time `esp_log_timestamp` reads. -/
def uploadStep (uptime : UInt32) (sh : Shared) (u : UploadTask) : Shared × UploadTask :=
  match u.pc with
  | .take =>
    if sh.notified = 0 then (sh, u) else ({ sh with notified := 0 }, { u with pc := .lock })
  -- `getWakeSampleUpload`
  | .lock =>
    if sh.wakeMtx = none then ({ sh with wakeMtx := some .upload }, { u with pc := .testLen })
    else (sh, u)
  | .testLen =>
    if sh.wakePcmLen = 0 then (sh, { u with pc := .unlockNone })
    else
      (sh, { u with
        upload := { u.upload with
          fire := sh.pcmFire
          body := makeWav (sh.wakePcm.take sh.wakePcmLen) wakeSampleRate }
        pc := .copyMetrics })
  | .copyMetrics =>
    (sh, { u with
      upload := { u.upload with
        metrics := sh.wakeMetrics
        samples := sh.wakePcmLen
        uptime := uptime }
      seq := sh.wakeCaptureSeq
      pc := .unlock })
  | .unlock => ({ sh with wakeMtx := none }, { u with pc := .post })
  | .unlockNone => ({ sh with wakeMtx := none }, { u with pc := .take })
  | .post => ({ sh with posts := sh.posts ++ [u.upload] }, { u with pc := .posting })
  | .posting => (sh, { u with pc := .take })

/-- One step of the web server, which serves `/wake.wav` and `/wake.json`. -/
def webStep (sh : Shared) (pc : WebPc) : Shared × WebPc :=
  match pc with
  | .idle => (sh, .lock)
  | .lock => if sh.wakeMtx = none then ({ sh with wakeMtx := some .web }, .copy) else (sh, .lock)
  | .copy => ({ sh with wakeMtx := none }, .idle)

/-! ## The system -/

/-- What happens next. -/
inductive Action where
  /-- the capture task takes a step -/
  | capture (fired : Option Fire)
  /-- the uploader takes a step -/
  | upload (uptime : UInt32)
  /-- the web server takes a step -/
  | web

/-- One action. -/
def step (s : State) : Action → State
  | .capture fired =>
    { s with sh := (captureStep fired s.sh s.cap).1, cap := (captureStep fired s.sh s.cap).2 }
  | .upload uptime =>
    { s with sh := (uploadStep uptime s.sh s.up).1, up := (uploadStep uptime s.sh s.up).2 }
  | .web => { s with sh := (webStep s.sh s.web).1, web := (webStep s.sh s.web).2 }

/-- No metrics yet. -/
def noMetrics : WakeMetrics := ⟨0, 0, 0, 0, []⟩

/-- The state at start. -/
def start : State where
  sh :=
    { wakeMtx := none
      wakePcm := []
      pcmFire := 0
      wakePcmLen := 0
      wakeMetrics := noMetrics
      wakeCaptureSeq := 0
      notified := 0
      fires := []
      posts := [] }
  cap := ⟨.listen, 0, ⟨[], Nat.zero_le _, noMetrics⟩⟩
  up := ⟨.take, ⟨0, [], noMetrics, 0, 0⟩, 0⟩
  web := .idle

@[simp] theorem step_capture (s : State) (fired : Option Fire) : step s (.capture fired) =
    { s with
      sh := (captureStep fired s.sh s.cap).1
      cap := (captureStep fired s.sh s.cap).2 } := rfl

@[simp] theorem step_upload (s : State) (uptime : UInt32) : step s (.upload uptime) =
    { s with sh := (uploadStep uptime s.sh s.up).1, up := (uploadStep uptime s.sh s.up).2 } := rfl

@[simp] theorem step_web (s : State) :
    step s .web = { s with sh := (webStep s.sh s.web).1, web := (webStep s.sh s.web).2 } := rfl

/-! ## The mutex -/

/-- The capture task owns `wake_mtx_`. -/
def CapturePc.holdsMtx : CapturePc → Bool
  | .listen | .lock => false
  | _ => true

/-- The uploader owns `wake_mtx_`. -/
def UploadPc.holdsMtx : UploadPc → Bool
  | .testLen | .copyMetrics | .unlock | .unlockNone => true
  | _ => false

/-- The web server owns `wake_mtx_`. -/
def WebPc.holdsMtx : WebPc → Bool
  | .copy => true
  | _ => false

/-- A task is in its critical section exactly when it owns the mutex. -/
structure MtxInv (s : State) : Prop where
  capture : s.cap.pc.holdsMtx ↔ s.sh.wakeMtx = some .capture
  upload : s.up.pc.holdsMtx ↔ s.sh.wakeMtx = some .upload
  web : s.web.holdsMtx ↔ s.sh.wakeMtx = some .web

theorem MtxInv.step {s : State} (h : MtxInv s) (a : Action) : MtxInv (step s a) := by
  obtain ⟨hcap, hup, hweb⟩ := h
  cases a with
  | capture fired =>
    cases hpc : s.cap.pc <;> rw [hpc] at hcap <;> simp only [step_capture, captureStep, hpc]
    case listen => cases fired <;> constructor <;> simp_all [CapturePc.holdsMtx]
    case lock =>
      split <;> constructor <;> simp_all [CapturePc.holdsMtx]
    all_goals
      constructor <;> simp_all [CapturePc.holdsMtx]
  | upload uptime =>
    cases hpc : s.up.pc <;> rw [hpc] at hup <;> simp only [step_upload, uploadStep, hpc]
    all_goals
      (try split) <;> constructor <;> simp_all [UploadPc.holdsMtx]
  | web =>
    cases hpc : s.web <;> rw [hpc] at hweb <;> simp only [step_web, webStep, hpc]
    all_goals
      (try split) <;> constructor <;> simp_all [WebPc.holdsMtx]

/-! ## The snapshot is of one fire -/

/-- The capture task has overwritten part of the snapshot. -/
def CapturePc.tears : CapturePc → Bool
  | .storeLen | .storeMetrics => true
  | _ => false

/-- The snapshot is empty, or the audio and the metrics of one fire. -/
def Whole (sh : Shared) : Prop :=
  sh.wakePcmLen = 0 ∨
    ∃ i fire, sh.pcmFire = i + 1 ∧ sh.fires[i]? = some fire ∧
      sh.wakePcm.take sh.wakePcmLen = fire.pcm ∧ sh.wakePcmLen = fire.pcm.length ∧
      sh.wakeMetrics = fire.metrics

/-- What holds of the snapshot while the capture task stores it. -/
structure SnapInv (sh : Shared) (c : CaptureTask) : Prop where
  /-- the fire being stored is the latest -/
  current : c.pc ≠ .listen → ∃ older, sh.fires = older ++ [c.fire] ∧ c.number = older.length + 1
  /-- the snapshot is of a fire so far -/
  le : sh.pcmFire ≤ sh.fires.length
  /-- an older one, before the new one is stored -/
  older : c.pc = .lock ∨ c.pc = .copyPcm → sh.pcmFire < c.number
  /-- the audio is stored first -/
  audio : c.pc.tears → sh.pcmFire = c.number ∧
    sh.wakePcm.take c.fire.pcm.length = c.fire.pcm
  /-- then its length -/
  length : c.pc = .storeMetrics → sh.wakePcmLen = c.fire.pcm.length
  /-- before and after, it is whole -/
  whole : ¬ c.pc.tears → Whole sh

/-- A new fire leaves the snapshot whole. -/
theorem Whole.fire {sh : Shared} (h : Whole sh) (fire : Fire) :
    Whole { sh with fires := sh.fires ++ [fire] } := by
  obtain hlen | ⟨i, f, hi, hf, hrest⟩ := h
  · exact Or.inl hlen
  · refine Or.inr ⟨i, f, hi, ?_, hrest⟩
    obtain ⟨hlt, -⟩ := List.getElem?_eq_some_iff.mp hf
    rw [List.getElem?_append_left hlt]
    exact hf

theorem SnapInv.capture {sh : Shared} {c : CaptureTask} (h : SnapInv sh c) (fired : Option Fire) :
    SnapInv (captureStep fired sh c).1 (captureStep fired sh c).2 := by
  obtain ⟨hcurrent, hle, holder, haudio, hlength, hwhole⟩ := h
  obtain ⟨pc, number, fire⟩ := c
  cases pc with
  | listen =>
    cases fired with
    | none => exact ⟨hcurrent, hle, holder, haudio, hlength, hwhole⟩
    | some f =>
      refine ⟨fun _ => ⟨sh.fires, rfl, rfl⟩, ?_, fun _ => Nat.lt_succ_of_le hle, nofun, nofun,
        fun _ => (hwhole nofun).fire f⟩
      exact hle.trans (by simp [captureStep])
  | lock =>
    simp only [captureStep]
    split
    · exact ⟨fun _ => hcurrent nofun, hle, fun _ => holder (Or.inl rfl), nofun, nofun,
        fun _ => hwhole nofun⟩
    · exact ⟨hcurrent, hle, holder, haudio, hlength, hwhole⟩
  | copyPcm =>
    obtain ⟨older, hfires, hnumber⟩ := hcurrent nofun
    refine ⟨fun _ => ⟨older, hfires, hnumber⟩, ?_, nofun, fun _ => ⟨rfl, ?_⟩, nofun, ?_⟩
    · obtain rfl : number = older.length + 1 := hnumber
      show older.length + 1 ≤ sh.fires.length
      rw [hfires, List.length_append]
      rfl
    · exact List.take_left
    · exact fun htears => absurd rfl htears
  | storeLen =>
    refine ⟨fun _ => hcurrent nofun, hle, nofun, fun _ => haudio rfl, fun _ => rfl, ?_⟩
    exact fun htears => absurd rfl htears
  | storeMetrics =>
    obtain ⟨older, hfires, hnumber⟩ := hcurrent nofun
    obtain ⟨hpcm, htake⟩ := haudio rfl
    refine ⟨fun _ => ⟨older, hfires, hnumber⟩, hle, nofun, nofun, nofun, fun _ => Or.inr ?_⟩
    refine ⟨older.length, fire, hpcm.trans hnumber, ?_, ?_, hlength rfl, rfl⟩
    · show sh.fires[older.length]? = some fire
      rw [hfires]
      exact List.getElem?_concat_length
    · show sh.wakePcm.take sh.wakePcmLen = fire.pcm
      rw [hlength rfl]
      exact htake
  | bumpSeq | notify =>
    exact ⟨fun _ => hcurrent nofun, hle, nofun, nofun, nofun, fun _ => hwhole nofun⟩
  | unlock => exact ⟨nofun, hle, nofun, nofun, nofun, fun _ => hwhole nofun⟩

/-! ## An upload is of one fire -/

/-- The audio and the metrics of one fire, and the fire's number. -/
def PostOk (fires : List Fire) (p : Post) : Prop :=
  ∃ i fire, p.fire = i + 1 ∧ fires[i]? = some fire ∧
    p.body = makeWav fire.pcm wakeSampleRate ∧ p.metrics = fire.metrics ∧
    p.samples = fire.pcm.length

theorem PostOk.append {fires : List Fire} {p : Post} (h : PostOk fires p) (later : List Fire) :
    PostOk (fires ++ later) p := by
  obtain ⟨i, fire, hi, hfire, hrest⟩ := h
  refine ⟨i, fire, hi, ?_, hrest⟩
  obtain ⟨hlt, -⟩ := List.getElem?_eq_some_iff.mp hfire
  rw [List.getElem?_append_left hlt]
  exact hfire

/-- What holds of the upload being put together. -/
structure UploadInv (sh : Shared) (u : UploadTask) : Prop where
  /-- the uploads so far are of one fire each -/
  posts : ∀ p ∈ sh.posts, PostOk sh.fires p
  /-- the audio copied is that of the snapshot -/
  body : u.pc = .copyMetrics → u.upload.fire = sh.pcmFire ∧ sh.wakePcmLen ≠ 0 ∧
    u.upload.body = makeWav (sh.wakePcm.take sh.wakePcmLen) wakeSampleRate
  /-- the upload is complete -/
  ready : u.pc = .unlock ∨ u.pc = .post → PostOk sh.fires u.upload

/-- The capture task adds fires, and changes the snapshot inside its critical
section only. -/
theorem captureStep_frame (fired : Option Fire) (sh : Shared) (c : CaptureTask) :
    (captureStep fired sh c).1.posts = sh.posts ∧
      (∃ later, (captureStep fired sh c).1.fires = sh.fires ++ later) ∧
      (¬ c.pc.holdsMtx → (captureStep fired sh c).1.pcmFire = sh.pcmFire ∧
        (captureStep fired sh c).1.wakePcmLen = sh.wakePcmLen ∧
        (captureStep fired sh c).1.wakePcm = sh.wakePcm) := by
  obtain ⟨pc, _⟩ := c
  cases pc <;> simp only [captureStep]
  case listen => cases fired <;> simp
  case lock => split <;> simp
  all_goals
    simp [CapturePc.holdsMtx]

/-- The uploader leaves the snapshot and the fires alone. -/
theorem uploadStep_frame (uptime : UInt32) (sh : Shared) (u : UploadTask) :
    let sh' := (uploadStep uptime sh u).1
    sh'.pcmFire = sh.pcmFire ∧ sh'.wakePcmLen = sh.wakePcmLen ∧ sh'.wakePcm = sh.wakePcm ∧
      sh'.wakeMetrics = sh.wakeMetrics ∧ sh'.fires = sh.fires ∧
      sh'.posts = sh.posts ++ if u.pc = .post then [u.upload] else [] := by
  obtain ⟨pc, _⟩ := u
  cases pc <;> simp only [uploadStep]
  all_goals
    (repeat' split) <;> simp_all

/-- The web server changes nothing but the mutex. -/
theorem webStep_frame (sh : Shared) (pc : WebPc) :
    ∃ mtx, (webStep sh pc).1 = { sh with wakeMtx := mtx } := by
  cases pc <;> simp only [webStep]
  case lock =>
    split
    · exact ⟨_, rfl⟩
    · exact ⟨sh.wakeMtx, rfl⟩
  case idle => exact ⟨sh.wakeMtx, rfl⟩
  case copy => exact ⟨_, rfl⟩

theorem Whole.congr {sh sh' : Shared} (h : Whole sh) (hfire : sh'.pcmFire = sh.pcmFire)
    (hlen : sh'.wakePcmLen = sh.wakePcmLen) (hpcm : sh'.wakePcm = sh.wakePcm)
    (hmetrics : sh'.wakeMetrics = sh.wakeMetrics) (hfires : sh'.fires = sh.fires) : Whole sh' := by
  rw [Whole, hfire, hlen, hpcm, hmetrics, hfires]
  exact h

theorem SnapInv.congr {sh sh' : Shared} {c : CaptureTask} (h : SnapInv sh c)
    (hfire : sh'.pcmFire = sh.pcmFire) (hlen : sh'.wakePcmLen = sh.wakePcmLen)
    (hpcm : sh'.wakePcm = sh.wakePcm) (hmetrics : sh'.wakeMetrics = sh.wakeMetrics)
    (hfires : sh'.fires = sh.fires) : SnapInv sh' c := by
  refine ⟨?_, ?_, ?_, ?_, ?_, ?_⟩
  · rw [hfires]
    exact h.current
  · rw [hfire, hfires]
    exact h.le
  · rw [hfire]
    exact h.older
  · rw [hfire, hpcm]
    exact h.audio
  · rw [hlen]
    exact h.length
  · exact fun htears => (h.whole htears).congr hfire hlen hpcm hmetrics hfires

/-- What holds after any schedule. -/
structure Sound (s : State) : Prop where
  mtx : MtxInv s
  snap : SnapInv s.sh s.cap
  upload : UploadInv s.sh s.up

theorem sound_start : Sound start where
  mtx := ⟨by decide, by decide, by decide⟩
  snap := ⟨nofun, Nat.le_refl 0, nofun, nofun, nofun, fun _ => Or.inl rfl⟩
  upload := ⟨nofun, nofun, nofun⟩

/-- The two critical sections do not overlap. -/
theorem Sound.not_tears {s : State} (h : Sound s) (hup : s.up.pc.holdsMtx) :
    ¬ s.cap.pc.holdsMtx := by
  intro hcap
  have howner := h.mtx.upload.mp hup
  rw [h.mtx.capture.mp hcap] at howner
  cases howner

theorem Sound.whole {s : State} (h : Sound s) (hup : s.up.pc.holdsMtx) : Whole s.sh := by
  have hholds := h.not_tears hup
  refine h.snap.whole fun htears => hholds ?_
  cases hpc : s.cap.pc <;> rw [hpc] at htears <;> first | rfl | cases htears

theorem UploadInv.capture {s : State} (h : Sound s) (fired : Option Fire) :
    UploadInv (captureStep fired s.sh s.cap).1 s.up := by
  obtain ⟨hposts, ⟨later, hfires⟩, hsame⟩ := captureStep_frame fired s.sh s.cap
  refine ⟨?_, ?_, ?_⟩
  · rw [hposts, hfires]
    exact fun p hp => (h.upload.posts p hp).append later
  · intro hpc
    obtain ⟨hfire, hlen, hpcm⟩ := hsame (h.not_tears (by rw [hpc]; rfl))
    rw [hfire, hlen, hpcm]
    exact h.upload.body hpc
  · rw [hfires]
    exact fun hpc => (h.upload.ready hpc).append later

theorem UploadInv.upload {s : State} (h : Sound s) (uptime : UInt32) :
    UploadInv (uploadStep uptime s.sh s.up).1 (uploadStep uptime s.sh s.up).2 := by
  have hwhole := h.whole
  obtain ⟨hposts, hbody, hready⟩ := h.upload
  rcases hu : s.up with ⟨pc, upload, seq⟩
  rw [hu] at hwhole hbody hready
  cases pc with
  | take | lock =>
    simp only [uploadStep]
    split <;> exact ⟨hposts, nofun, nofun⟩
  | testLen =>
    simp only [uploadStep]
    split
    · exact ⟨hposts, nofun, nofun⟩
    · exact ⟨hposts, fun _ => ⟨rfl, ‹_›, rfl⟩, nofun⟩
  | copyMetrics =>
    obtain ⟨hfire, hlen, hwav⟩ := hbody rfl
    refine ⟨hposts, nofun, fun _ => ?_⟩
    obtain hzero | ⟨i, fire, hi, hget, htake, hlength, hmetrics⟩ := hwhole rfl
    · exact absurd hzero hlen
    · exact ⟨i, fire, hfire.trans hi, hget, hwav.trans (by rw [htake]), hmetrics, hlength⟩
  | unlock => exact ⟨hposts, nofun, fun _ => hready (Or.inl rfl)⟩
  | post =>
    refine ⟨?_, nofun, nofun⟩
    intro p hp
    obtain hold | hnew := List.mem_append.mp hp
    · exact hposts p hold
    · rw [List.mem_singleton.mp hnew]
      exact hready (Or.inr rfl)
  | unlockNone | posting => exact ⟨hposts, nofun, nofun⟩

theorem Sound.step {s : State} (h : Sound s) (a : Action) : Sound (step s a) := by
  have hmtx := h.mtx.step a
  cases a with
  | capture fired => exact ⟨hmtx, h.snap.capture fired, UploadInv.capture h fired⟩
  | upload uptime =>
    obtain ⟨hfire, hlen, hpcm, hmetrics, hfires, -⟩ := uploadStep_frame uptime s.sh s.up
    exact ⟨hmtx, h.snap.congr hfire hlen hpcm hmetrics hfires, UploadInv.upload h uptime⟩
  | web =>
    obtain ⟨mtx, hweb⟩ := webStep_frame s.sh s.web
    refine ⟨hmtx, ?_, ?_⟩
    · rw [step_web, hweb]
      exact h.snap.congr rfl rfl rfl rfl rfl
    · rw [step_web, hweb]
      exact ⟨h.upload.posts, h.upload.body, h.upload.ready⟩

/-! ## The order of the uploads -/

/-- What a history of copies and fires records. -/
structure Copies where
  /-- a fire has been stored since the last copy -/
  since : Bool
  /-- a fire was stored between the last copy and the one before -/
  fresh : Bool

/-- The history after an action. -/
def record (h : Copies) (s : State) : Action → Copies
  | .capture _ => if s.cap.pc = .copyPcm then { h with since := true } else h
  | .upload _ => if s.up.pc = .testLen ∧ s.sh.wakePcmLen ≠ 0 then ⟨false, h.since⟩ else h
  | .web => h

/-- Only a copy that found a new fire is posted. -/
def postsFresh (x : State × Copies) : Action → Bool
  | .upload _ => x.1.up.pc != .post || x.2.fresh
  | .capture _ | .web => true

/-- There is a copy that has not been posted yet. -/
def UploadPc.pending : UploadPc → Bool
  | .copyMetrics | .unlock | .post => true
  | _ => false

theorem captureStep_pcmFire (fired : Option Fire) (sh : Shared) (c : CaptureTask) :
    (captureStep fired sh c).1.pcmFire = if c.pc = .copyPcm then c.number else sh.pcmFire := by
  obtain ⟨pc, _⟩ := c
  cases pc <;> simp only [captureStep]
  all_goals
    (repeat' split) <;> simp_all

/-- The fire copied last against the snapshot and the uploads. -/
structure OrderInv (x : State × Copies) : Prop where
  sound : Sound x.1
  /-- the snapshot is not older than the copy -/
  le : x.1.up.upload.fire ≤ x.1.sh.pcmFire
  /-- it is newer if a fire was stored since -/
  since : x.2.since ↔ x.1.up.upload.fire < x.1.sh.pcmFire
  /-- nothing newer has been posted -/
  posts_le : ∀ p ∈ x.1.sh.posts, p.fire ≤ x.1.up.upload.fire
  /-- the last copy has been posted -/
  posted : ¬ x.1.up.pc.pending → x.1.up.upload.fire ≠ 0 →
    ∃ p ∈ x.1.sh.posts, p.fire = x.1.up.upload.fire
  /-- a copy to be posted is of a new fire -/
  fresh : x.1.up.pc.pending → x.2.fresh → ∀ p ∈ x.1.sh.posts, p.fire < x.1.up.upload.fire
  /-- or of the fire posted last -/
  stale : x.1.up.pc.pending → ¬ x.2.fresh → ∃ p ∈ x.1.sh.posts, p.fire = x.1.up.upload.fire

theorem OrderInv.capture {x : State × Copies} (h : OrderInv x) (fired : Option Fire) :
    OrderInv (Runs.observe step record x (.capture fired)) := by
  obtain ⟨s, c⟩ := x
  have hsound := h.sound.step (.capture fired)
  obtain ⟨hposts, -, -⟩ := captureStep_frame fired s.sh s.cap
  have hfire := captureStep_pcmFire fired s.sh s.cap
  by_cases hpc : s.cap.pc = .copyPcm
  · -- the fire being stored is later than the one in the snapshot
    have hlater : s.sh.pcmFire < s.cap.number := h.sound.snap.older (Or.inr hpc)
    have hle : s.up.upload.fire ≤ s.sh.pcmFire := h.le
    rw [if_pos hpc] at hfire
    have hlt : s.up.upload.fire < (captureStep fired s.sh s.cap).1.pcmFire := by
      rw [hfire]
      exact hle.trans_lt hlater
    refine ⟨hsound, hlt.le, ?_, ?_, ?_, ?_, ?_⟩ <;>
      simp only [Runs.observe_fst, Runs.observe_snd, step_capture, record, hposts, if_pos hpc]
    · exact iff_of_true trivial hlt
    · exact h.posts_le
    · exact h.posted
    · exact h.fresh
    · exact h.stale
  · rw [if_neg hpc] at hfire
    refine ⟨hsound, ?_, ?_, ?_, ?_, ?_, ?_⟩ <;>
      simp only [Runs.observe_fst, Runs.observe_snd, step_capture, record, hposts, hfire,
        if_neg hpc]
    · exact h.le
    · exact h.since
    · exact h.posts_le
    · exact h.posted
    · exact h.fresh
    · exact h.stale

/-- Steps of the uploader that neither copy nor post. -/
theorem OrderInv.of_same {x : State × Copies} (h : OrderInv x) {s' : State} (hsound : Sound s')
    (hfire : s'.sh.pcmFire = x.1.sh.pcmFire) (hposts : s'.sh.posts = x.1.sh.posts)
    (hupload : s'.up.upload.fire = x.1.up.upload.fire)
    (hpending : s'.up.pc.pending = x.1.up.pc.pending) : OrderInv (s', x.2) := by
  refine ⟨hsound, ?_, ?_, ?_, ?_, ?_, ?_⟩ <;> simp only [hfire, hposts, hupload, hpending]
  · exact h.le
  · exact h.since
  · exact h.posts_le
  · exact h.posted
  · exact h.fresh
  · exact h.stale

/-- The uploader copies the snapshot. -/
theorem OrderInv.copy {x : State × Copies} (h : OrderInv x) (uptime : UInt32)
    (hpc : x.1.up.pc = .testLen) (hlen : x.1.sh.wakePcmLen ≠ 0) :
    OrderInv (Runs.observe step record x (.upload uptime)) := by
  have hwhole : Whole x.1.sh := h.sound.whole (by rw [hpc]; rfl)
  obtain ⟨s, c⟩ := x
  have hsound := h.sound.step (.upload uptime)
  replace hpc : s.up.pc = .testLen := hpc
  replace hlen : s.sh.wakePcmLen ≠ 0 := hlen
  have hrecord : record c s (.upload uptime) = ⟨false, c.since⟩ := if_pos ⟨hpc, hlen⟩
  refine ⟨hsound, ?_, ?_, ?_, ?_, ?_, ?_⟩ <;>
    simp only [Runs.observe_fst, Runs.observe_snd, step_upload, uploadStep, hpc, if_neg hlen,
      hrecord]
  · exact Nat.le_refl _
  · exact iff_of_false nofun (Nat.lt_irrefl _)
  · exact fun p hp => (h.posts_le p hp).trans h.le
  · exact fun hpending => absurd rfl hpending
  · exact fun _ hsince p hp => (h.posts_le p hp).trans_lt (h.since.mp hsince)
  · intro _ hsince
    -- nothing was stored since, so the copy before was of the same fire
    have hsame : s.up.upload.fire = s.sh.pcmFire :=
      Nat.le_antisymm h.le (Nat.le_of_not_lt fun hlt => hsince (h.since.mpr hlt))
    obtain hzero | ⟨i, fire, hi, -⟩ := hwhole
    · exact absurd hzero hlen
    · rw [← hsame]
      refine h.posted ?_ ?_
      · show ¬ s.up.pc.pending
        rw [hpc]
        exact Bool.false_ne_true
      · show s.up.upload.fire ≠ 0
        rw [hsame, hi]
        exact Nat.succ_ne_zero i

theorem OrderInv.upload {x : State × Copies} (h : OrderInv x) (uptime : UInt32) :
    OrderInv (Runs.observe step record x (.upload uptime)) := by
  by_cases hcopy : x.1.up.pc = .testLen ∧ x.1.sh.wakePcmLen ≠ 0
  · exact h.copy uptime hcopy.1 hcopy.2
  · obtain ⟨s, c⟩ := x
    have hsound := h.sound.step (.upload uptime)
    obtain ⟨hfire, -, -, -, -, hposts⟩ := uploadStep_frame uptime s.sh s.up
    have hrecord : record c s (.upload uptime) = c := if_neg hcopy
    by_cases hpost : s.up.pc = .post
    · rw [if_pos hpost] at hposts
      refine ⟨hsound, ?_, ?_, ?_, ?_, ?_, ?_⟩ <;>
        simp only [Runs.observe_fst, Runs.observe_snd, step_upload, hrecord, hposts, hfire] <;>
        simp only [uploadStep, hpost]
      · exact h.le
      · exact h.since
      · intro p hp
        obtain hold | hnew := List.mem_append.mp hp
        · exact h.posts_le p hold
        · rw [List.mem_singleton.mp hnew]
      · exact fun _ _ => ⟨s.up.upload, List.mem_append_right _ List.mem_cons_self, rfl⟩
      · exact nofun
      · exact nofun
    · rw [if_neg hpost, List.append_nil] at hposts
      have hsame : (uploadStep uptime s.sh s.up).2.upload.fire = s.up.upload.fire ∧
          (uploadStep uptime s.sh s.up).2.pc.pending = s.up.pc.pending := by
        cases hpc : s.up.pc <;> simp only [uploadStep, hpc]
        all_goals
          (repeat' split) <;> simp_all [UploadPc.pending]
      have hnext := h.of_same hsound hfire hposts hsame.1 hsame.2
      rw [← hrecord] at hnext
      exact hnext

theorem OrderInv.step {x : State × Copies} (h : OrderInv x) (a : Action) :
    OrderInv (Runs.observe step record x a) := by
  cases a with
  | capture fired => exact h.capture fired
  | upload uptime => exact h.upload uptime
  | web =>
    obtain ⟨mtx, hweb⟩ := webStep_frame x.1.sh x.1.web
    refine h.of_same (h.sound.step .web) ?_ ?_ rfl rfl <;> rw [step_web, hweb]

theorem orderInv_start : OrderInv (start, ⟨false, false⟩) :=
  ⟨sound_start, Nat.le_refl 0, by decide, nofun, fun _ h => absurd rfl h, nofun, nofun⟩

/-- The fires posted appear in strictly increasing order. -/
def Increasing (s : State) : Prop := (s.sh.posts.map Post.fire).Pairwise (· < ·)

instance : DecidablePred Increasing :=
  fun s => inferInstanceAs (Decidable ((s.sh.posts.map Post.fire).Pairwise (· < ·)))

/-- A step keeps the order exactly when it posts no stale copy. -/
theorem OrderInv.increasing_iff {x : State × Copies} (h : OrderInv x) (a : Action) :
    Increasing (WakeUpload.step x.1 a) ↔ Increasing x.1 ∧ postsFresh x a := by
  obtain ⟨s, c⟩ := x
  cases a with
  | capture fired =>
    obtain ⟨hposts, -, -⟩ := captureStep_frame fired s.sh s.cap
    rw [Increasing, step_capture, hposts]
    exact (and_iff_left rfl).symm
  | web =>
    obtain ⟨mtx, hweb⟩ := webStep_frame s.sh s.web
    rw [Increasing, step_web, hweb]
    exact (and_iff_left rfl).symm
  | upload uptime =>
    obtain ⟨-, -, -, -, -, hposts⟩ := uploadStep_frame uptime s.sh s.up
    rw [Increasing, step_upload, hposts]
    by_cases hpost : s.up.pc = .post
    · have hpending : s.up.pc.pending := by rw [hpost]; rfl
      rw [if_pos hpost, List.map_append, List.pairwise_append]
      cases hfresh : c.fresh with
      | true =>
        have hlt := h.fresh hpending hfresh
        simp [Increasing, postsFresh, hfresh]
        exact fun _ p hp => hlt p hp
      | false =>
        obtain ⟨p, hp, hsame⟩ := h.stale hpending (by simp [hfresh])
        simp [postsFresh, hfresh, hpost]
        exact fun _ => ⟨p, hp, hsame.ge⟩
    · rw [if_neg hpost, List.append_nil]
      simp [Increasing, postsFresh, hpost]

/-- **Uploads in order, exactly when**: after any schedule every upload carries
the audio and the metrics of one and the same fire; and the fires posted are
strictly increasing if and only if every copy that is posted was preceded by a
fire stored after the copy before. -/
theorem uploads_increasing_iff (as : List Action) :
    let s := Runs.run step start as
    (∀ p ∈ s.sh.posts, PostOk s.sh.fires p) ∧
      (Increasing s ↔
        Runs.Meets (Runs.observe step record) postsFresh (start, ⟨false, false⟩) as) := by
  intro s
  have hinv : OrderInv (Runs.run (Runs.observe step record) (start, ⟨false, false⟩) as) :=
    Runs.run_induct (fun _ a h => h.step a) as orderInv_start
  have hrun : (Runs.run (Runs.observe step record) (start, ⟨false, false⟩) as).1 = s :=
    Runs.run_observe_fst step record as _
  rw [← hrun]
  refine ⟨hinv.sound.upload.posts, ?_⟩
  have hkeep : ∀ x a, OrderInv x →
      (Increasing (Runs.observe step record x a).1 ↔ Increasing x.1 ∧ postsFresh x a) :=
    fun _ a h => h.increasing_iff a
  have hiff := Runs.run_iff_meets (P := fun x : State × Copies => Increasing x.1)
    (fun _ a h => OrderInv.step h a) hkeep as orderInv_start
  rw [hiff]
  exact and_iff_right List.Pairwise.nil

/-! ## A schedule that posts a fire twice -/

/-- A fire with a single sample. -/
def click : Fire := ⟨[1], by decide, noMetrics⟩

/-- The capture task stores a fire and notifies. -/
def storeFire : List Action := List.replicate 8 (.capture (some click))

/-- The first fire is being posted when the second is stored; the third falls
between the uploader's next take and its copy. -/
def fireAfterTake : List Action :=
  storeFire ++ List.replicate 6 (.upload 100) ++ storeFire ++ List.replicate 2 (.upload 9000) ++
  storeFire ++ List.replicate 14 (.upload 9000)

theorem uploads_fireAfterTake :
    let s := Runs.run step start fireAfterTake
    s.sh.posts.map Post.fire = [1, 3, 3] ∧ ¬ Increasing s := by
  decide +kernel

end PipecatVoice.WakeUpload
