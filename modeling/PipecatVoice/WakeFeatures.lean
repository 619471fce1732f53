import PipecatVoice.Filterbank
import PipecatVoice.Lib.Overlap
import PipecatVoice.LogScale
import PipecatVoice.WakeTrace

/-!
# From the microphone to the wake word

The capture task hands the detector its samples as they come. The frontend keeps
what it has of the next window; of each full window it makes a slice of features,
the slices are collected until the model has as many as it takes, and the model's
answer goes to the detector.

* `frontendProcessSamples`, `wakeWordProcess` — the functions of `frontend.c` and
  `wake_word.cc`; the transform and the model are those of their libraries;
* `frontendPopulateState` — the frontend as the wake word configures it;
* `features` — the slices of a list of windows;
* `heard_eq` — after any calls the detector has heard the blocks of slices of the
  whole stream, each in the call that completes it;
* `invocations_wake` — how often the device invokes the model.
-/

namespace PipecatVoice.Frontend

/-! ## The frontend -/

/-- `FRONTEND_FEATURE_SIZE` -/
def featureSize : ℕ := 40

/-- What `FrontendState` is configured with. -/
structure Config where
  /-- `size` and `step` of the windows -/
  window : Overlap
  /-- `coefficients` of a window -/
  coefficients : List Int16
  /-- `fft_size` -/
  fftSize : ℕ
  /-- `kiss_fftr`: the real and imaginary part of each frequency -/
  kissFftr : List Int16 → ℕ → Int16 × Int16
  /-- the channels -/
  filterbank : FilterbankState
  /-- the noise reduction -/
  noiseReduction : NoiseReduction
  /-- the gain control, if it is enabled -/
  pcanGainControl : Option PcanGainControl
  /-- the logarithm -/
  logScale : LogScale
  /-- a coefficient for each sample of a window -/
  coefficients_length : coefficients.length = window.size
  /-- a channel for each feature, and the one after the last -/
  channels_length : filterbank.channels.length = featureSize + 1

/-- What `FrontendPopulateState` computes in floating point, and the transform. -/
structure Tables where
  /-- `coefficients` of a window -/
  coefficients : Vector Int16 480
  /-- `kiss_fftr` -/
  kissFftr : List Int16 → ℕ → Int16 × Int16
  /-- the first frequency above the centre of each channel -/
  above : Vector ℕ (featureSize + 1)
  /-- what of a frequency goes to its channel -/
  weight : ℕ → ℕ → Int16
  /-- what of it goes to the next one -/
  unweight : ℕ → ℕ → Int16
  /-- `gain_lut` -/
  gainLut : ℕ → Int16

/-- Windows of 30 ms, one every 10 ms, at 16 kHz. -/
def captureWindow : Overlap := ⟨480, 160, by decide, by decide⟩

/-- `FrontendPopulateState`, as `wake_word_init` configures it. The 257 frequencies of the transform
are 31.25 Hz apart, and the first that is used lies above 125 Hz. -/
def frontendPopulateState (t : Tables) : Option Config :=
  match h : filterbankPopulateState 257 5 t.above.toList t.weight t.unweight with
  | none => none
  | some filterbank => some
    { window := captureWindow
      coefficients := t.coefficients.toList
      fftSize := 512
      kissFftr := t.kissFftr
      filterbank := filterbank
      noiseReduction := wakeNoiseReduction
      pcanGainControl := some ⟨t.gainLut, 21 - 3 - 12⟩
      logScale := wakeLogScale
      coefficients_length := t.coefficients.length_toList
      channels_length := (length_channels h).trans t.above.length_toList }

/-- `num_channels` -/
def Config.numChannels (c : Config) : ℕ := c.filterbank.channels.length - 1

/-- `WindowProcessSamples`: the window if it is full, what remains in `input`, and
how many samples were read. -/
def windowProcessSamples (c : Config) (input samples : List Int16) :
    Option (List Int16) × List Int16 × ℕ :=
  let maxSamplesToCopy := min (c.window.size - input.length) samples.length
  let input := input ++ samples.take maxSamplesToCopy
  if input.length < c.window.size then (none, input, maxSamplesToCopy)
  else (some (List.zipWith windowed input c.coefficients), input.drop c.window.step,
    maxSamplesToCopy)

/-- The part of `FrontendProcessSamples` behind the window: the features, and the
new estimates. -/
def slice (c : Config) (estimate : Vector UInt32 c.numChannels) (output : List Int16) :
    Vector UInt16 c.numChannels × Vector UInt32 c.numChannels :=
  let shift := inputShift output
  let fftOutput := c.kissFftr (fftInput c.fftSize shift output)
  let work := filterbankAccumulateChannels c.filterbank (energyAt c.filterbank fftOutput)
  let scaled := Vector.ofFn fun i : Fin c.numChannels =>
    UInt32.ofBitVec ((filterbankSqrt work shift).getD i 0)
  let (estimate, signal) := noiseReductionApply c.noiseReduction estimate scaled
  let signal := match c.pcanGainControl with
    | some p => pcanGainControlApply p estimate signal
    | none => signal
  let correctionBits : ℤ := mostSignificantBit c.fftSize - 1 - 12 / 2
  (logScaleApply c.logScale signal correctionBits, estimate)

/-- `FrontendState` -/
structure State (c : Config) where
  /-- `input`, as far as it is used -/
  input : List Int16
  /-- `estimate` -/
  estimate : Vector UInt32 c.numChannels

/-- `FrontendReset` -/
def State.reset (c : Config) : State c := ⟨[], Vector.replicate c.numChannels 0⟩

/-- `FrontendProcessSamples`: the features of a window that has become full, and how
many samples were read. -/
def frontendProcessSamples (c : Config) (s : State c) (samples : List Int16) :
    Option (Vector UInt16 c.numChannels) × State c × ℕ :=
  match windowProcessSamples c s.input samples with
  | (none, input, numSamplesRead) => (none, { s with input := input }, numSamplesRead)
  | (some output, input, numSamplesRead) =>
    let (values, estimate) := slice c s.estimate output
    (some values, ⟨input, estimate⟩, numSamplesRead)

/-! ## The model -/

/-- The interpreter with its state, and how its tensors are quantized. -/
structure WakeModel (M : Type) where
  /-- `s_ww_input_slices` -/
  inputSlices : ℕ
  /-- the input holds a slice at least -/
  inputSlices_pos : 0 < inputSlices
  /-- `lroundf` of a feature in the scale of the input -/
  lround : UInt16 → ℤ
  /-- `Invoke`: the first byte of the output, unless it fails -/
  invoke : M → List Int8 → M × Option UInt8
  /-- `params.scale` of the output -/
  scale : ℚ
  /-- `params.zero_point` of the output -/
  zeroPoint : ℤ

variable {M : Type}

/-- A feature as the model takes it. -/
def WakeModel.quantized (m : WakeModel M) (value : UInt16) : Int8 :=
  let v := m.lround value
  Int8.ofInt (if v < -128 then -128 else if 127 < v then 127 else v)

/-- The answer of the model as a probability. -/
def WakeModel.prob (m : WakeModel M) (raw : UInt8) : ℚ :=
  let prob := m.scale * (raw.toNat - m.zeroPoint)
  let prob := if prob < 0 then 0 else prob
  if 1 < prob then 1 else prob

/-- `run_wake_word`, on a block of slices. -/
def runWakeWord (m : WakeModel M) (heard : M × WakeDetector) (block : List (List Int8))
    (nowUs : ℤ) : M × WakeDetector :=
  match m.invoke heard.1 block.flatten with
  | (model, none) => (model, heard.2)
  | (model, some raw) => (model, updateWindow heard.2 (m.prob raw) nowUs)

/-- The file-level state of `wake_word.cc`. -/
structure Listener (c : Config) (M : Type) where
  /-- `s_frontend_state` -/
  frontend : State c
  /-- `s_pending_features`, as far as it is filled -/
  pending : List (List Int8)
  /-- the interpreter and the detector -/
  heard : M × WakeDetector

/-- A slice is added to the pending ones, which go to the model when there are
enough. -/
def addPending (c : Config) (m : WakeModel M) (l : Listener c M) (features : List Int8)
    (nowUs : ℤ) : Listener c M :=
  let pending := l.pending ++ [features]
  if m.inputSlices ≤ pending.length then
    { l with pending := [], heard := runWakeWord m l.heard pending nowUs }
  else { l with pending := pending }

/-- One turn of the loop of `wake_word_process`; how many samples were consumed. -/
def processOnce (c : Config) (m : WakeModel M) (l : Listener c M) (pcm : List Int16) (nowUs : ℤ) :
    Listener c M × ℕ :=
  match frontendProcessSamples c l.frontend pcm with
  | (none, frontend, consumed) => ({ l with frontend := frontend }, consumed)
  | (some values, frontend, consumed) =>
    (addPending c m { l with frontend := frontend } (values.toList.map m.quantized) nowUs,
      consumed)

/-- The loop, while samples remain; it gives up when none is consumed. -/
def processLoop (c : Config) (m : WakeModel M) :
    ℕ → Listener c M → List Int16 → ℤ → Listener c M
  | 0, l, _, _ => l
  | turns + 1, l, pcm, nowUs =>
    if pcm = [] then l
    else
      let (l', consumed) := processOnce c m l pcm nowUs
      if consumed = 0 then l' else processLoop c m turns l' (pcm.drop consumed) nowUs

/-- `wake_word_process`, which cannot take more turns than there are samples. -/
def wakeWordProcess (c : Config) (m : WakeModel M) (l : Listener c M)
    (call : List Int16 × ℤ) : Listener c M := processLoop c m call.1.length l call.1 call.2

/-- After `wake_word_init`. -/
def Listener.init (c : Config) (model : M) : Listener c M :=
  ⟨State.reset c, [], (model, WakeDetector.boot)⟩

/-! ## What is to be heard -/

/-- The slice of one more window. -/
def addSlice (c : Config) (m : WakeModel M)
    (x : List (List Int8) × Vector UInt32 c.numChannels) (window : List Int16) :
    List (List Int8) × Vector UInt32 c.numChannels :=
  let (values, estimate) := slice c x.2 (List.zipWith windowed window c.coefficients)
  (x.1 ++ [values.toList.map m.quantized], estimate)

/-- The slices of windows, and the estimates after them. -/
def features (c : Config) (m : WakeModel M) (windows : List (List Int16)) :
    List (List Int8) × Vector UInt32 c.numChannels :=
  windows.foldl (addSlice c m) ([], Vector.replicate c.numChannels 0)

/-- Blocks of as many slices as the model takes. -/
def WakeModel.blocks (m : WakeModel M) : Overlap := .blocks m.inputSlices m.inputSlices_pos

/-- The blocks of a stream. -/
def blocksOf (c : Config) (m : WakeModel M) (pcm : List Int16) : List (List (List Int8)) :=
  m.blocks.windows (features c m (c.window.windows pcm)).1

/-- How many blocks so many samples make. -/
def invocations (c : Config) (m : WakeModel M) (samples : ℕ) : ℕ :=
  m.blocks.count (c.window.count samples)

/-- The times of the calls, once for each block that a call completes, when there
have been so many samples before. -/
def timesFrom (c : Config) (m : WakeModel M) : ℕ → List (List Int16 × ℤ) → List ℤ
  | _, [] => []
  | samples, call :: calls =>
    List.replicate (invocations c m (samples + call.1.length) - invocations c m samples) call.2 ++
      timesFrom c m (samples + call.1.length) calls

/-- The model and the detector after blocks, each heard at its time. -/
def hearAll (m : WakeModel M) (model : M) (blocks : List (List (List Int8))) (times : List ℤ) :
    M × WakeDetector :=
  (blocks.zip times).foldl (fun heard b => runWakeWord m heard b.1 b.2) (model, WakeDetector.boot)

/-! ## What is heard -/

section Heard

variable {c : Config} {m : WakeModel M} {model : M}

theorem length_features (windows : List (List Int16)) :
    (features c m windows).1.length = windows.length := by
  have hfold : ∀ x : List (List Int8) × Vector UInt32 c.numChannels,
      (windows.foldl (addSlice c m) x).1.length = x.1.length + windows.length := by
    induction windows with
    | nil => exact fun _ => rfl
    | cons w windows ih =>
      intro x
      rw [List.foldl_cons, ih, addSlice, List.length_append, List.length_singleton,
        List.length_cons, Nat.add_assoc, Nat.add_comm 1]
  exact (hfold _).trans (Nat.zero_add _)

theorem length_blocksOf (pcm : List Int16) :
    (blocksOf c m pcm).length = invocations c m pcm.length := by
  rw [blocksOf, Overlap.length_windows, length_features, Overlap.length_windows, invocations]

theorem invocations_mono {n n' : ℕ} (h : n ≤ n') : invocations c m n ≤ invocations c m n' :=
  m.blocks.count_mono (c.window.count_mono h)

/-- A listener that has heard these samples, its blocks at these times. -/
structure Hears (model : M) (l : Listener c M) (m : WakeModel M) (pcm : List Int16)
    (times : List ℤ) : Prop where
  /-- the start of the next window -/
  input : l.frontend.input = c.window.rest pcm
  /-- the estimates are those after the windows -/
  estimate : l.frontend.estimate = (features c m (c.window.windows pcm)).2
  /-- the start of the next block -/
  pending : l.pending = m.blocks.rest (features c m (c.window.windows pcm)).1
  /-- a time for each block -/
  timed : times.length = invocations c m pcm.length
  /-- the blocks have been heard -/
  heard : l.heard = hearAll m model (blocksOf c m pcm) times

theorem hears_init : Hears model (Listener.init c model) m [] [] where
  input := (c.window.rest_nil).symm
  estimate := by
    rw [Overlap.windows_nil]
    rfl
  pending := by
    rw [Overlap.windows_nil]
    exact (Overlap.rest_nil _).symm
  timed := by
    rw [invocations, List.length_nil, List.length_nil, Overlap.count_zero, Overlap.count_zero]
  heard := by
    rw [blocksOf, Overlap.windows_nil]
    show _ = hearAll m model (m.blocks.windows []) []
    rw [Overlap.windows_nil]
    rfl

/-- Samples that do not fill the window. -/
theorem Hears.short {l : Listener c M} {pcm more : List Int16} {times : List ℤ}
    (h : Hears model l m pcm times) (hshort : (c.window.rest pcm ++ more).length < c.window.size) :
    Hears model { l with frontend := { l.frontend with input := l.frontend.input ++ more } } m
        (pcm ++ more) times ∧
      invocations c m (pcm ++ more).length = invocations c m pcm.length := by
  obtain ⟨hwindows, hrest⟩ := c.window.windows_append_short hshort
  have hcount := c.window.count_append_short hshort
  refine ⟨⟨?_, ?_, ?_, ?_, ?_⟩, ?_⟩
  · rw [hrest, ← h.input]
  · rw [hwindows]
    exact h.estimate
  · rw [hwindows]
    exact h.pending
  · rw [invocations, hcount]
    exact h.timed
  · rw [blocksOf, hwindows]
    exact h.heard
  · rw [invocations, hcount, invocations]

theorem hearAll_append {blocks blocks' : List (List (List Int8))} {times times' : List ℤ}
    (h : blocks.length = times.length) :
    hearAll m model (blocks ++ blocks') (times ++ times') =
      (blocks'.zip times').foldl (fun heard b => runWakeWord m heard b.1 b.2)
        (hearAll m model blocks times) := by
  rw [hearAll, List.zip_append h, List.foldl_append, hearAll]

/-- Samples that fill the window make a slice, and with it perhaps a block. -/
theorem Hears.full {l : Listener c M} {pcm more : List Int16} {times : List ℤ}
    (h : Hears model l m pcm times) (hfull : (c.window.rest pcm ++ more).length = c.window.size)
    (nowUs : ℤ) {values : Vector UInt16 c.numChannels} {estimate : Vector UInt32 c.numChannels}
    (hslice : slice c l.frontend.estimate
      (List.zipWith windowed (l.frontend.input ++ more) c.coefficients) = (values, estimate)) :
    Hears model (addPending c m { l with
          frontend := ⟨(l.frontend.input ++ more).drop c.window.step, estimate⟩ }
        (values.toList.map m.quantized) nowUs) m (pcm ++ more)
      (times ++ List.replicate (invocations c m (pcm ++ more).length -
        invocations c m pcm.length) nowUs) := by
  obtain ⟨hwindows, hrest⟩ := c.window.windows_append_full hfull
  have hfeatures : features c m (c.window.windows (pcm ++ more)) =
      ((features c m (c.window.windows pcm)).1 ++ [values.toList.map m.quantized], estimate) := by
    rw [hwindows, features, List.foldl_append, List.foldl_cons, List.foldl_nil, ← features,
      addSlice, ← h.estimate, ← h.input, hslice]
  have hlength := length_blocksOf (c := c) (m := m)
  have hbefore : (blocksOf c m pcm).length = times.length := (hlength pcm).trans h.timed.symm
  rw [addPending]
  by_cases hblock : m.inputSlices ≤ (l.pending ++ [values.toList.map m.quantized]).length
  · have hsize : (m.blocks.rest (features c m (c.window.windows pcm)).1 ++
        [values.toList.map m.quantized]).length = m.blocks.size := by
      have hlt := m.blocks.rest_lt (features c m (c.window.windows pcm)).1
      rw [h.pending] at hblock
      rw [List.length_append, List.length_singleton] at hblock ⊢
      exact le_antisymm hlt hblock
    obtain ⟨hblocks, hpending⟩ := m.blocks.windows_append_full hsize
    have hall : blocksOf c m (pcm ++ more) =
        blocksOf c m pcm ++ [l.pending ++ [values.toList.map m.quantized]] := by
      rw [blocksOf, hfeatures, hblocks, ← blocksOf, h.pending]
    have hone : invocations c m (pcm ++ more).length - invocations c m pcm.length = 1 := by
      rw [← hlength, ← hlength, hall, List.length_append, List.length_singleton]
      exact Nat.add_sub_cancel_left _ _
    rw [if_pos hblock, hone]
    refine ⟨?_, ?_, ?_, ?_, ?_⟩
    · rw [hrest, ← h.input]
    · rw [hfeatures]
    · rw [hfeatures, hpending]
      exact (List.drop_eq_nil_of_le hsize.le).symm
    · rw [List.length_append, List.length_replicate, ← hbefore, ← hlength, hall,
        List.length_append, List.length_singleton]
    · rw [hall, List.replicate_one, hearAll_append hbefore, ← h.heard]
      rfl
  · have hsize : (m.blocks.rest (features c m (c.window.windows pcm)).1 ++
        [values.toList.map m.quantized]).length < m.blocks.size := by
      rw [← h.pending]
      exact Nat.not_le.mp hblock
    obtain ⟨hblocks, hpending⟩ := m.blocks.windows_append_short hsize
    have hall : blocksOf c m (pcm ++ more) = blocksOf c m pcm := by
      rw [blocksOf, hfeatures, hblocks, ← blocksOf]
    have hnone : invocations c m (pcm ++ more).length - invocations c m pcm.length = 0 := by
      rw [← hlength, ← hlength, hall, Nat.sub_self]
    rw [if_neg hblock, hnone, List.replicate_zero, List.append_nil]
    refine ⟨?_, ?_, ?_, ?_, ?_⟩
    · rw [hrest, ← h.input]
    · rw [hfeatures]
    · rw [hfeatures, hpending, ← h.pending]
    · rw [← hlength, hall, hlength]
      exact h.timed
    · rw [hall]
      exact h.heard

/-- **One turn of the loop** hears the samples that it consumes, and consumes some. -/
theorem Hears.processOnce {l : Listener c M} {pcm more : List Int16} {times : List ℤ}
    (h : Hears model l m pcm times) (hmore : more ≠ []) (nowUs : ℤ) :
    ∃ l' consumed, Frontend.processOnce c m l more nowUs = (l', consumed) ∧ 0 < consumed ∧
      Hears model l' m (pcm ++ more.take consumed)
        (times ++ List.replicate (invocations c m (pcm ++ more.take consumed).length -
          invocations c m pcm.length) nowUs) := by
  have hlt := c.window.rest_lt pcm
  have hpos := List.length_pos_iff.mpr hmore
  have hinput := h.input
  obtain ⟨consumed, hconsumed⟩ :
      ∃ n, n = min (c.window.size - l.frontend.input.length) more.length := ⟨_, rfl⟩
  have hread : 0 < consumed := by
    rw [hconsumed, hinput]
    omega
  have htake : (more.take consumed).length = consumed := by
    rw [List.length_take, hconsumed]
    omega
  by_cases hshort : (l.frontend.input ++ more.take consumed).length < c.window.size
  · obtain ⟨hhears, hnone⟩ := h.short (hinput ▸ hshort)
    refine ⟨{ l with frontend := { l.frontend with
      input := l.frontend.input ++ more.take consumed } }, consumed, ?_, hread, ?_⟩
    · rw [Frontend.processOnce, frontendProcessSamples, windowProcessSamples, ← hconsumed,
        if_pos hshort]
    · rw [hnone, Nat.sub_self, List.replicate_zero, List.append_nil]
      exact hhears
  · have hfull : (c.window.rest pcm ++ more.take consumed).length = c.window.size := by
      rw [hinput, List.length_append, htake] at hshort
      rw [List.length_append, htake]
      rw [hinput] at hconsumed
      omega
    obtain ⟨⟨values, estimate⟩, hslice⟩ : ∃ x, slice c l.frontend.estimate (List.zipWith windowed
        (l.frontend.input ++ more.take consumed) c.coefficients) = x := ⟨_, rfl⟩
    refine ⟨_, consumed, ?_, hread, h.full hfull nowUs hslice⟩
    rw [Frontend.processOnce, frontendProcessSamples, windowProcessSamples, ← hconsumed,
      if_neg hshort]
    simp only [hslice]

/-- The whole loop hears all samples. -/
theorem Hears.processLoop (nowUs : ℤ) : ∀ {turns : ℕ} {l : Listener c M} {pcm more : List Int16}
    {times : List ℤ}, Hears model l m pcm times → more.length ≤ turns →
      Hears model (Frontend.processLoop c m turns l more nowUs) m (pcm ++ more)
        (times ++ List.replicate (invocations c m (pcm ++ more).length -
          invocations c m pcm.length) nowUs) := by
  have hnothing : ∀ {l : Listener c M} {pcm : List Int16} {times : List ℤ},
      Hears model l m pcm times → Hears model l m (pcm ++ []) (times ++
        List.replicate
          (invocations c m (pcm ++ []).length - invocations c m pcm.length) nowUs) := by
    intro l pcm times h
    rw [List.append_nil, Nat.sub_self, List.replicate_zero, List.append_nil]
    exact h
  intro turns
  induction turns with
  | zero =>
    intro l pcm more times h hturns
    obtain rfl := List.eq_nil_of_length_eq_zero (Nat.le_zero.mp hturns)
    exact hnothing h
  | succ turns ih =>
    intro l pcm more times h hturns
    by_cases hmore : more = []
    · subst hmore
      rw [Frontend.processLoop, if_pos rfl]
      exact hnothing h
    · obtain ⟨l', consumed, honce, hread, hhears⟩ := h.processOnce hmore nowUs
      have hfewer : (more.drop consumed).length ≤ turns := by
        rw [List.length_drop]
        have hpos := List.length_pos_iff.mpr hmore
        omega
      have hrest := ih hhears hfewer
      have hle : invocations c m pcm.length ≤ invocations c m (pcm ++ more.take consumed).length :=
        invocations_mono (by rw [List.length_append]; exact Nat.le_add_right _ _)
      have hle' : invocations c m (pcm ++ more.take consumed).length ≤
          invocations c m (pcm ++ more).length :=
        invocations_mono (by
          rw [List.length_append, List.length_append]
          exact Nat.add_le_add_left (List.length_take_le' consumed more) _)
      rw [List.append_assoc pcm, List.take_append_drop, List.append_assoc times,
        ← List.replicate_add, Nat.add_comm (_ - _), Nat.sub_add_sub_cancel hle' hle] at hrest
      rw [Frontend.processLoop, if_neg hmore, honce]
      simp only [if_neg (Nat.ne_of_gt hread)]
      exact hrest

/-- Call after call. -/
theorem hears_run (calls : List (List Int16 × ℤ)) : ∀ {l : Listener c M} {pcm : List Int16}
    {times : List ℤ}, Hears model l m pcm times →
      Hears model (Runs.run (wakeWordProcess c m) l calls) m (pcm ++ (calls.map Prod.fst).flatten)
        (times ++ timesFrom c m pcm.length calls) := by
  induction calls with
  | nil =>
    intro l pcm times h
    rw [List.map_nil, List.flatten_nil, timesFrom, List.append_nil, List.append_nil]
    exact h
  | cons call calls ih =>
    intro l pcm times h
    have hcall := ih (h.processLoop call.2 (Nat.le_refl call.1.length))
    rw [List.append_assoc, List.append_assoc, List.length_append] at hcall
    rw [List.map_cons, List.flatten_cons, timesFrom]
    exact hcall

/-- **What the device hears**, however the microphone's samples are cut into calls:
the model is invoked on the blocks of slices of the whole stream, one block after
the other and each once, in the call that completes it, and the detector gets its
answers in that order. -/
theorem heard_eq (c : Config) (m : WakeModel M) (model : M) (calls : List (List Int16 × ℤ)) :
    (Runs.run (wakeWordProcess c m) (Listener.init c model) calls).heard =
      hearAll m model (blocksOf c m (calls.map Prod.fst).flatten) (timesFrom c m 0 calls) :=
  (hears_run calls hears_init).heard

/-- The device makes a slice every 10 ms, the first after 30 ms, and invokes the model as often as
that makes a block. -/
theorem invocations_wake {t : Tables} (h : frontendPopulateState t = some c) (samples : ℕ) :
    invocations c m samples = (samples - 320) / 160 / m.inputSlices := by
  have hwindow : c.window = captureWindow := by
    rw [frontendPopulateState] at h
    split at h
    · cases h
    · rw [← Option.some.inj h]
  have hslices : captureWindow.count samples = (samples - 320) / 160 := by
    show (if samples < 480 then 0 else (samples - 480) / 160 + 1) = _
    split <;> omega
  have hblocks (n : ℕ) : m.blocks.count n = n / m.inputSlices := by
    show (if n < m.inputSlices then 0 else (n - m.inputSlices) / m.inputSlices + 1) = _
    split
    · next hless => exact (Nat.div_eq_of_lt hless).symm
    · next hmore =>
      exact (Nat.div_eq_sub_div m.inputSlices_pos (Nat.not_lt.mp hmore)).symm
  rw [invocations, hblocks, hwindow, hslices]

/-- Tables without a window and without weights; the channels end about where they do for 125 to
7500 Hz. -/
def plainTables : Tables where
  coefficients := .replicate 480 0
  kissFftr := fun _ _ => (0, 0)
  above := #v[6, 8, 9, 11, 13, 15, 17, 19, 22, 24, 27, 30, 33, 36, 39, 43, 47, 50, 55, 59, 64, 69,
    74, 79, 85, 91, 98, 105, 112, 120, 128, 137, 146, 155, 166, 176, 188, 200, 213, 226, 241]
  weight := fun _ _ => 0
  unweight := fun _ _ => 0
  gainLut := fun _ => 0

example : (frontendPopulateState plainTables).isSome := by decide +kernel

end Heard

end PipecatVoice.Frontend
