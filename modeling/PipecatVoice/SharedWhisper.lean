import PipecatVoice.Lib.Runs
import PipecatVoice.WakeStore

/-!
# The Whisper model of all sessions

`FastWhisperSTTService` of `whisper_fast.py`. A process loads one Whisper model
and every session's service uses it; a service replaces the attribute
`transcribe` of its model by a function that fills in the service's `beam_size`
and `best_of` where the caller gives none. A function so marked is not wrapped
again.

* `step` — models loaded, the shared model set, services constructed, calls;
* `Wrapped` — a model's attribute closes over the first service made with it;
* `meets_decodes_iff` — in which runs every call decodes as its service asks.

Of the parent class it is assumed that its constructor calls `_load` and keeps
the model in `_model`. Audio and argument values are any types.
-/

namespace PipecatVoice.SharedWhisper

open WakeStore (Dict)

/-! ## Keyword arguments -/

def beamSizeKey : Text := "beam_size".toList

def bestOfKey : Text := "best_of".toList

theorem beamSizeKey_ne : beamSizeKey ≠ bestOfKey := by decide

/-- `dict.setdefault`. -/
def setdefault {ν : Type} (kw : Dict ν) (key : Text) (v : ν) : Dict ν :=
  if key ∈ kw then kw else kw.insert key v

section Setdefault

variable {ν : Type} (kw : Dict ν) (key : Text) (v : ν)

@[simp] theorem lookup_setdefault :
    (setdefault kw key v).lookup key = some ((kw.lookup key).getD v) := by
  rw [setdefault]
  split
  · rename_i hmem
    obtain ⟨x, hx⟩ := Option.isSome_iff_exists.mp (AList.lookup_isSome.mpr hmem)
    rw [hx, Option.getD_some]
  · rename_i hmem
    rw [AList.lookup_insert, AList.lookup_eq_none.mpr hmem, Option.getD_none]

@[simp] theorem lookup_setdefault_of_ne {other : Text} (h : other ≠ key) :
    (setdefault kw key v).lookup other = kw.lookup other := by
  rw [setdefault]
  split
  · rfl
  · exact AList.lookup_insert_ne h

/-- It leaves every other argument alone. -/
theorem erase_setdefault : (setdefault kw key v).erase key = kw.erase key := by
  rw [setdefault]
  split
  · rfl
  · exact Dict.erase_insert kw key v

/-- Two defaults are the same to a caller who gives the argument. -/
theorem getD_lookup_eq_iff {w : ν} :
    (kw.lookup key).getD v = (kw.lookup key).getD w ↔ key ∈ kw ∨ v = w := by
  by_cases hmem : key ∈ kw
  · obtain ⟨x, hx⟩ := Option.isSome_iff_exists.mp (AList.lookup_isSome.mpr hmem)
    simp only [hx, Option.getD_some, hmem, true_or]
  · simp only [AList.lookup_eq_none.mpr hmem, Option.getD_none, hmem, false_or]

end Setdefault

/-! ## Models and services -/

variable {α ν : Type}

/-- What a service keeps of its own. -/
structure Service (ν : Type) where
  /-- `_beam_size` -/
  beamSize : ν
  /-- `_best_of` -/
  bestOf : ν
  /-- `_model` -/
  model : Option ℕ
  deriving DecidableEq

/-- The attribute `transcribe` of a model. -/
inductive Transcribe (ν : Type) where
  /-- the method of the class, bound to a model -/
  | original (model : ℕ)
  /-- `transcribe_with_speedups`, over the service that made it -/
  | speedups (self : Service ν) (originalTranscribe : Transcribe ν)

namespace Transcribe

/-- `_fastwhisper_wrapped` -/
def wrapped : Transcribe ν → Bool
  | original _ => false
  | speedups _ _ => true

end Transcribe

/-- One run of the method of the class. -/
structure Invocation (α ν : Type) where
  /-- the model it runs on -/
  model : ℕ
  audio : α
  kw : Dict ν

/-- A call of the attribute: the invocations of the original it leads to. -/
def Transcribe.call : Transcribe ν → α → Dict ν → List (Invocation α ν)
  | .original m, audio, kw => [Invocation.mk m audio kw]
  | .speedups self originalTranscribe, audio, kw =>
    let kw := setdefault kw beamSizeKey self.beamSize
    let kw := setdefault kw bestOfKey self.bestOf
    originalTranscribe.call audio kw

/-- The process. -/
structure Process (ν : Type) where
  /-- the attribute `transcribe` of each model loaded so far -/
  models : List (Transcribe ν)
  /-- the services, in the order they were made -/
  services : List (Service ν)
  /-- `_shared_model` -/
  sharedModel : Option ℕ

/-- Nothing loaded. -/
def init : Process ν where
  models := []
  services := []
  sharedModel := none

namespace Process

variable (p : Process ν)

/-- A new model. -/
def load : Process ν := { p with models := p.models ++ [Transcribe.original p.models.length] }

/-- `set_shared_model`. There are handles to loaded models only. -/
def setSharedModel (model : Option ℕ) : Process ν :=
  if ∀ m ∈ model, m < p.models.length then { p with sharedModel := model } else p

/-- `_load`, with what the parent's would leave: a new model, or none. -/
def serviceLoad (parentLoads : Bool) : Option ℕ × Process ν :=
  match p.sharedModel with
  | some m => (some m, p)
  | none => if parentLoads then (some p.models.length, p.load) else (none, p)

/-- The end of the constructor: wrap the model's method once. -/
def wrap (self : Service ν) : Process ν :=
  match self.model with
  | none => p
  | some m =>
    match p.models[m]? with
    | none => p
    | some transcribe =>
      if transcribe.wrapped then p
      else { p with models := p.models.set m (.speedups self transcribe) }

/-- `__init__`. -/
def construct (beamSize bestOf : ν) (parentLoads : Bool) : Process ν :=
  let (model, p) := p.serviceLoad parentLoads
  let self : Service ν := { beamSize, bestOf, model }
  let p := { p with services := p.services ++ [self] }
  p.wrap self

/-- What a call through `_model` of the service invokes. -/
def callThrough (self : Service ν) (audio : α) (kw : Dict ν) : List (Invocation α ν) :=
  match self.model with
  | none => []
  | some m =>
    match p.models[m]? with
    | none => []
    | some transcribe => transcribe.call audio kw

end Process

/-- What happens in the process. -/
inductive Action (α ν : Type) where
  /-- a `WhisperModel` is made -/
  | load
  /-- `set_shared_model` -/
  | setSharedModel (model : Option ℕ)
  /-- a service is made; `parentLoads` as in `serviceLoad` -/
  | construct (beamSize bestOf : ν) (parentLoads : Bool)
  /-- `transcribe` through the `_model` of service `k` -/
  | transcribe (k : ℕ) (audio : α) (kw : Dict ν)

/-- One step. A call changes none of this. -/
def step (p : Process ν) : Action α ν → Process ν
  | .load => p.load
  | .setSharedModel model => p.setSharedModel model
  | .construct beamSize bestOf parentLoads => p.construct beamSize bestOf parentLoads
  | .transcribe _ _ _ => p

/-! ## What a call is to do -/

section Spec

variable [DecidableEq α] [DecidableEq ν]

/-- The original is invoked once, on the service's model and the caller's audio:
`beam_size` and `best_of` are the caller's, or else the service's own, and every
other argument is the caller's. -/
def decodes (self : Service ν) (audio : α) (kw : Dict ν) : List (Invocation α ν) → Bool
  | [i] =>
    self.model = some i.model && i.audio = audio &&
      i.kw.lookup beamSizeKey = some ((kw.lookup beamSizeKey).getD self.beamSize) &&
      i.kw.lookup bestOfKey = some ((kw.lookup bestOfKey).getD self.bestOf) &&
      (i.kw.erase beamSizeKey).erase bestOfKey = (kw.erase beamSizeKey).erase bestOfKey
  | _ => false

/-- The step, if a call through a service with a model, does so. -/
def callDecodes (p : Process ν) : Action α ν → Bool
  | .transcribe k audio kw =>
    match p.services[k]? with
    | none => true
    | some self => self.model.isNone || decodes self audio kw (p.callThrough self audio kw)
  | _ => true

/-- What the caller leaves open is the same for the service called and for the
first one made with its model. -/
def agrees (first self : Service ν) (kw : Dict ν) : Bool :=
  (beamSizeKey ∈ kw || first.beamSize = self.beamSize) &&
    (bestOfKey ∈ kw || first.bestOf = self.bestOf)

/-- The first service made with a model. -/
def firstOver (services : List (Service ν)) (m : ℕ) : Option (Service ν) :=
  services.find? fun s => s.model = some m

def callAgrees (p : Process ν) : Action α ν → Bool
  | .transcribe k _ kw =>
    match p.services[k]? with
    | none => true
    | some self =>
      match self.model with
      | none => true
      | some m => (firstOver p.services m).all fun first => agrees first self kw
  | _ => true

end Spec

/-! ## The attribute of a model -/

/-- What `transcribe` of a model is, by the services there are. -/
def transcribeOf (services : List (Service ν)) (m : ℕ) : Transcribe ν :=
  match firstOver services m with
  | none => .original m
  | some first => .speedups first (.original m)

/-- A service comes first only where none was before it. -/
theorem firstOver_concat (services : List (Service ν)) (self : Service ν) (m : ℕ) :
    firstOver (services ++ [self]) m =
      (firstOver services m).or (if self.model = some m then some self else none) := by
  rw [firstOver, List.find?_append, firstOver, List.find?_singleton]
  simp only [decide_eq_true_eq]

theorem transcribeOf_concat_of_ne {services : List (Service ν)} {self : Service ν} {m : ℕ}
    (h : self.model ≠ some m) : transcribeOf (services ++ [self]) m = transcribeOf services m := by
  rw [transcribeOf, firstOver_concat, if_neg h, Option.or_none, transcribeOf]

theorem wrapped_transcribeOf (services : List (Service ν)) (m : ℕ) :
    (transcribeOf services m).wrapped = (firstOver services m).isSome := by
  rw [transcribeOf]
  cases firstOver services m <;> rfl

/-- **The invariant**: every model's attribute closes over the first service made
with it, and there are no handles to models that were not loaded. -/
structure Wrapped (p : Process ν) : Prop where
  transcribe : ∀ m t, p.models[m]? = some t → t = transcribeOf p.services m
  loaded : ∀ s ∈ p.services, ∀ m ∈ s.model, m < p.models.length
  shared : ∀ m ∈ p.sharedModel, m < p.models.length

theorem wrapped_init : Wrapped (init : Process ν) where
  transcribe := fun _ _ h => nomatch h
  loaded := fun _ h => nomatch h
  shared := fun _ h => nomatch h

namespace Wrapped

variable {p : Process ν}

theorem firstOver_eq_none (hp : Wrapped p) {m : ℕ} (hm : p.models.length ≤ m) :
    firstOver p.services m = none := by
  rw [firstOver, List.find?_eq_none]
  intro s hs hmodel
  exact absurd (hp.loaded s hs m (of_decide_eq_true hmodel)) (Nat.not_lt.mpr hm)

theorem load (hp : Wrapped p) : Wrapped p.load := by
  have hlen : p.models.length < p.load.models.length := by
    simp [Process.load]
  refine ⟨?_, ?_, ?_⟩
  · intro m t ht
    rcases Nat.lt_or_ge m p.models.length with hold | hnew
    · rw [Process.load, List.getElem?_append_left hold] at ht
      exact hp.transcribe m t ht
    · have hnone : firstOver p.load.services m = none := hp.firstOver_eq_none hnew
      rw [Process.load, List.getElem?_append_right hnew, List.getElem?_singleton] at ht
      split at ht
      · rename_i hm
        rw [transcribeOf, hnone, ← Option.some_inj.mp ht]
        congr 1
        omega
      · cases ht
  · exact fun s hs m hm => (hp.loaded s hs m hm).trans hlen
  · exact fun m hm => (hp.shared m hm).trans hlen

theorem setSharedModel (hp : Wrapped p) (model : Option ℕ) : Wrapped (p.setSharedModel model) := by
  rw [Process.setSharedModel]
  split
  · rename_i hmodel
    exact ⟨hp.transcribe, hp.loaded, hmodel⟩
  · exact hp

/-- `_load` leaves a handle to a loaded model, or none. -/
theorem serviceLoad (hp : Wrapped p) (parentLoads : Bool) :
    Wrapped (p.serviceLoad parentLoads).2 ∧
      ∀ m ∈ (p.serviceLoad parentLoads).1, m < (p.serviceLoad parentLoads).2.models.length := by
  rw [Process.serviceLoad]
  split
  · rename_i m hm
    refine ⟨hp, ?_⟩
    rintro _ ⟨rfl⟩
    exact hp.shared m hm
  · cases parentLoads with
    | true =>
      refine ⟨hp.load, ?_⟩
      rintro _ ⟨rfl⟩
      simp [Process.load]
    | false => exact ⟨hp, fun _ h => nomatch h⟩

/-- The end of the constructor restores the invariant for the services with the
new one among them. -/
theorem wrap (hp : Wrapped p) {self : Service ν} (hself : ∀ m ∈ self.model, m < p.models.length) :
    Wrapped (Process.wrap { p with services := p.services ++ [self] } self) := by
  have hloaded : ∀ s ∈ p.services ++ [self], ∀ m ∈ s.model, m < p.models.length := by
    intro s hs
    rcases List.mem_append.mp hs with hold | hnew
    · exact hp.loaded s hold
    · rw [List.mem_singleton.mp hnew]
      exact hself
  cases hmodel : self.model with
  | none =>
    rw [Process.wrap, hmodel]
    refine ⟨?_, hloaded, hp.shared⟩
    intro m t ht
    rw [transcribeOf_concat_of_ne (by rw [hmodel]; exact (Option.some_ne_none m).symm)]
    exact hp.transcribe m t ht
  | some m₀ =>
    have hm₀ := hself m₀ hmodel
    have ht₀ := hp.transcribe m₀ _ (List.getElem?_eq_getElem hm₀)
    have hother (m) (hne : m₀ ≠ m) :
        transcribeOf (p.services ++ [self]) m = transcribeOf p.services m := by
      apply transcribeOf_concat_of_ne
      rw [hmodel]
      exact fun h => hne (Option.some_inj.mp h)
    simp only [Process.wrap, hmodel, List.getElem?_eq_getElem hm₀]
    rw [ht₀, wrapped_transcribeOf]
    cases hfirst : firstOver p.services m₀ with
    | some first =>
      rw [Option.isSome_some, if_pos rfl]
      refine ⟨?_, hloaded, hp.shared⟩
      intro m t ht
      by_cases hne : m₀ = m
      · subst hne
        rw [transcribeOf, firstOver_concat, hfirst, Option.some_or, hp.transcribe m₀ t ht,
          transcribeOf, hfirst]
      · rw [hother m hne]
        exact hp.transcribe m t ht
    | none =>
      rw [Option.isSome_none, if_neg Bool.false_ne_true]
      have hlen : (p.models.set m₀ (.speedups self (transcribeOf p.services m₀))).length =
          p.models.length := List.length_set
      refine ⟨?_, ?_, ?_⟩
      · intro m t ht
        by_cases hne : m₀ = m
        · subst hne
          rw [List.getElem?_set_self hm₀] at ht
          rw [← Option.some_inj.mp ht, transcribeOf, hfirst, transcribeOf, firstOver_concat,
            hfirst, if_pos hmodel, Option.none_or]
        · rw [List.getElem?_set_ne hne] at ht
          rw [hother m hne]
          exact hp.transcribe m t ht
      · rw [hlen]
        exact hloaded
      · rw [hlen]
        exact hp.shared

theorem construct (hp : Wrapped p) (beamSize bestOf : ν) (parentLoads : Bool) :
    Wrapped (p.construct beamSize bestOf parentLoads) := by
  obtain ⟨hload, hself⟩ := hp.serviceLoad parentLoads
  exact hload.wrap hself

/-- One step. -/
theorem step (hp : Wrapped p) (a : Action α ν) : Wrapped (step p a) := by
  cases a with
  | load => exact hp.load
  | setSharedModel model => exact hp.setSharedModel model
  | construct beamSize bestOf parentLoads => exact hp.construct beamSize bestOf parentLoads
  | transcribe k audio kw => exact hp

end Wrapped

/-! ## Calls -/

/-- What a call through a service invokes: the original once, with the values of
the first service made with the model filled in. -/
theorem callThrough_eq {p : Process ν} (hp : Wrapped p) {self : Service ν} {m : ℕ}
    (hmem : self ∈ p.services) (hm : self.model = some m) (audio : α) (kw : Dict ν) :
    ∃ first, firstOver p.services m = some first ∧
      p.callThrough self audio kw =
        [Invocation.mk m audio (setdefault (setdefault kw beamSizeKey first.beamSize)
          bestOfKey first.bestOf)] := by
  have hfound : (firstOver p.services m).isSome := by
    rw [firstOver, List.find?_isSome]
    exact ⟨self, hmem, decide_eq_true hm⟩
  obtain ⟨first, hfirst⟩ := Option.isSome_iff_exists.mp hfound
  have hloaded := hp.loaded self hmem m hm
  have htranscribe := hp.transcribe m _ (List.getElem?_eq_getElem hloaded)
  refine ⟨first, hfirst, ?_⟩
  simp only [Process.callThrough, hm, List.getElem?_eq_getElem hloaded]
  rw [htranscribe, transcribeOf, hfirst]
  rfl

section Calls

variable [DecidableEq α] [DecidableEq ν]

/-- That one invocation is what the service asks for exactly when the two
services agree on what the caller leaves open. -/
theorem decodes_iff_agrees {first self : Service ν} {m : ℕ} (hm : self.model = some m)
    (audio : α) (kw : Dict ν) :
    decodes self audio kw [Invocation.mk m audio
      (setdefault (setdefault kw beamSizeKey first.beamSize) bestOfKey first.bestOf)] =
      agrees first self kw := by
  have hrest :
      ((setdefault (setdefault kw beamSizeKey first.beamSize) bestOfKey first.bestOf).erase
        beamSizeKey).erase bestOfKey = (kw.erase beamSizeKey).erase bestOfKey := by
    rw [AList.erase_erase, erase_setdefault, AList.erase_erase, erase_setdefault]
  have hbestOf : (setdefault kw beamSizeKey first.beamSize).lookup bestOfKey =
      kw.lookup bestOfKey := lookup_setdefault_of_ne _ _ _ beamSizeKey_ne.symm
  rw [Bool.eq_iff_iff]
  simp only [decodes, agrees, hm, hrest, lookup_setdefault_of_ne _ _ _ beamSizeKey_ne,
    lookup_setdefault, hbestOf, Option.some_inj, getD_lookup_eq_iff, decide_true, Bool.true_and,
    Bool.and_true, Bool.and_eq_true, Bool.or_eq_true, decide_eq_true_eq]

/-- **Which calls decode as their service asks**, in every run of the process:
those where the first service made with the model has the same values for what
the caller leaves open. -/
theorem meets_decodes_iff (as : List (Action α ν)) :
    Runs.Meets step callDecodes (init : Process ν) as ↔
      Runs.Meets step callAgrees (init : Process ν) as := by
  have hguard (p : Process ν) (a : Action α ν) (hp : Wrapped p) :
      callDecodes p a = callAgrees p a := by
    cases a with
    | load => rfl
    | setSharedModel model => rfl
    | construct beamSize bestOf parentLoads => rfl
    | transcribe k audio kw =>
      simp only [callDecodes, callAgrees]
      cases hk : p.services[k]? with
      | none => rfl
      | some self =>
        cases hm : self.model with
        | none => simp only [hm, Option.isNone_none, Bool.true_or]
        | some m =>
          obtain ⟨first, hfirst, hcall⟩ :=
            callThrough_eq hp (List.mem_of_getElem? hk) hm audio kw
          simp only [hm, hfirst, hcall, decodes_iff_agrees hm, Option.isNone_some,
            Bool.false_or, Option.all_some]
  rw [Runs.meets_congr (fun p a hp => Wrapped.step hp a) hguard as wrapped_init]

end Calls

/-- Two sessions with different settings on the shared model, and a call through
the second one: it decodes with the settings of the first. -/
def secondSession : List (Action Unit ℕ) :=
  [.load, .setSharedModel (some 0), .construct 1 1 true, .construct 5 5 true,
    .transcribe 1 () ∅]

theorem not_meets_secondSession :
    ¬ Runs.Meets step callDecodes (init : Process ℕ) secondSession := by
  decide

end PipecatVoice.SharedWhisper
