import Mathlib.Data.Finmap
import Mathlib.Data.Rat.Defs
import PipecatVoice.CorpusSync
import PipecatVoice.Lib.FillCache
import PipecatVoice.Lib.Runs

/-!
# The features a training run uses

`train_production.py` turns each directory of the corpus into three sets of
features, writes a configuration that lists the sets, and trains. Features that
are there are not made again, and the configuration goes by the directories of
features, not by those of the corpus.

* `train` — a run, or as much of it as gets done before it is interrupted;
* `cmdSync_dirLabel` — the download is that of `CorpusSync`;
* `step` — the corpus changes, by `collect_hard_negatives.py sync` or otherwise,
  and runs;
* `UsesCorpus` — a configuration lists the corpus as it is at the time;
* `targets_run` — features that are there stay as they are, whatever happens to the
  clips;
* `meets_usesCorpus_iff` — in which histories every run's does.

A spectrogram is not computed here: a set of features is what it was made from.
Audio is any type.
-/

namespace PipecatVoice.Training

open WakeStore (Item)
open CorpusSync (Dir destFor labelOf)

/-! ## Corpus and features -/

/-- The labels of `FEAT_ROOT`, each with its directory of the corpus. -/
inductive Label where
  /-- `corpus/positive` -/
  | positiveSynth
  /-- `corpus/positive_real` -/
  | positiveReal
  /-- `corpus/positive_real_aug` -/
  | positiveRealAug
  /-- `corpus/hard_negatives` -/
  | hardNegatives
  deriving DecidableEq

/-- The splits of a set of clips. -/
inductive Split where
  | training
  | validation
  | testing
  deriving DecidableEq

/-- All labels, in the order of the run. -/
def labels : List Label := [.positiveSynth, .positiveReal, .positiveRealAug, .hardNegatives]

theorem mem_labels (l : Label) : l ∈ labels := by cases l <;> decide

def splits : List Split := [.training, .validation, .testing]

variable {β : Type}

/-- The `*.wav` files of a directory, by name. One that does not exist has
none. -/
abbrev Clips (β : Type) := Finmap fun _ : Text => β

abbrev Corpus (β : Type) := Label → Clips β

/-- `len(list(dir.glob("*.wav")))` -/
def count (c : Corpus β) (l : Label) : ℕ := (c l).keys.card

/-- What `wakeword_mmap` of a split was made from. -/
structure Target (β : Type) where
  /-- the clips of the input directory -/
  clips : Clips β
  /-- the `split` of the generator -/
  splitName : Text
  /-- its `repeat` -/
  repeats : ℕ
  /-- `slide_frames` -/
  slide : ℕ
  /-- the generator came to its end -/
  complete : Bool
  deriving DecidableEq

/-- `generated_features` -/
structure Features (β : Type) where
  /-- the directory of a label is there -/
  dirs : Label → Bool
  /-- `wakeword_mmap` of a split, where it is there -/
  targets : Label × Split → Option (Target β)

/-! ## Making features -/

/-- `repeat_mul` -/
def Label.repeatMul : Label → ℕ
  | .positiveSynth => 1
  | .positiveReal => 8
  | .positiveRealAug => 2
  | .hardNegatives => 4

/-- The rows of the loop over the splits: name, `repeat` and `slide`. -/
def Split.row (repeatMul : ℕ) : Split → Text × ℕ × ℕ
  | .training => ("train".toList, 4 * repeatMul, 10)
  | .validation => ("validation".toList, 1, 10)
  | .testing => ("test".toList, 1, 1)

/-- The features of a split, made from the corpus as it is. -/
def fresh (c : Corpus β) (k : Label × Split) : Target β :=
  let (splitName, repeats, slide) := k.2.row k.1.repeatMul
  { clips := c k.1, splitName, repeats, slide, complete := true }

/-- What a run does to the directory of features. -/
inductive Effect where
  /-- `out_root.mkdir` -/
  | mkdir (l : Label)
  /-- a pass of the loop over the splits -/
  | generate (l : Label) (sp : Split)

/-- `gen_positive_spectrograms_for` -/
def genPositiveSpectrogramsFor (l : Label) : List Effect :=
  [.mkdir l, .generate l .training, .generate l .validation, .generate l .testing]

/-- `gen_positive_spectrograms` -/
def genPositiveSpectrograms (c : Corpus β) : List Effect :=
  [Label.positiveSynth, .positiveReal, .positiveRealAug].flatMap fun l =>
    if count c l = 0 then [] else genPositiveSpectrogramsFor l

def minHardNeg : ℕ := 10

/-- `gen_hard_negative_spectrograms` -/
def genHardNegativeSpectrograms (c : Corpus β) : List Effect :=
  if count c .hardNegatives = 0 then []
  else if count c .hardNegatives < minHardNeg then []
  else genPositiveSpectrogramsFor .hardNegatives

/-- Step 4 of a run. -/
def plan (c : Corpus β) : List Effect := genPositiveSpectrograms c ++ genHardNegativeSpectrograms c

/-- What one of them does: nothing where its directory is there. -/
def perform (c : Corpus β) (f : Features β) : Effect → Features β
  | .mkdir l => { f with dirs := Function.update f.dirs l true }
  | .generate l sp => { f with targets := FillCache.fillOne (fresh c) f.targets (l, sp) }

/-- The same, interrupted after the generator began to write. -/
def performPartly (c : Corpus β) (f : Features β) : Effect → Features β
  | .mkdir _ => f
  | .generate l sp =>
    { f with
      targets := FillCache.fillOne (fun k => { fresh c k with complete := false })
        f.targets (l, sp) }

/-- Where a run was interrupted: a crash (with fewer than some ten clips the
split of them fails), a signal, a full disk. -/
structure Interruption where
  /-- the effects done before -/
  done : ℕ
  /-- the next one was begun -/
  begun : Bool

/-- Step 4, or as much of it as gets done. -/
def genSpectrograms (c : Corpus β) (f : Features β) : Option Interruption → Features β
  | none => (plan c).foldl (perform c) f
  | some i =>
    let f := ((plan c).take i.done).foldl (perform c) f
    match (plan c)[i.done]?, i.begun with
    | some e, true => performPartly c f e
    | _, _ => f

/-! ## The configuration -/

/-- A `features_dir`. -/
inductive FeaturesDir where
  /-- under `generated_features` -/
  | generated (l : Label)
  /-- under `negative_datasets` -/
  | downloaded (name : Text)
  deriving DecidableEq

/-- An entry of `features`. -/
structure FeatureSet where
  featuresDir : FeaturesDir
  samplingWeight : ℚ
  penaltyWeight : ℚ
  truth : Bool
  truncationStrategy : Text
  /-- `type` -/
  kind : Text := "mmap".toList

/-- The entry of a label. -/
def Label.entry (l : Label) : FeatureSet where
  featuresDir := .generated l
  samplingWeight := match l with
    | positiveSynth => 1
    | positiveReal => 8
    | positiveRealAug => 4
    | hardNegatives => 20
  penaltyWeight := match l with
    | positiveSynth => 1
    | positiveReal => 3 / 2
    | positiveRealAug => 1
    | hardNegatives => 4
  truth := l ≠ hardNegatives
  truncationStrategy := "truncate_start".toList

/-- The entry of a downloaded set. -/
def downloadedEntry (name : Text) (samplingWeight : ℚ) (truncationStrategy : Text) :
    FeatureSet where
  featuresDir := .downloaded name
  samplingWeight := samplingWeight
  penaltyWeight := 1
  truth := false
  truncationStrategy := truncationStrategy

/-- The `features` of `write_config`. -/
def writeConfig (f : Features β) : List FeatureSet :=
  (labels.filter f.dirs).map Label.entry ++
    [downloadedEntry "speech".toList 10 "random".toList,
      downloadedEntry "dinner_party".toList 10 "random".toList,
      downloadedEntry "no_speech".toList 5 "random".toList,
      downloadedEntry "dinner_party_eval".toList 0 "split".toList]

/-- The configuration lists the features of a label. -/
def lists (config : List FeatureSet) (l : Label) : Bool :=
  config.any fun e => e.featuresDir = .generated l

/-! ## Histories -/

/-- The working directory of the tools. -/
structure State (β : Type) where
  corpus : Corpus β
  features : Features β
  /-- the `features` of the configuration written last -/
  config : Option (List FeatureSet)

/-- A fresh checkout with some corpus. -/
def start (c : Corpus β) : State β where
  corpus := c
  features := { dirs := fun _ => false, targets := fun _ => none }
  config := none

/-- The run gets to write its configuration: there is a positive clip, and
nothing interrupts it before. -/
def writesConfig (s : State β) (stop : Option Interruption) : Bool :=
  count s.corpus .positiveSynth ≠ 0 && stop.isNone

/-- `main` of `train_production.py` -/
def train (s : State β) (stop : Option Interruption) : State β :=
  if count s.corpus .positiveSynth = 0 then s
  else
    let features := genSpectrograms s.corpus s.features stop
    { s with
      features
      config := if stop.isNone then some (writeConfig features) else s.config }

/-- The label of a directory `collect_hard_negatives.py` writes to. -/
def dirLabel : Dir → Label
  | .positiveReal => .positiveReal
  | .hardNegatives => .hardNegatives

/-- One item of the backend's list, with the audio it sends. -/
def syncOne (c : Corpus β) (e : Item × β) : Corpus β :=
  match destFor (labelOf e.1) with
  | none => c
  | some dest =>
    if e.1.wav ∈ c (dirLabel dest) then c
    else Function.update c (dirLabel dest) ((c (dirLabel dest)).insert e.1.wav e.2)

/-- `cmd_sync`; a download that fails ends it. -/
def cmdSync (failed : Option ℕ) (samples : List (Item × β)) (c : Corpus β) : Corpus β :=
  let processed := match failed with
    | none => samples
    | some k => samples.take k
  processed.foldl syncOne c

/-- What happens next. -/
inductive Action (β : Type) where
  /-- `collect_hard_negatives.py sync`, or as much of it as succeeds -/
  | sync (failed : Option ℕ) (samples : List (Item × β))
  /-- a clip is recorded, synthesised or copied into a directory -/
  | add (l : Label) (name : Text) (audio : β)
  | remove (l : Label) (name : Text)
  | move (src dst : Label) (name : Text)
  /-- `train_production.py` -/
  | train (stop : Option Interruption)

/-- One action. -/
def step (s : State β) : Action β → State β
  | .sync failed samples => { s with corpus := cmdSync failed samples s.corpus }
  | .add l name audio =>
    { s with corpus := Function.update s.corpus l ((s.corpus l).insert name audio) }
  | .remove l name => { s with corpus := Function.update s.corpus l ((s.corpus l).erase name) }
  | .move src dst name =>
    match (s.corpus src).lookup name with
    | none => s
    | some audio =>
      let corpus := Function.update s.corpus src ((s.corpus src).erase name)
      { s with corpus := Function.update corpus dst ((corpus dst).insert name audio) }
  | .train stop => train s stop

/-! ## The download -/

theorem dirLabel_inj {dir dir' : Dir} : dirLabel dir = dirLabel dir' ↔ dir = dir' := by
  cases dir <;> cases dir' <;> decide

/-- One item goes where it goes in the corpus of the collector alone. -/
theorem syncOne_dirLabel (c : Corpus β) (x : Item × β) :
    (fun dir => syncOne c x (dirLabel dir)) =
      CorpusSync.syncOne (fun dir => c (dirLabel dir)) x := by
  unfold syncOne CorpusSync.syncOne
  cases destFor (labelOf x.1) with
  | none => rfl
  | some dest =>
    simp only
    split
    · rfl
    · funext dir
      by_cases hdir : dir = dest
      · subst hdir
        rw [Function.update_self, Function.update_self]
      · rw [Function.update_of_ne hdir, Function.update_of_ne fun h => hdir (dirLabel_inj.mp h)]

/-- **The download** is that of the collector, whose directories are two of the four
here. -/
theorem cmdSync_dirLabel (failed : Option ℕ) (samples : List (Item × β)) (c : Corpus β) :
    (fun dir => cmdSync failed samples c (dirLabel dir)) =
      CorpusSync.cmdSync failed samples (fun dir => c (dirLabel dir)) := by
  have hfold (xs : List (Item × β)) (c : Corpus β) :
      (fun dir => xs.foldl syncOne c (dirLabel dir)) =
        xs.foldl CorpusSync.syncOne (fun dir => c (dirLabel dir)) := by
    induction xs generalizing c with
    | nil => rfl
    | cons x xs ih => rw [List.foldl_cons, List.foldl_cons, ih, syncOne_dirLabel]
  cases failed with
  | none => exact hfold samples c
  | some k => exact hfold (samples.take k) c

/-! ## What a run is to train on -/

/-- The clips that make a set of features: one positive, or ten hard negatives. -/
def enough (c : Corpus β) : Label → Bool
  | .hardNegatives => minHardNeg ≤ count c .hardNegatives
  | l => 1 ≤ count c l

section Spec

variable [DecidableEq β]

/-- The configuration lists the labels with enough clips, and the features of
each are made, to the end, from the clips there are. -/
def usesCorpus (c : Corpus β) (f : Features β) (config : List FeatureSet) : Bool :=
  labels.all fun l =>
    lists config l == enough c l &&
      (!lists config l || splits.all fun sp => f.targets (l, sp) = some (fresh c (l, sp)))

/-- The step, if a run that writes a configuration, does so. -/
def runUsesCorpus (s : State β) : Action β → Bool
  | .train stop =>
    !writesConfig s stop ||
      (train s stop).config.all fun config => usesCorpus s.corpus (train s stop).features config
  | _ => true

/-- What there is of features when such a run begins: for a label with enough
clips only complete ones made from these clips, for another no directory. -/
def cacheCurrent (s : State β) : Action β → Bool
  | .train stop =>
    !writesConfig s stop || labels.all fun l =>
      if enough s.corpus l then splits.all fun sp =>
        (s.features.targets (l, sp)).all fun t => t.complete && t.clips = s.corpus l
      else !s.features.dirs l
  | _ => true

end Spec

/-! ## The features after a run -/

/-- The label whose directory an effect is in. -/
def Effect.label : Effect → Label
  | .mkdir l => l
  | .generate l _ => l

/-- The set of features an effect makes. -/
def Effect.target? : Effect → Option (Label × Split)
  | .mkdir _ => none
  | .generate l sp => some (l, sp)

theorem mem_genPositiveSpectrogramsFor {l : Label} {e : Effect} :
    e ∈ genPositiveSpectrogramsFor l ↔ e.label = l := by
  cases e with
  | mkdir l' => simp [genPositiveSpectrogramsFor, Effect.label]
  | generate l' sp => cases sp <;> simp [genPositiveSpectrogramsFor, Effect.label]

/-- **The plan**: all effects for each label with enough clips. -/
theorem mem_plan {c : Corpus β} {e : Effect} : e ∈ plan c ↔ enough c e.label = true := by
  have hhard : e ∈ genHardNegativeSpectrograms c ↔
      e.label = .hardNegatives ∧ minHardNeg ≤ count c .hardNegatives := by
    rw [genHardNegativeSpectrograms]
    split
    · rename_i hzero
      rw [hzero]
      simp [minHardNeg]
    · split
      · simp; omega
      · rw [mem_genPositiveSpectrogramsFor]
        simp; omega
  have hpositive : e ∈ genPositiveSpectrograms c ↔
      e.label ≠ .hardNegatives ∧ 1 ≤ count c e.label := by
    simp only [genPositiveSpectrograms, List.mem_flatMap, apply_ite (e ∈ ·),
      mem_genPositiveSpectrogramsFor]
    cases hl : e.label <;> simp [Nat.one_le_iff_ne_zero]
  rw [plan, List.mem_append, hhard, hpositive]
  cases hl : e.label <;> simp [enough]

theorem targets_foldl_perform (c : Corpus β) (es : List Effect) (f : Features β) :
    (es.foldl (perform c) f).targets =
      FillCache.fill (fresh c) f.targets (es.filterMap Effect.target?) := by
  induction es generalizing f with
  | nil => rfl
  | cons e es ih =>
    rw [List.foldl_cons, ih]
    cases e <;> rfl

theorem dirs_foldl_perform (c : Corpus β) (es : List Effect) (f : Features β) (l : Label) :
    (es.foldl (perform c) f).dirs l = true ↔ f.dirs l = true ∨ Effect.mkdir l ∈ es := by
  induction es generalizing f with
  | nil => simp
  | cons e es ih =>
    rw [List.foldl_cons, ih, List.mem_cons]
    cases e with
    | generate l' sp => simp [perform]
    | mkdir l' =>
      by_cases hl : l = l'
      · subst hl
        simp [perform]
      · simp [perform, hl]

/-- After a whole run the directories are those that were there and those of the
labels with enough clips. -/
theorem dirs_genSpectrograms (c : Corpus β) (f : Features β) (l : Label) :
    (genSpectrograms c f none).dirs l = (f.dirs l || enough c l) := by
  rw [Bool.eq_iff_iff, Bool.or_eq_true, genSpectrograms, dirs_foldl_perform, mem_plan]
  rfl

/-- After a whole run the features of a label with enough clips are made from
them, unless others were there. -/
theorem targets_genSpectrograms_iff {c : Corpus β} {l : Label} (hl : enough c l = true)
    (f : Features β) (sp : Split) :
    (genSpectrograms c f none).targets (l, sp) = some (fresh c (l, sp)) ↔
      ∀ t, f.targets (l, sp) = some t → t = fresh c (l, sp) := by
  rw [genSpectrograms, targets_foldl_perform]
  apply FillCache.fill_eq_fresh_iff
  rw [List.mem_filterMap]
  exact ⟨.generate l sp, mem_plan.mpr hl, rfl⟩

theorem lists_writeConfig (f : Features β) (l : Label) : lists (writeConfig f) l = f.dirs l := by
  rw [Bool.eq_iff_iff, lists, List.any_eq_true]
  refine ⟨?_, ?_⟩
  · rintro ⟨e, he, hdir⟩
    have hdir := of_decide_eq_true hdir
    rcases List.mem_append.mp he with hmade | hdownloaded
    · obtain ⟨l', hl', rfl⟩ := List.mem_map.mp hmade
      obtain rfl : l' = l := FeaturesDir.generated.inj hdir
      exact (List.mem_filter.mp hl').2
    · simp only [List.mem_cons, List.not_mem_nil, or_false] at hdownloaded
      rcases hdownloaded with rfl | rfl | rfl | rfl <;> cases hdir
  · intro hl
    refine ⟨l.entry, ?_, decide_eq_true rfl⟩
    exact List.mem_append_left _ (List.mem_map_of_mem (List.mem_filter.mpr ⟨mem_labels l, hl⟩))

/-! ## What the features were made from -/

/-- Features that a run began to make, from the clips of some corpus. -/
def MadeTarget (k : Label × Split) (t : Target β) : Prop :=
  ∃ c : Corpus β, t = { fresh c k with complete := t.complete }

/-- **The invariant**: all features were begun by a run, so that they have the
parameters of their label and split. -/
def Made (f : Features β) : Prop := ∀ k t, f.targets k = some t → MadeTarget k t

theorem made_start (c : Corpus β) : Made (start c).features := by
  intro k t ht
  cases ht

theorem Made.perform_foldl {f : Features β} (h : Made f) (c : Corpus β) (es : List Effect) :
    Made (es.foldl (perform c) f) := by
  rw [Made, targets_foldl_perform]
  have hfresh (k) : MadeTarget k (fresh c k) := ⟨c, rfl⟩
  exact FillCache.forall_fill hfresh h _

theorem Made.performPartly {f : Features β} (h : Made f) (c : Corpus β) (e : Effect) :
    Made (performPartly c f e) := by
  cases e with
  | mkdir l => exact h
  | generate l sp =>
    have hbegun (k) : MadeTarget k { fresh c k with complete := false } := ⟨c, rfl⟩
    exact FillCache.forall_fill hbegun h [(l, sp)]

theorem Made.genSpectrograms {f : Features β} (h : Made f) (c : Corpus β)
    (stop : Option Interruption) : Made (genSpectrograms c f stop) := by
  cases stop with
  | none => exact h.perform_foldl c _
  | some i =>
    have hdone := h.perform_foldl c ((plan c).take i.done)
    rw [Training.genSpectrograms]
    split
    · exact hdone.performPartly c _
    · exact hdone

theorem Made.step {s : State β} (h : Made s.features) (a : Action β) :
    Made (step s a).features := by
  cases a with
  | sync failed samples => exact h
  | add l name audio => exact h
  | remove l name => exact h
  | move src dst name =>
    rw [Training.step]
    split <;> exact h
  | train stop =>
    rw [Training.step, train]
    split
    · exact h
    · exact h.genSpectrograms s.corpus stop

theorem perform_foldl_keeps {c : Corpus β} {f : Features β} {k : Label × Split} {t : Target β}
    (h : f.targets k = some t) (es : List Effect) :
    (es.foldl (perform c) f).targets k = some t := by
  rw [targets_foldl_perform]
  exact FillCache.fill_of_some h

theorem performPartly_keeps {c : Corpus β} {f : Features β} {k : Label × Split} {t : Target β}
    (h : f.targets k = some t) (e : Effect) : (performPartly c f e).targets k = some t := by
  cases e with
  | mkdir l => exact h
  | generate l sp =>
    have hkept : FillCache.fill (fun k => { fresh c k with complete := false }) f.targets
        [(l, sp)] k = some t := FillCache.fill_of_some h
    exact hkept

theorem genSpectrograms_keeps {c : Corpus β} {f : Features β} {k : Label × Split} {t : Target β}
    (h : f.targets k = some t) (stop : Option Interruption) :
    (genSpectrograms c f stop).targets k = some t := by
  cases stop with
  | none => exact perform_foldl_keeps h _
  | some i =>
    have hdone := perform_foldl_keeps (c := c) h ((plan c).take i.done)
    rw [genSpectrograms]
    split
    · exact performPartly_keeps hdone _
    · exact hdone

/-- Features are never made again: what a label and split have, they keep. -/
theorem targets_run {s : State β} {k : Label × Split} {t : Target β}
    (ht : s.features.targets k = some t) (as : List (Action β)) :
    (Runs.run step s as).features.targets k = some t := by
  refine Runs.run_induct (I := fun s : State β => s.features.targets k = some t) ?_ as ht
  intro s a h
  cases a with
  | sync failed samples => exact h
  | add l name audio => exact h
  | remove l name => exact h
  | move src dst name =>
    rw [step]
    split <;> exact h
  | train stop =>
    rw [step, train]
    split
    · exact h
    · exact genSpectrograms_keeps h stop

section Use

variable [DecidableEq β]

/-- Features that were made by a run are fresh if they are complete and made from
the clips there are. -/
theorem eq_fresh_iff {f : Features β} (h : Made f) {k : Label × Split} {t : Target β}
    (ht : f.targets k = some t) (c : Corpus β) :
    t = fresh c k ↔ (t.complete && t.clips = c k.1) = true := by
  obtain ⟨c', hc'⟩ := h k t ht
  rw [Bool.and_eq_true, decide_eq_true_eq]
  refine ⟨?_, ?_⟩
  · rintro rfl
    exact ⟨rfl, rfl⟩
  · rintro ⟨hcomplete, hclips⟩
    rw [hc'] at hclips ⊢
    rw [hcomplete]
    have hsame : c' k.1 = c k.1 := hclips
    simp only [fresh, hsame]

/-- A run that writes its configuration uses the corpus exactly when the features
it found allow for it. -/
theorem runUsesCorpus_eq {s : State β} (h : Made s.features) (a : Action β) :
    runUsesCorpus s a = cacheCurrent s a := by
  cases a with
  | sync failed samples => rfl
  | add l name audio => rfl
  | remove l name => rfl
  | move src dst name => rfl
  | train stop =>
    simp only [runUsesCorpus, cacheCurrent]
    cases hwrites : writesConfig s stop with
    | false => rfl
    | true =>
      obtain ⟨hpositive, hstop⟩ := (Bool.and_eq_true _ _).mp hwrites
      obtain rfl := Option.isNone_iff_eq_none.mp hstop
      have hcount : count s.corpus .positiveSynth ≠ 0 := of_decide_eq_true hpositive
      simp only [train, if_neg hcount, Option.isNone_none, if_true, Option.all_some,
        Bool.not_true, Bool.false_or, usesCorpus, lists_writeConfig, dirs_genSpectrograms]
      congr 1
      funext l
      cases hl : enough s.corpus l with
      | false => cases s.features.dirs l <;> simp
      | true =>
        simp only [Bool.or_true, if_true, beq_self_eq_true, Bool.true_and, Bool.not_true,
          Bool.false_or]
        congr 1
        funext sp
        rw [Bool.eq_iff_iff, decide_eq_true_eq, targets_genSpectrograms_iff hl]
        cases ht : s.features.targets (l, sp) with
        | none => simp
        | some t =>
          rw [Option.all_some, ← eq_fresh_iff h ht]
          simp

theorem mem_splits (sp : Split) : sp ∈ splits := by cases sp <;> decide

/-- Features that are there go stale with the first change of their clips: a later run
does not use the corpus, unless the clips are what they were. -/
theorem runUsesCorpus_of_stale {s : State β} (h : Made s.features) {l : Label} {sp : Split}
    {t : Target β} (ht : s.features.targets (l, sp) = some t) (as : List (Action β))
    {stop : Option Interruption} (hwrites : writesConfig (Runs.run step s as) stop = true)
    (henough : enough (Runs.run step s as).corpus l = true)
    (hclips : t.clips ≠ (Runs.run step s as).corpus l) :
    runUsesCorpus (Runs.run step s as) (.train stop) = false := by
  have hmade : Made (Runs.run step s as).features :=
    Runs.run_induct (I := fun s : State β => Made s.features) (fun _ a h => h.step a) as h
  rw [runUsesCorpus_eq hmade, cacheCurrent, hwrites, Bool.not_true, Bool.false_or,
    ← Bool.not_eq_true, List.all_eq_true]
  intro hcurrent
  have hlabel := hcurrent l (mem_labels l)
  rw [if_pos henough, List.all_eq_true] at hlabel
  have hsplit := hlabel sp (mem_splits sp)
  rw [targets_run ht as, Option.all_some, Bool.and_eq_true, decide_eq_true_eq] at hsplit
  exact hclips hsplit.2

/-- **Which runs train on the corpus there is**, in every history of the corpus
and of runs, interrupted ones among them: those that find only complete features
made from the same clips, and no directory of features for a label that has not
enough clips. -/
theorem meets_usesCorpus_iff (c : Corpus β) (as : List (Action β)) :
    Runs.Meets step runUsesCorpus (start c) as ↔ Runs.Meets step cacheCurrent (start c) as := by
  rw [Runs.meets_congr (I := fun s => Made s.features) (fun _ a h => h.step a)
    (fun _ a h => runUsesCorpus_eq h a) as (made_start c)]

end Use

/-! ## Sync, then retrain -/

/-- Where a second download changes the clips of a label that was trained on, the second
run does not use the corpus. -/
theorem not_meets_of_changed [DecidableEq β] {c₀ c c' : Corpus β} {xs ys : List (Item × β)}
    (hc : cmdSync none xs c₀ = c) (hc' : cmdSync none ys c = c')
    (hcount : count c .positiveSynth ≠ 0) (hcount' : count c' .positiveSynth ≠ 0) {l : Label}
    (henough : enough c l = true) (henough' : enough c' l = true) (hne : c l ≠ c' l) :
    ¬ Runs.Meets step runUsesCorpus (start c₀)
      [.sync none xs, .train none, .sync none ys, .train none] := by
  intro hmeets
  simp only [Runs.Meets, Bool.and_eq_true] at hmeets
  obtain ⟨-, -, -, hlast, -⟩ := hmeets
  -- what the first run leaves
  let s : State β :=
    { corpus := c, features := genSpectrograms c (start c₀).features none
      config := some (writeConfig (genSpectrograms c (start c₀).features none)) }
  have hsync : step (start c₀) (.sync none xs) = { start c₀ with corpus := c } := by
    rw [← hc]
    rfl
  have htrained : step (step (start c₀) (.sync none xs)) (.train none) = s := by
    rw [hsync]
    show train _ _ = _
    rw [train, if_neg hcount]
    rfl
  have htarget : s.features.targets (l, .training) = some (fresh c (l, .training)) :=
    (targets_genSpectrograms_iff henough _ _).mpr fun _ h => absurd h.symm (Option.some_ne_none _)
  have hcorpus : (Runs.run step s [.sync none ys]).corpus = c' := hc'
  have hwrites : writesConfig (Runs.run step s [.sync none ys]) none = true := by
    rw [writesConfig, hcorpus]
    simpa using hcount'
  have hstale := runUsesCorpus_of_stale ((made_start c₀).genSpectrograms c none) htarget
    [.sync none ys] hwrites (by rw [hcorpus]; exact henough') (by rw [hcorpus]; exact hne)
  rw [htrained] at hlast
  exact absurd hlast (Bool.eq_false_iff.mp hstale)

/-- The name of a clip. -/
def clipName (i : ℕ) : Text := (toString i).toList ++ ".wav".toList

/-- Ten synthesised clips. -/
def tenClips : Corpus ℕ := fun l =>
  if l = .positiveSynth then (List.range 10).foldl (fun d i => d.insert (clipName i) i) ∅ else ∅

/-- A clip as the backend lists it once it is labelled. -/
def labelled (i : ℕ) : Item × ℕ :=
  ({ wav := clipName i, bytes := 4
     sidecar := AList.singleton WakeStore.labelKey (.str Dir.positiveReal.label) }, i)

/-- Ten clips are labelled, the corpus synchronised and the model trained; then the
same with one clip more. -/
def retrain : List (Action ℕ) :=
  [.sync none ((List.range 10).map labelled), .train none,
    .sync none ((List.range 11).map labelled), .train none]

/-- The second run trains on the first ten clips alone. -/
theorem not_meets_retrain : ¬ Runs.Meets step runUsesCorpus (start tenClips) retrain := by
  have hten : count (cmdSync none ((List.range 10).map labelled) tenClips) .positiveReal = 10 := by
    decide +kernel
  have heleven : count (cmdSync none ((List.range 11).map labelled)
      (cmdSync none ((List.range 10).map labelled) tenClips)) .positiveReal = 11 := by
    decide +kernel
  refine not_meets_of_changed rfl rfl (by decide +kernel) (by decide +kernel)
    (l := .positiveReal) (by simp [enough, hten])
    (by simp [enough, heleven]) ?_
  intro hsame
  rw [count, ← hsame] at heleven
  exact absurd (hten.symm.trans heleven) (by decide)

end PipecatVoice.Training
