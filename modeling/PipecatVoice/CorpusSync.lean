import Mathlib.Data.Finmap
import PipecatVoice.WakeStore

/-!
# The training corpus

`collect_hard_negatives.py sync` asks the backend for its list of samples and
downloads what is labelled: positive clips into one directory, negative ones
into another. A file that is there already is left alone, and none is ever taken
away.

* `cmdSync` — the download, for audio of any type;
* `Agrees` — the directories hold what the backend says;
* `agrees_iff` — which histories keep it so.
-/

namespace PipecatVoice.CorpusSync

open WakeStore (CharTables Item Json Store labelKey wakeSampleGet wakeSamplesList)

/-- The directories of the corpus. -/
inductive Dir where
  /-- `corpus/positive_real` -/
  | positiveReal
  /-- `corpus/hard_negatives` -/
  | hardNegatives
  deriving DecidableEq

/-- The label that sends a clip to a directory. -/
def Dir.label : Dir → Text
  | .positiveReal => "positive".toList
  | .hardNegatives => "negative".toList

/-- `dest_for` -/
def destFor (label : Json) : Option Dir :=
  if label = .str Dir.positiveReal.label then some .positiveReal
  else if label = .str Dir.hardNegatives.label then some .hardNegatives
  else none

/-- The label of an item. -/
def labelOf (e : Item) : Json := (e.sidecar.lookup labelKey).getD (.str "unlabeled".toList)

variable {β : Type}

/-- The files of each directory, by name. -/
abbrev Corpus (β : Type) := Dir → Finmap fun _ : Text => β

/-- One item of the list, with the audio that is sent for it. -/
def syncOne (c : Corpus β) (x : Item × β) : Corpus β :=
  match destFor (labelOf x.1) with
  | none => c
  | some dest =>
    if x.1.wav ∈ c dest then c else Function.update c dest ((c dest).insert x.1.wav x.2)

/-- The items that are gone through; a download that fails ends the script. -/
def processed (failed : Option ℕ) (samples : List (Item × β)) : List (Item × β) :=
  match failed with
  | none => samples
  | some k => samples.take k

/-- `cmd_sync` -/
def cmdSync (failed : Option ℕ) (samples : List (Item × β)) (c : Corpus β) : Corpus β :=
  (processed failed samples).foldl syncOne c

/-! ## Histories -/

/-- The backend and the trainer. -/
structure State where
  /-- the backend -/
  backend : WakeStore.State
  /-- the corpus -/
  corpus : Corpus (List UInt8)
  /-- what the runs went through so far -/
  read : List (Item × List UInt8)
  /-- the corpus has just been synchronised -/
  synced : Bool

/-- What happens next. -/
inductive Action where
  /-- a request to the backend -/
  | request (a : WakeStore.Action)
  /-- `collect_hard_negatives.py sync`, or as much of it as succeeds -/
  | sync (failed : Option ℕ)

/-- The list the backend answers with, each sample with the clip it sends for it
(`samples_list`, `get_of_mem_samples`). -/
def State.samples (s : State) : List (Item × List UInt8) :=
  (s.backend.store.sortedBy (· ≥ ·)).map fun p =>
    ({ wav := p.1 ++ ".wav".toList, bytes := p.2.wav.length, sidecar := p.2.sidecar }, p.2.wav)

/-- One action. -/
def step (t : CharTables) (keep : ℤ) (s : State) : Action → State
  | .request a => { s with backend := WakeStore.step t keep s.backend a, synced := false }
  | .sync failed =>
    { s with
      corpus := cmdSync failed s.samples s.corpus
      read := s.read ++ processed failed s.samples
      synced := failed.isNone }

/-- No samples, and empty directories. -/
def start : State := ⟨WakeStore.start, fun _ => ∅, [], false⟩

/-- No name is in both directories, and right after a synchronisation the clip of each
sample of the backend is where its label says, and there is no file of its name
elsewhere. -/
structure Agrees (s : State) : Prop where
  /-- a name is in one directory -/
  one : ∀ name dir dir', name ∈ s.corpus dir → name ∈ s.corpus dir' → dir = dir'
  /-- the directories, the labels and the clips -/
  label : s.synced → ∀ e ∈ wakeSamplesList s.backend.store, ∃ audio,
    wakeSampleGet s.backend.store e.wav = some (.wav audio) ∧
      ∀ dir, (s.corpus dir).lookup e.wav = if labelOf e = .str dir.label then some audio else none

/-- The clip that was the first to be read under a name with the label of a
directory. -/
def firstRead (dir : Dir) (name : Text) (read : List (Item × β)) : Option β :=
  (read.find? fun x => x.1.wav = name ∧ destFor (labelOf x.1) = some dir).map Prod.snd

/-- A sample that the synchronisation goes through has neither another label nor
another clip than when a run first read its name with a label that sends it to a
directory. A run that fails half way may also find the label taken back, or the clip
replaced. -/
def samplesKept (s : State) : Action → Bool
  | .request _ => true
  | .sync failed =>
    (processed failed s.samples).all fun x =>
      [Dir.positiveReal, .hardNegatives].all fun dir =>
        (firstRead dir x.1.wav s.read).all fun audio =>
          destFor (labelOf x.1) = some dir && (failed.isSome || x.2 = audio) ||
            failed.isSome && destFor (labelOf x.1) = none

/-! ## The samples that are served -/

theorem samples_list (s : State) : s.samples.map Prod.fst = wakeSamplesList s.backend.store := by
  rw [State.samples, List.map_map, wakeSamplesList]
  rfl

theorem mem_samples_iff {s : State} {x : Item × List UInt8} :
    x ∈ s.samples ↔ ∃ base sample, s.backend.store.lookup base = some sample ∧
      x = ({ wav := base ++ ".wav".toList, bytes := sample.wav.length
             sidecar := sample.sidecar }, sample.wav) := by
  rw [State.samples, List.mem_map]
  refine ⟨?_, ?_⟩
  · rintro ⟨⟨base, sample⟩, hmem, rfl⟩
    exact ⟨base, sample, AList.mem_lookup_iff.mpr ((List.mem_insertionSort _).mp hmem), rfl⟩
  · rintro ⟨base, sample, hlookup, rfl⟩
    exact ⟨⟨base, sample⟩, (List.mem_insertionSort _).mpr (AList.mem_lookup_iff.mp hlookup), rfl⟩

/-- A name has one item and one clip. -/
theorem sample_unique {s : State} {x x' : Item × List UInt8} (hx : x ∈ s.samples)
    (hx' : x' ∈ s.samples) (hname : x.1.wav = x'.1.wav) : x = x' := by
  obtain ⟨base, sample, hlookup, rfl⟩ := mem_samples_iff.mp hx
  obtain ⟨base', sample', hlookup', rfl⟩ := mem_samples_iff.mp hx'
  obtain rfl := WakeStore.wav_inj hname
  obtain rfl := Option.some.inj (hlookup.symm.trans hlookup')
  rfl

/-- The base names are names of files in the directory. -/
def Named (s : State) : Prop := ∀ base ∈ s.backend.store, '/' ∉ base

/-- The rotation only removes samples. -/
theorem mem_of_mem_rotate {keep : ℤ} {s : Store} {base : Text}
    (h : base ∈ WakeStore.rotateWakeSamples keep s) : base ∈ s := by
  rw [WakeStore.rotateWakeSamples] at h
  revert h
  generalize (if keep > 0 then _ else _ : List (Sigma fun _ : Text => WakeStore.Sample)) = old
  induction old generalizing s with
  | nil => exact id
  | cons p old ih =>
    intro h
    exact (AList.mem_erase.mp (ih h)).2

theorem Named.step {t : CharTables} {keep : ℤ} {s : State} (h : Named s) (a : Action) :
    Named (step t keep s a) := by
  cases a with
  | sync failed => exact h
  | request a =>
    cases a with
    | upload u =>
      intro base hbase
      simp only [CorpusSync.step, WakeStore.step, WakeStore.wakeSample] at hbase
      by_cases hbody : u.body = []
      · rw [if_pos hbody] at hbase
        exact h base hbase
      · rw [if_neg hbody] at hbase
        obtain rfl | hold := (AList.mem_insert _).mp (mem_of_mem_rotate hbase)
        · exact WakeStore.slash_notMem_base t u
        · exact h base hold
    | label name label =>
      obtain hsame | ⟨stem, e, l, hlookup, heq⟩ := WakeStore.step_label t keep s.backend name label
      · intro base hbase
        refine h base ?_
        rwa [CorpusSync.step, hsame] at hbase
      · intro base hbase
        rw [CorpusSync.step, heq] at hbase
        obtain rfl | hold := (AList.mem_insert _).mp hbase
        · exact h base (AList.lookup_isSome.mp (hlookup ▸ rfl))
        · exact h base hold

/-- A listed sample can be downloaded. -/
theorem get_of_mem_samples {s : State} (h : Named s) {x : Item × List UInt8}
    (hx : x ∈ s.samples) : wakeSampleGet s.backend.store x.1.wav = some (.wav x.2) := by
  obtain ⟨base, sample, hlookup, rfl⟩ := mem_samples_iff.mp hx
  have hslash := h base (AList.lookup_isSome.mp (hlookup ▸ rfl))
  rw [WakeStore.wakeSampleGet_wav hslash, hlookup]
  rfl

/-! ## The directories -/

theorem destFor_eq_some {label : Json} {dir : Dir} :
    destFor label = some dir ↔ label = .str dir.label := by
  refine ⟨?_, ?_⟩
  · intro h
    unfold destFor at h
    split at h
    · obtain rfl := Option.some.inj h
      assumption
    · split at h
      · obtain rfl := Option.some.inj h
        assumption
      · cases h
  · rintro rfl
    cases dir <;> decide

/-- **One item**: its clip is added where its label says, unless there is a file of
its name. -/
theorem lookup_syncOne (c : Corpus β) (x : Item × β) (dir : Dir) (name : Text) :
    (syncOne c x dir).lookup name = ((c dir).lookup name).or (firstRead dir name [x]) := by
  unfold syncOne
  cases hdest : destFor (labelOf x.1) with
  | none => simp [firstRead, hdest]
  | some dest =>
    by_cases hdir : dest = dir
    · subst hdir
      by_cases hname : x.1.wav = name
      · subst hname
        by_cases hmem : x.1.wav ∈ c dest
        · obtain ⟨audio, haudio⟩ := Finmap.mem_iff.mp hmem
          simp [hmem, haudio]
        · simp [hmem, Finmap.lookup_eq_none.mpr hmem, firstRead, hdest]
      · have hfirst : firstRead dest name [x] = none := by simp [firstRead, hname]
        rw [hfirst, Option.or_none]
        simp only
        split
        · rfl
        · rw [Function.update_self, Finmap.lookup_insert_of_ne _ (Ne.symm hname)]
    · have hfirst : firstRead dir name [x] = none := by simp [firstRead, hdest, hdir]
      rw [hfirst, Option.or_none]
      simp only
      split
      · rfl
      · rw [Function.update_of_ne (Ne.symm hdir)]

theorem firstRead_append (dir : Dir) (name : Text) (xs ys : List (Item × β)) :
    firstRead dir name (xs ++ ys) = (firstRead dir name xs).or (firstRead dir name ys) := by
  rw [firstRead, List.find?_append, Option.map_or]
  rfl

/-- **All of them**: what was there stays, and else the first that was read comes. -/
theorem lookup_foldl_syncOne (xs : List (Item × β)) (c : Corpus β) (dir : Dir) (name : Text) :
    (xs.foldl syncOne c dir).lookup name = ((c dir).lookup name).or (firstRead dir name xs) := by
  induction xs generalizing c with
  | nil => exact Option.or_none.symm
  | cons x xs ih =>
    rw [List.foldl_cons, ih, lookup_syncOne, Option.or_assoc, ← firstRead_append]
    rfl

/-- The directories hold what was read first. -/
def Recorded (s : State) : Prop :=
  ∀ dir name, (s.corpus dir).lookup name = firstRead dir name s.read

theorem Recorded.step {t : CharTables} {keep : ℤ} {s : State} (h : Recorded s) (a : Action) :
    Recorded (step t keep s a) := by
  cases a with
  | request a => exact h
  | sync failed =>
    intro dir name
    simp only [CorpusSync.step, cmdSync]
    rw [lookup_foldl_syncOne, h dir name, firstRead_append]

theorem mem_of_mem_processed {failed : Option ℕ} {samples : List (Item × β)} {x : Item × β}
    (h : x ∈ processed failed samples) : x ∈ samples := by
  cases failed with
  | none => exact h
  | some k => exact List.mem_of_mem_take h

/-- Of the samples of a run, one has the name. -/
theorem firstRead_of_mem {s : State} {failed : Option ℕ} {x : Item × List UInt8}
    (hx : x ∈ processed failed s.samples) (dir : Dir) :
    firstRead dir x.1.wav (processed failed s.samples) =
      if destFor (labelOf x.1) = some dir then some x.2 else none := by
  rw [firstRead]
  cases hfind : (processed failed s.samples).find? fun y =>
      y.1.wav = x.1.wav ∧ destFor (labelOf y.1) = some dir with
  | none =>
    have hno := List.find?_eq_none.mp hfind x hx
    rw [if_neg fun hdest => hno (decide_eq_true ⟨rfl, hdest⟩)]
    rfl
  | some y =>
    have hy := List.find?_some hfind
    obtain ⟨hname, hdest⟩ := of_decide_eq_true hy
    obtain rfl := sample_unique (mem_of_mem_processed (List.mem_of_find?_eq_some hfind))
      (mem_of_mem_processed hx) hname
    rw [if_pos hdest]
    rfl

theorem exists_of_firstRead {dir : Dir} {name : Text} {xs : List (Item × β)} {audio : β}
    (h : firstRead dir name xs = some audio) :
    ∃ x ∈ xs, x.1.wav = name ∧ destFor (labelOf x.1) = some dir := by
  obtain ⟨x, hfind, -⟩ := Option.map_eq_some_iff.mp h
  have hx := List.find?_some hfind
  exact ⟨x, List.mem_of_find?_eq_some hfind, of_decide_eq_true hx⟩

/-- What the condition says of one sample. -/
theorem samplesKept_iff {s : State} {failed : Option ℕ} (h : Recorded s) :
    samplesKept s (.sync failed) ↔ ∀ x ∈ processed failed s.samples, ∀ dir audio,
      (s.corpus dir).lookup x.1.wav = some audio →
        destFor (labelOf x.1) = some dir ∧ (failed.isSome ∨ x.2 = audio) ∨
          failed.isSome ∧ destFor (labelOf x.1) = none := by
  have hdirs (p : Dir → Prop) :
      (∀ dir ∈ [Dir.positiveReal, .hardNegatives], p dir) ↔ ∀ dir, p dir := by
    refine ⟨fun hp dir => hp dir ?_, fun hp dir _ => hp dir⟩
    cases dir <;> decide
  simp only [samplesKept, List.all_eq_true, hdirs, ← h _ _, Option.all_eq_true,
    Bool.or_eq_true, Bool.and_eq_true, decide_eq_true_eq]

/-- A file in a directory after a synchronisation was there before, or was brought
there. -/
theorem mem_sync {t : CharTables} {keep : ℤ} {s : State} {failed : Option ℕ} {dir : Dir}
    {name : Text} (h : name ∈ (step t keep s (.sync failed)).corpus dir) :
    name ∈ s.corpus dir ∨
      ∃ x ∈ processed failed s.samples, x.1.wav = name ∧ destFor (labelOf x.1) = some dir := by
  obtain ⟨audio, haudio⟩ := Finmap.mem_iff.mp h
  simp only [step, cmdSync, lookup_foldl_syncOne] at haudio
  obtain hold | ⟨-, hnew⟩ := Option.or_eq_some_iff.mp haudio
  · exact .inl (Finmap.mem_iff.mpr ⟨audio, hold⟩)
  · exact .inr (exists_of_firstRead hnew)

/-- The file of a sample after the synchronisation that went through it. -/
theorem lookup_sync {t : CharTables} {keep : ℤ} {s : State} {failed : Option ℕ}
    {x : Item × List UInt8} (hx : x ∈ processed failed s.samples) (dir : Dir) :
    ((step t keep s (.sync failed)).corpus dir).lookup x.1.wav =
      ((s.corpus dir).lookup x.1.wav).or
        (if destFor (labelOf x.1) = some dir then some x.2 else none) := by
  rw [← firstRead_of_mem hx]
  exact lookup_foldl_syncOne _ s.corpus dir x.1.wav

/-- A synchronisation after which the corpus agrees has gone through samples that were kept. -/
theorem Agrees.kept_of_sync {t : CharTables} {keep : ℤ} {s : State} (hnamed : Named s)
    (hrecorded : Recorded s) {failed : Option ℕ} (hnext : Agrees (step t keep s (.sync failed))) :
    samplesKept s (.sync failed) := by
  rw [samplesKept_iff hrecorded]
  intro x hx dir audio hold
  have hafter : ((step t keep s (.sync failed)).corpus dir).lookup x.1.wav = some audio := by
    rw [lookup_sync hx, hold]
    rfl
  cases failed with
  | none =>
    -- a complete run leaves the sample where its label says, with its clip
    have he : x.1 ∈ wakeSamplesList s.backend.store :=
      samples_list s ▸ List.mem_map_of_mem hx
    obtain ⟨audio', hget, hlookup⟩ := hnext.label rfl x.1 he
    obtain rfl := WakeStore.File.wav.inj
      (Option.some.inj ((get_of_mem_samples hnamed hx).symm.trans hget))
    have hdir := hlookup dir
    rw [hafter] at hdir
    split_ifs at hdir with hlabel
    exact .inl ⟨destFor_eq_some.mpr hlabel, .inr (Option.some.inj hdir).symm⟩
  | some k =>
    cases hdest : destFor (labelOf x.1) with
    | none => exact .inr ⟨rfl, rfl⟩
    | some dir' =>
      -- the clip is in the directory of its label now, and nowhere else
      have hnew : x.1.wav ∈ (step t keep s (.sync (some k))).corpus dir' := by
        rw [Finmap.mem_iff]
        cases hold' : (s.corpus dir').lookup x.1.wav with
        | none => exact ⟨x.2, by rw [lookup_sync hx, hold', hdest, if_pos rfl]; rfl⟩
        | some audio' => exact ⟨audio', by rw [lookup_sync hx, hold']; rfl⟩
      rw [hnext.one _ dir dir' (Finmap.mem_iff.mpr ⟨audio, hafter⟩) hnew]
      exact .inl ⟨rfl, .inl rfl⟩

/-- A sample that was kept is brought where its file is already, if it has one. -/
theorem dest_eq_of_mem {s : State} {failed : Option ℕ} (hrecorded : Recorded s)
    (hkept : samplesKept s (.sync failed)) {x : Item × List UInt8}
    (hx : x ∈ processed failed s.samples) {dir dir' : Dir} (hmem : x.1.wav ∈ s.corpus dir)
    (hdest : destFor (labelOf x.1) = some dir') : dir = dir' := by
  obtain ⟨audio, haudio⟩ := Finmap.mem_iff.mp hmem
  obtain ⟨hthere, -⟩ | ⟨-, hnone⟩ := (samplesKept_iff hrecorded).mp hkept x hx dir audio haudio
  · exact Option.some.inj (hthere.symm.trans hdest)
  · rw [hnone] at hdest
    cases hdest

/-- A synchronisation of samples that were kept brings no name to the other directory. -/
theorem Agrees.one_sync {t : CharTables} {keep : ℤ} {s : State} (h : Agrees s)
    {failed : Option ℕ} (hrecorded : Recorded s) (hkept : samplesKept s (.sync failed))
    {name : Text} {dir dir' : Dir} (hmem : name ∈ (step t keep s (.sync failed)).corpus dir)
    (hmem' : name ∈ (step t keep s (.sync failed)).corpus dir') : dir = dir' := by
  obtain hold | ⟨x, hx, rfl, hdest⟩ := mem_sync hmem
  · obtain hold' | ⟨x', hx', rfl, hdest'⟩ := mem_sync hmem'
    · exact h.one name dir dir' hold hold'
    · exact dest_eq_of_mem hrecorded hkept hx' hold hdest'
  · obtain hold' | ⟨x', hx', hname, hdest'⟩ := mem_sync hmem'
    · exact (dest_eq_of_mem hrecorded hkept hx hold' hdest).symm
    · -- the samples of one name are one sample
      obtain rfl := sample_unique (mem_of_mem_processed hx') (mem_of_mem_processed hx) hname
      exact Option.some.inj (hdest.symm.trans hdest')

/-- A complete one leaves each sample, with its clip, where its label says. -/
theorem lookup_sync_none {t : CharTables} {keep : ℤ} {s : State} (hrecorded : Recorded s)
    (hkept : samplesKept s (.sync none)) {x : Item × List UInt8}
    (hx : x ∈ processed none s.samples) (dir : Dir) :
    ((step t keep s (.sync none)).corpus dir).lookup x.1.wav =
      if destFor (labelOf x.1) = some dir then some x.2 else none := by
  rw [lookup_sync hx]
  cases hold : (s.corpus dir).lookup x.1.wav with
  | none => rw [Option.none_or]
  | some audio =>
    obtain ⟨hdest, hfailed | rfl⟩ | ⟨hfailed, -⟩ :=
      (samplesKept_iff hrecorded).mp hkept x hx dir audio hold
    · cases hfailed
    · rw [if_pos hdest]
      rfl
    · cases hfailed

/-- A synchronisation keeps the agreement exactly when the samples were kept. -/
theorem Agrees.sync_iff {t : CharTables} {keep : ℤ} {s : State} (hnamed : Named s)
    (hrecorded : Recorded s) (h : Agrees s) (failed : Option ℕ) :
    Agrees (step t keep s (.sync failed)) ↔ samplesKept s (.sync failed) := by
  refine ⟨fun hnext => hnext.kept_of_sync hnamed hrecorded, fun hkept => ⟨?_, ?_⟩⟩
  · intro name dir dir' hmem hmem'
    exact h.one_sync hrecorded hkept hmem hmem'
  · intro hsynced e he
    obtain rfl : failed = none := Option.isNone_iff_eq_none.mp hsynced
    obtain ⟨x, hx, rfl⟩ := List.mem_map.mp (samples_list s ▸ he : e ∈ s.samples.map Prod.fst)
    refine ⟨x.2, get_of_mem_samples hnamed hx, fun dir => ?_⟩
    rw [lookup_sync_none hrecorded hkept hx]
    simp only [destFor_eq_some]

/-- **The corpus agrees with the labels, exactly when**: in every state of a
history no clip is in both directories, and right after a synchronisation each
sample of the backend is, with its clip, where its label says and nowhere else, if and
only if every synchronisation finds the samples neither relabelled nor replaced since
they were first read. -/
theorem agrees_iff (t : CharTables) (keep : ℤ) (as : List Action) :
    Runs.Always (step t keep) Agrees start as ↔
      Runs.Meets (step t keep) samplesKept start as := by
  have hrecorded : Recorded start := fun _ _ => Finmap.lookup_empty _
  have hnamed : Named start := fun _ h => absurd h (AList.notMem_empty _)
  have hstart : Agrees start :=
    ⟨fun _ _ _ h => absurd h Finmap.notMem_empty, fun h => absurd h Bool.false_ne_true⟩
  apply Runs.always_iff_meets (I := fun s => Named s ∧ Recorded s)
    (fun _ a h => ⟨h.1.step a, h.2.step a⟩) ?_ as ⟨hnamed, hrecorded⟩ hstart
  intro s a hinv h
  cases a with
  | request a => exact iff_of_true ⟨h.one, fun hsynced => absurd hsynced Bool.false_ne_true⟩ rfl
  | sync failed => exact h.sync_iff hinv.1 hinv.2 failed

/-! ## A clip that is labelled anew, and one that is replaced -/

/-- The one sample of the runs below. -/
def sampleName : Text := "1700000000_seq0_up0.wav".toList

/-- A clip is labelled, the corpus synchronised, the label changed, and the
corpus synchronised again. -/
def relabelled : List Action :=
  [.request (.upload (WakeStore.oneByte [] 1)), .request (.label sampleName "positive".toList),
    .sync none, .request (.label sampleName "negative".toList), .sync none]

/-- A clip is labelled, the corpus synchronised, another clip of the same second
uploaded and labelled likewise, and the corpus synchronised again. -/
def replaced : List Action :=
  [.request (.upload (WakeStore.oneByte [] 1)), .request (.label sampleName "positive".toList),
    .sync none, .request (.upload (WakeStore.oneByte [] 2)),
    .request (.label sampleName "positive".toList), .sync none]

/-- The clip that is labelled anew is in both directories; the one that is replaced is
still there, and the one that replaced it is not. -/
theorem agrees_relabelled :
    let s := Runs.run (step WakeStore.asciiTables 1000) start relabelled
    let s' := Runs.run (step WakeStore.asciiTables 1000) start replaced
    (s.corpus .positiveReal).lookup sampleName = some [1] ∧
      (s.corpus .hardNegatives).lookup sampleName = some [1] ∧
      wakeSampleGet s'.backend.store sampleName = some (.wav [2]) ∧
      (s'.corpus .positiveReal).lookup sampleName = some [1] ∧
      ¬ Runs.Always (step WakeStore.asciiTables 1000) Agrees start relabelled ∧
      ¬ Runs.Always (step WakeStore.asciiTables 1000) Agrees start replaced := by
  intro s s'
  have hpositive : (s.corpus .positiveReal).lookup sampleName = some [1] := by decide +kernel
  have hnegative : (s.corpus .hardNegatives).lookup sampleName = some [1] := by decide +kernel
  have hserved : wakeSampleGet s'.backend.store sampleName = some (.wav [2]) := by decide +kernel
  have hkept : (s'.corpus .positiveReal).lookup sampleName = some [1] := by decide +kernel
  have hlist : (wakeSamplesList s'.backend.store).map Item.wav = [sampleName] := by decide +kernel
  refine ⟨hpositive, hnegative, hserved, hkept, ?_, ?_⟩
  · intro h
    have hone := (Runs.always_iff_take.mp h 5).one sampleName .positiveReal .hardNegatives
      (Finmap.mem_iff.mpr ⟨_, hpositive⟩) (Finmap.mem_iff.mpr ⟨_, hnegative⟩)
    cases hone
  · intro h
    have hagrees : Agrees s' := Runs.always_iff_take.mp h 6
    obtain ⟨e, he, hname⟩ := List.mem_map.mp (hlist ▸ List.mem_singleton.mpr rfl)
    obtain ⟨audio, hget, hlookup⟩ := hagrees.label rfl e he
    have hfile := hlookup .positiveReal
    rw [hname] at hget hfile
    obtain rfl := WakeStore.File.wav.inj (Option.some.inj (hserved.symm.trans hget))
    -- the file there is not the clip that is served, whatever its label
    rw [hkept] at hfile
    split_ifs at hfile
    cases hfile

end PipecatVoice.CorpusSync
