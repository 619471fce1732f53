import Mathlib.Data.List.AList
import Mathlib.Data.List.Infix
import Mathlib.Data.List.Sort
import PipecatVoice.Lib.Runs
import PipecatVoice.Transcript

/-!
# The wake samples of the backend

Every wake of a device leaves a clip on the backend: `<base>.wav`, and beside it
`<base>.json` with the query parameters of the upload. A person listens to it
and sets `label` in the JSON file.

* `wakeSample`, `wakeSamplesList`, `wakeSampleGet`, `wakeSampleLabel` — the
  endpoints;
* `LabelledMap` — the store as a map from names to clips and labels;
* `labelledMap_iff` — which uploads keep it one.
-/

namespace PipecatVoice.WakeStore

/-! ## Text and JSON -/

/-- What the standard library knows about characters. -/
structure CharTables where
  /-- `str.isalnum` of one character -/
  isalnum : Char → Bool
  /-- a separator is none -/
  isalnum_slash : isalnum '/' = false
  /-- `str.lower` -/
  lower : Text → Text

/-- A dictionary. -/
abbrev Dict (ν : Type) := AList fun _ : Text => ν

/-- `dict` of pairs: the last value of a key counts. -/
def Dict.ofPairs {ν : Type} (pairs : List (Text × ν)) : Dict ν :=
  (pairs.reverse.map fun p => Sigma.mk p.1 p.2).toAList

theorem Dict.mem_ofPairs {ν : Type} {k : Text} {pairs : List (Text × ν)} :
    k ∈ Dict.ofPairs pairs ↔ k ∈ pairs.map Prod.fst := by
  rw [← AList.lookup_isSome, Dict.ofPairs, AList.lookup_to_alist, List.dlookup_isSome,
    List.keys, List.map_map, List.map_reverse, List.mem_reverse]
  rfl

/-- An item that is set changes no other one. -/
theorem Dict.erase_insert {ν : Type} (d : Dict ν) (k : Text) (v : ν) :
    (d.insert k v).erase k = d.erase k := by
  apply AList.ext
  show List.kerase k (d.insert k v).entries = List.kerase k d.entries
  rw [AList.entries_insert]
  exact List.kerase_cons_eq rfl

/-- The JSON values in a sidecar. -/
inductive Json where
  /-- `null` -/
  | null
  /-- an integer -/
  | int (n : ℤ)
  /-- a time, in microseconds -/
  | time (us : ℕ)
  /-- a string -/
  | str (s : Text)
  deriving DecidableEq

/-- The key of the label. -/
def labelKey : Text := "label".toList

/-! ## The directory -/

/-- A clip and its sidecar. -/
structure Sample where
  /-- the `.wav` file -/
  wav : List UInt8
  /-- when it was written -/
  mtime : ℕ
  /-- the `.json` file -/
  sidecar : Dict Json
  deriving DecidableEq

/-- `WAKE_SAMPLE_DIR`: the samples by their base name. -/
abbrev Store := Dict Sample

/-- The samples in the order of a relation between their times. -/
def Store.sortedBy (r : ℕ → ℕ → Prop) [DecidableRel r] (s : Store) :
    List (Sigma fun _ : Text => Sample) :=
  s.entries.insertionSort fun a b => r a.2.mtime b.2.mtime

/-- `_rotate_wake_samples` -/
def rotateWakeSamples (keep : ℤ) (s : Store) : Store :=
  let wavs := s.sortedBy (· ≤ ·)
  let old := if keep > 0 then wavs.take (wavs.length - keep.toNat) else []
  old.foldl (fun s p => s.erase p.1) s

/-! ## The endpoints -/

/-- A request to `/wake-sample`. -/
structure Upload where
  /-- `time.time()`, in microseconds -/
  time : ℕ
  /-- the client's address -/
  client : Option Text
  /-- the query parameters -/
  query : List (Text × Text)
  /-- the body -/
  body : List UInt8
  /-- the time the file system gives the clip -/
  mtime : ℕ

/-- The name of an upload, before the extension. -/
def Upload.base (t : CharTables) (u : Upload) : Text :=
  let qp := Dict.ofPairs u.query
  let base := (toString (u.time / 1000000)).toList ++ "_seq".toList ++
    (qp.lookup "seq".toList).getD "0".toList ++ "_up".toList ++
    (qp.lookup "uptime".toList).getD "0".toList
  base.filter fun c => t.isalnum c || c ∈ "._-".toList

/-- The sidecar of an upload. -/
def Upload.sidecar (u : Upload) : Dict Json :=
  Dict.ofPairs (u.query.map fun p => (p.1, Json.str p.2)) ∪
    Dict.ofPairs [("received_at".toList, .time u.time),
      ("client".toList, u.client.elim .null .str),
      ("wav_bytes".toList, .int u.body.length)]

/-- `wake_sample`: the store after it, and the name that is returned. -/
def wakeSample (t : CharTables) (keep : ℤ) (u : Upload) (s : Store) : Option (Store × Text) :=
  if u.body = [] then none
  else
    let s := s.insert (u.base t) { wav := u.body, mtime := u.mtime, sidecar := u.sidecar }
    some (rotateWakeSamples keep s, u.base t ++ ".wav".toList)

/-- An item of the list of samples. -/
structure Item where
  /-- the name of the clip -/
  wav : Text
  /-- its size -/
  bytes : ℕ
  /-- the sidecar -/
  sidecar : Dict Json
  deriving DecidableEq

/-- `wake_samples_list`: newest first. -/
def wakeSamplesList (s : Store) : List Item :=
  (s.sortedBy (· ≥ ·)).map fun p =>
    { wav := p.1 ++ ".wav".toList, bytes := p.2.wav.length, sidecar := p.2.sidecar }

/-- `Path(name).name` -/
def pathName (name : Text) : Text :=
  ((name.splitOn '/').filter fun part => part ≠ [] ∧ part ≠ ['.']).getLastD []

/-- The name without its extension, if it has one of the two. -/
def stemOf (name : Text) : Text :=
  if ".wav".toList <:+ name then name.take (name.length - 4)
  else if ".json".toList <:+ name then name.take (name.length - 5)
  else name

/-- A file that can be downloaded. -/
inductive File where
  | wav (bytes : List UInt8)
  | json (sidecar : Dict Json)
  deriving DecidableEq

/-- `wake_sample_get` -/
def wakeSampleGet (s : Store) (name : Text) : Option File :=
  let safe := pathName name
  if ".wav".toList <:+ safe then
    (s.lookup (safe.take (safe.length - 4))).map fun e => .wav e.wav
  else if ".json".toList <:+ safe then
    (s.lookup (safe.take (safe.length - 5))).map fun e => .json e.sidecar
  else none

/-- The labels there are. -/
def labels : List Text := ["positive".toList, "negative".toList, "unlabeled".toList]

/-- The sample with another label. -/
def Sample.setLabel (e : Sample) (label : Text) : Sample :=
  { e with sidecar := e.sidecar.insert labelKey (.str label) }

/-- `wake_sample_label`: the store after it, and the name and the label that are
returned. -/
def wakeSampleLabel (t : CharTables) (name label : Text) (s : Store) :
    Option (Store × Text × Text) :=
  let label := t.lower (strip label)
  if label ∈ labels then
    let stem := stemOf (pathName name)
    (s.lookup stem).map fun e =>
      (s.insert stem (e.setLabel label), stem ++ ".wav".toList, label)
  else none

/-! ## Histories -/

/-- The store, and what was asked of it with success. -/
structure State where
  /-- the store -/
  store : Store
  /-- the uploads: the name that was returned, and the body -/
  uploads : List (Text × List UInt8)
  /-- the label requests: the name and the label that were returned -/
  labelled : List (Text × Text)

/-- A request that may change the store. -/
inductive Action where
  /-- `POST /wake-sample` -/
  | upload (u : Upload)
  /-- `POST /wake-samples/{name}/label` -/
  | label (name label : Text)

/-- One request; one that is refused changes nothing. -/
def step (t : CharTables) (keep : ℤ) (s : State) : Action → State
  | .upload u =>
    match wakeSample t keep u s.store with
    | some (store, name) =>
      { s with store := store, uploads := s.uploads ++ [(name, u.body)] }
    | none => s
  | .label name label =>
    match wakeSampleLabel t name label s.store with
    | some (store, returned) =>
      { s with store := store, labelled := s.labelled ++ [returned] }
    | none => s

/-- No samples yet. -/
def start : State := ⟨∅, [], []⟩

/-- The label set last for a name. -/
def lastLabel (labelled : List (Text × Text)) (name : Text) : Option Text :=
  labelled.reverse.lookup name

/-- Every upload has a name and an item of its own, what is downloaded under the
name is what was uploaded, and the label is the one set last, if any. -/
structure LabelledMap (s : State) : Prop where
  /-- the names are different -/
  nodup : (s.uploads.map Prod.fst).Nodup
  /-- the clip -/
  body : ∀ u ∈ s.uploads, wakeSampleGet s.store u.1 = some (.wav u.2)
  /-- the item and its label -/
  label : ∀ u ∈ s.uploads, ∃ e ∈ wakeSamplesList s.store, e.wav = u.1 ∧
    e.sidecar.lookup labelKey = (lastLabel s.labelled u.1).map .str

/-- There is room for the upload: nothing is rotated out. -/
def withinMax (keep : ℤ) (s : State) : Action → Bool
  | .upload _ => keep ≤ 0 || s.uploads.length < keep
  | .label _ _ => true

/-- An accepted upload has a name that no earlier one has, and no parameter
`label`. -/
def freshUnlabelled (t : CharTables) (s : State) : Action → Bool
  | .upload u =>
    u.body = [] || (s.uploads.all fun v => v.1 ≠ u.base t ++ ".wav".toList) &&
      u.query.all fun p => p.1 ≠ labelKey
  | .label _ _ => true

/-! ## Names -/

/-- A character of a base name. -/
theorem mem_base {t : CharTables} {u : Upload} {c : Char} (h : c ∈ u.base t) :
    t.isalnum c ∨ c ∈ "._-".toList := by
  have hkept := (List.mem_filter.mp h).2
  rwa [Bool.or_eq_true, decide_eq_true_eq] at hkept

theorem slash_notMem_base (t : CharTables) (u : Upload) : '/' ∉ u.base t := by
  intro h
  obtain halnum | hother := mem_base h
  · rw [t.isalnum_slash] at halnum
    cases halnum
  · revert hother
    decide

/-- The path of a clip in the directory. -/
theorem pathName_wav {base : Text} (h : '/' ∉ base) :
    pathName (base ++ ".wav".toList) = base ++ ".wav".toList := by
  have hslash : '/' ∉ base ++ ".wav".toList := by
    rw [List.mem_append, not_or]
    exact ⟨h, by decide⟩
  have hsplit : (base ++ ".wav".toList).splitOn '/' = [base ++ ".wav".toList] :=
    List.splitOn_eq_singleton hslash
  have hlen : 4 ≤ (base ++ ".wav".toList).length := by
    rw [List.length_append]
    exact Nat.le_add_left 4 _
  have hpart : base ++ ".wav".toList ≠ [] ∧ base ++ ".wav".toList ≠ ['.'] := by
    refine ⟨?_, ?_⟩
    · intro h
      rw [h] at hlen
      cases hlen
    · intro h
      rw [h] at hlen
      exact absurd hlen (by decide)
  rw [pathName, hsplit, List.filter_singleton, decide_eq_true hpart]
  rfl

theorem take_wav (base : Text) :
    (base ++ ".wav".toList).take ((base ++ ".wav".toList).length - 4) = base := by
  rw [List.length_append]
  exact List.take_left

theorem wakeSampleGet_wav {base : Text} (h : '/' ∉ base) (s : Store) :
    wakeSampleGet s (base ++ ".wav".toList) = (s.lookup base).map fun e => .wav e.wav := by
  rw [wakeSampleGet, pathName_wav h, if_pos (List.suffix_append _ _), take_wav]

theorem wav_inj {base base' : Text} (h : base ++ ".wav".toList = base' ++ ".wav".toList) :
    base = base' := List.append_cancel_right h

/-! ## The list -/

theorem mem_list_iff {s : Store} {e : Item} :
    e ∈ wakeSamplesList s ↔ ∃ base sample, s.lookup base = some sample ∧
      e = { wav := base ++ ".wav".toList, bytes := sample.wav.length
            sidecar := sample.sidecar } := by
  rw [wakeSamplesList, List.mem_map]
  refine ⟨?_, ?_⟩
  · rintro ⟨⟨base, sample⟩, hmem, rfl⟩
    exact ⟨base, sample, AList.mem_lookup_iff.mpr ((List.mem_insertionSort _).mp hmem), rfl⟩
  · rintro ⟨base, sample, hlookup, rfl⟩
    exact ⟨⟨base, sample⟩, (List.mem_insertionSort _).mpr (AList.mem_lookup_iff.mp hlookup), rfl⟩

/-- The label in the item of a name. -/
theorem exists_item_iff {s : Store} {base : Text} {label : Option Json} :
    (∃ e ∈ wakeSamplesList s, e.wav = base ++ ".wav".toList ∧
        e.sidecar.lookup labelKey = label) ↔
      ∃ sample, s.lookup base = some sample ∧ sample.sidecar.lookup labelKey = label := by
  refine ⟨?_, ?_⟩
  · rintro ⟨e, he, hname, hp⟩
    obtain ⟨base', sample, hlookup, rfl⟩ := mem_list_iff.mp he
    obtain rfl := wav_inj hname
    exact ⟨sample, hlookup, hp⟩
  · rintro ⟨sample, hlookup, hp⟩
    exact ⟨_, mem_list_iff.mpr ⟨base, sample, hlookup, rfl⟩, rfl, hp⟩

/-! ## What a step does -/

/-- The parameters decide whether a sample comes with a label. -/
theorem sidecar_label_iff (u : Upload) :
    u.sidecar.lookup labelKey = none ↔ ∀ p ∈ u.query, p.1 ≠ labelKey := by
  have hfixed : labelKey ∉ Dict.ofPairs [("received_at".toList, Json.time u.time),
      ("client".toList, u.client.elim .null .str),
      ("wav_bytes".toList, .int u.body.length)] := by
    rw [Dict.mem_ofPairs]
    show labelKey ∉ ["received_at".toList, "client".toList, "wav_bytes".toList]
    decide
  rw [AList.lookup_eq_none, Upload.sidecar, AList.mem_union, not_or, and_iff_left hfixed,
    Dict.mem_ofPairs, List.map_map, List.mem_map]
  refine ⟨?_, ?_⟩
  · intro h p hp hkey
    exact h ⟨p, hp, hkey⟩
  · rintro h ⟨p, hp, hkey⟩
    exact h p hp hkey

/-- With room left the rotation removes nothing. -/
theorem rotate_of_le {keep : ℤ} {s : Store} (h : keep ≤ 0 ∨ (s.entries.length : ℤ) ≤ keep) :
    rotateWakeSamples keep s = s := by
  have hold : (if keep > 0 then (s.sortedBy (· ≤ ·)).take
      ((s.sortedBy (· ≤ ·)).length - keep.toNat) else []) = [] := by
    split
    · rw [List.take_eq_nil_iff, Store.sortedBy, List.length_insertionSort]
      left
      omega
    · rfl
  rw [rotateWakeSamples, hold]
  rfl

/-- A later request. -/
theorem lastLabel_append (labelled : List (Text × Text)) (name label name' : Text) :
    lastLabel (labelled ++ [(name, label)]) name' =
      if name' = name then some label else lastLabel labelled name' := by
  rw [lastLabel, List.reverse_append, List.reverse_singleton, List.singleton_append,
    List.lookup_cons]
  by_cases h : name' = name
  · rw [beq_iff_eq.mpr h, if_pos h]
  · rw [beq_eq_false_iff_ne.mpr h, if_neg h, lastLabel]

theorem lastLabel_eq_none {labelled : List (Text × Text)} {name : Text}
    (h : ∀ l ∈ labelled, l.1 ≠ name) : lastLabel labelled name = none := by
  rw [lastLabel, List.lookup_eq_none_iff]
  intro l hl
  exact bne_iff_ne.mpr (h l (List.mem_reverse.mp hl)).symm

/-! ## The invariant -/

/-- The store holds what was uploaded. -/
structure Inv (s : State) : Prop where
  /-- names are made of base names -/
  named : ∀ u ∈ s.uploads, ∃ base, '/' ∉ base ∧ u.1 = base ++ ".wav".toList
  /-- what is stored was uploaded -/
  stored : ∀ base ∈ s.store, base ++ ".wav".toList ∈ s.uploads.map Prod.fst
  /-- what is labelled was uploaded -/
  labelled : ∀ l ∈ s.labelled, l.1 ∈ s.uploads.map Prod.fst

theorem inv_start : Inv start :=
  ⟨fun _ h => absurd h List.not_mem_nil, fun _ h => absurd h (AList.notMem_empty _),
    fun _ h => absurd h List.not_mem_nil⟩

/-- A name that is new has no label. -/
theorem Inv.lastLabel_eq_none {s : State} (h : Inv s) {name : Text}
    (hnew : name ∉ s.uploads.map Prod.fst) : lastLabel s.labelled name = none := by
  apply WakeStore.lastLabel_eq_none
  rintro l hl rfl
  exact hnew (h.labelled l hl)

/-- There are no more samples than uploads. -/
theorem length_le_of_stored {s : Store} {names : List Text}
    (h : ∀ base ∈ s, base ++ ".wav".toList ∈ names) : s.entries.length ≤ names.length := by
  have hnodup : (s.keys.map (· ++ ".wav".toList)).Nodup :=
    s.keys_nodup.map fun _ _ => wav_inj
  have hsub : s.keys.map (· ++ ".wav".toList) ⊆ names := by
    intro name hname
    obtain ⟨base, hbase, rfl⟩ := List.mem_map.mp hname
    exact h base (AList.mem_keys.mpr hbase)
  have hlen := (List.subperm_of_subset hnodup hsub).length_le
  rwa [List.length_map, AList.keys, List.keys, List.length_map] at hlen

/-- The names after an upload. -/
theorem Inv.stored_insert {s : State} (h : Inv s) (base : Text) (sample : Sample)
    (body : List UInt8) :
    ∀ b ∈ s.store.insert base sample, b ++ ".wav".toList ∈
      (s.uploads ++ [(base ++ ".wav".toList, body)]).map Prod.fst := by
  intro b hb
  rw [List.map_append, List.mem_append]
  obtain rfl | hold := (AList.mem_insert _).mp hb
  · exact .inr (List.mem_singleton.mpr rfl)
  · exact .inl (h.stored b hold)

/-- The sample an upload becomes. -/
def Upload.sample (u : Upload) : Sample := ⟨u.body, u.mtime, u.sidecar⟩

/-- **An accepted upload**, with room left. -/
theorem step_upload {t : CharTables} {keep : ℤ} {s : State} {u : Upload} (h : Inv s)
    (hroom : withinMax keep s (.upload u)) (hbody : u.body ≠ []) :
    step t keep s (.upload u) =
      { s with
        store := s.store.insert (u.base t) u.sample
        uploads := s.uploads ++ [(u.base t ++ ".wav".toList, u.body)] } := by
  have hlen := length_le_of_stored (h.stored_insert (u.base t) u.sample u.body)
  rw [List.length_map, List.length_append, List.length_singleton] at hlen
  have hrotate : rotateWakeSamples keep (s.store.insert (u.base t) u.sample) =
      s.store.insert (u.base t) u.sample := by
    apply rotate_of_le
    simp only [withinMax, Bool.or_eq_true, decide_eq_true_eq] at hroom
    omega
  show (match wakeSample t keep u s.store with
    | some (store, name) => { s with store := store, uploads := s.uploads ++ [(name, u.body)] }
    | none => s) = _
  rw [wakeSample, if_neg hbody]
  show State.mk (rotateWakeSamples keep (s.store.insert (u.base t) u.sample)) _ _ = _
  rw [hrotate]

/-- **A label request** that succeeds, or one that does nothing. -/
theorem step_label (t : CharTables) (keep : ℤ) (s : State) (name label : Text) :
    step t keep s (.label name label) = s ∨
      ∃ stem e l, s.store.lookup stem = some e ∧
        step t keep s (.label name label) =
          { s with
            store := s.store.insert stem (e.setLabel l)
            labelled := s.labelled ++ [(stem ++ ".wav".toList, l)] } := by
  simp only [step, wakeSampleLabel]
  split
  · rename_i store returned hsome
    split at hsome
    · obtain ⟨e, hlookup, heq⟩ := Option.map_eq_some_iff.mp hsome
      obtain ⟨rfl, rfl⟩ := Prod.mk.inj heq
      exact .inr ⟨_, e, _, hlookup, rfl⟩
    · cases hsome
  · exact .inl rfl

theorem Inv.step {t : CharTables} {keep : ℤ} {s : State} {a : Action} (h : Inv s)
    (hroom : withinMax keep s a) : Inv (step t keep s a) := by
  cases a with
  | upload u =>
    by_cases hbody : u.body = []
    · simp only [WakeStore.step, wakeSample, if_pos hbody]
      exact h
    · rw [step_upload h hroom hbody]
      refine ⟨?_, h.stored_insert _ _ _, ?_⟩
      · intro v hv
        obtain hold | hnew := List.mem_append.mp hv
        · exact h.named v hold
        · rw [List.mem_singleton.mp hnew]
          exact ⟨u.base t, slash_notMem_base t u, rfl⟩
      · intro l hl
        rw [List.map_append]
        exact List.mem_append_left _ (h.labelled l hl)
  | label name label =>
    obtain hsame | ⟨stem, e, l, hlookup, heq⟩ := step_label t keep s name label
    · rw [hsame]
      exact h
    · have hstem : stem ∈ s.store := AList.lookup_isSome.mp (hlookup ▸ rfl)
      rw [heq]
      refine ⟨h.named, ?_, ?_⟩
      · intro base hbase
        obtain rfl | hold := (AList.mem_insert _).mp hbase
        · exact h.stored base hstem
        · exact h.stored base hold
      · intro l' hl'
        obtain hold | hnew := List.mem_append.mp hl'
        · exact h.labelled l' hold
        · rw [List.mem_singleton.mp hnew]
          exact h.stored stem hstem

/-! ## The store as a map -/

/-- The sample of a name has this body, and the label set last. -/
def Holds (s : State) (base : Text) (body : List UInt8) : Prop :=
  ∃ sample, s.store.lookup base = some sample ∧ sample.wav = body ∧
    sample.sidecar.lookup labelKey = (lastLabel s.labelled (base ++ ".wav".toList)).map .str

/-- The map, said of the directory. -/
theorem labelledMap_iff_holds {s : State} (h : Inv s) :
    LabelledMap s ↔ (s.uploads.map Prod.fst).Nodup ∧
      ∀ u ∈ s.uploads, ∀ base, '/' ∉ base → u.1 = base ++ ".wav".toList → Holds s base u.2 := by
  refine ⟨?_, ?_⟩
  · intro hmap
    refine ⟨hmap.nodup, ?_⟩
    intro u hu base hslash hname
    have hbody := hmap.body u hu
    have hlabel := hmap.label u hu
    rw [hname, wakeSampleGet_wav hslash] at hbody
    rw [hname, exists_item_iff] at hlabel
    obtain ⟨sample, hlookup, hwav⟩ := Option.map_eq_some_iff.mp hbody
    obtain ⟨sample', hlookup', hlabel⟩ := hlabel
    obtain rfl := Option.some.inj (hlookup.symm.trans hlookup')
    exact ⟨sample, hlookup, File.wav.inj hwav, hlabel⟩
  · rintro ⟨hnodup, hholds⟩
    refine ⟨hnodup, ?_, ?_⟩
    · intro u hu
      obtain ⟨base, hslash, hname⟩ := h.named u hu
      obtain ⟨sample, hlookup, hwav, -⟩ := hholds u hu base hslash hname
      rw [hname, wakeSampleGet_wav hslash, hlookup, Option.map_some, hwav]
    · intro u hu
      obtain ⟨base, hslash, hname⟩ := h.named u hu
      obtain ⟨sample, hlookup, -, hlabel⟩ := hholds u hu base hslash hname
      rw [hname, exists_item_iff]
      exact ⟨sample, hlookup, hlabel⟩

theorem labelledMap_start : LabelledMap start :=
  ⟨List.nodup_nil, fun _ h => absurd h List.not_mem_nil, fun _ h => absurd h List.not_mem_nil⟩

theorem notMem_names_iff {uploads : List (Text × List UInt8)} {name : Text} :
    name ∉ uploads.map Prod.fst ↔ ∀ u ∈ uploads, u.1 ≠ name := by
  rw [List.mem_map]
  refine ⟨?_, ?_⟩
  · intro h u hu hname
    exact h ⟨u, hu, hname⟩
  · rintro h ⟨u, hu, hname⟩
    exact h u hu hname

/-- A label request keeps the map. -/
theorem LabelledMap.label_step {t : CharTables} {keep : ℤ} {s : State} (hinv : Inv s)
    (hmap : LabelledMap s) (name label : Text) :
    LabelledMap (step t keep s (.label name label)) := by
  have hinv' : Inv (step t keep s (.label name label)) := hinv.step rfl
  obtain hsame | ⟨stem, e, l, hlookup, heq⟩ := step_label t keep s name label
  · rw [hsame]
    exact hmap
  · rw [labelledMap_iff_holds hinv']
    obtain ⟨hnodup, hholds⟩ := (labelledMap_iff_holds hinv).mp hmap
    rw [heq]
    refine ⟨hnodup, ?_⟩
    intro u hu base hslash hname
    obtain ⟨sample, hsample, hwav, hlabel⟩ := hholds u hu base hslash hname
    by_cases hstem : base = stem
    · subst hstem
      obtain rfl := Option.some.inj (hsample.symm.trans hlookup)
      refine ⟨sample.setLabel l, AList.lookup_insert _, hwav, ?_⟩
      rw [lastLabel_append, if_pos rfl]
      exact AList.lookup_insert _
    · refine ⟨sample, ?_, hwav, ?_⟩
      · exact (AList.lookup_insert_ne hstem).trans hsample
      · rw [lastLabel_append, if_neg fun h => hstem (wav_inj h)]
        exact hlabel

/-- An upload keeps the map exactly when its name is new and it has no label. -/
theorem LabelledMap.upload_step {t : CharTables} {keep : ℤ} {s : State} (hinv : Inv s)
    (hmap : LabelledMap s) {u : Upload} (hroom : withinMax keep s (.upload u)) :
    LabelledMap (step t keep s (.upload u)) ↔ freshUnlabelled t s (.upload u) := by
  have hinv' : Inv (step t keep s (.upload u)) := hinv.step hroom
  by_cases hbody : u.body = []
  · simp only [step, wakeSample, freshUnlabelled, hbody, decide_true, Bool.true_or, iff_true]
    exact hmap
  · rw [labelledMap_iff_holds hinv']
    obtain ⟨hnodup, hholds⟩ := (labelledMap_iff_holds hinv).mp hmap
    have hfresh : freshUnlabelled t s (.upload u) ↔
        u.base t ++ ".wav".toList ∉ s.uploads.map Prod.fst ∧ u.sidecar.lookup labelKey = none := by
      rw [sidecar_label_iff, notMem_names_iff]
      simp only [freshUnlabelled, hbody, decide_false, Bool.false_or, Bool.and_eq_true,
        List.all_eq_true, decide_eq_true_eq]
    rw [hfresh, step_upload hinv hroom hbody]
    refine ⟨?_, ?_⟩
    · rintro ⟨hnodup', hholds'⟩
      have hnew : u.base t ++ ".wav".toList ∉ s.uploads.map Prod.fst := by
        rw [List.map_append] at hnodup'
        exact fun h => (List.nodup_append.mp hnodup').2.2 _ h _ (List.mem_singleton.mpr rfl) rfl
      refine ⟨hnew, ?_⟩
      obtain ⟨sample, hlookup, -, hlabel⟩ :=
        hholds' _ (List.mem_append_right _ (List.mem_singleton.mpr rfl)) (u.base t)
          (slash_notMem_base t u) rfl
      obtain rfl := Option.some.inj ((AList.lookup_insert _).symm.trans hlookup)
      have hnone : lastLabel s.labelled (u.base t ++ ".wav".toList) = none :=
        hinv.lastLabel_eq_none hnew
      rw [hnone] at hlabel
      exact hlabel
    · rintro ⟨hnew, hlabel⟩
      refine ⟨?_, ?_⟩
      · rw [List.map_append]
        refine hnodup.append (List.nodup_singleton _) ?_
        exact List.disjoint_singleton.mpr hnew
      · intro v hv base hslash hname
        obtain hold | hlast := List.mem_append.mp hv
        · have hne : base ≠ u.base t := by
            rintro rfl
            exact hnew (hname ▸ List.mem_map_of_mem hold)
          obtain ⟨sample, hlookup, hwav, hlabel⟩ := hholds v hold base hslash hname
          exact ⟨sample, (AList.lookup_insert_ne hne).trans hlookup, hwav, hlabel⟩
        · obtain rfl := List.mem_singleton.mp hlast
          obtain rfl := wav_inj hname
          refine ⟨u.sample, AList.lookup_insert _, rfl, ?_⟩
          rw [hinv.lastLabel_eq_none hnew]
          exact hlabel

/-- **A labelled map, exactly when**: as long as nothing is rotated out, the
store is a map from names to clips and labels after every request, if and only
if no two accepted uploads have the same name and none has a parameter `label`. -/
theorem labelledMap_iff (t : CharTables) (keep : ℤ) (as : List Action)
    (hroom : Runs.Meets (step t keep) (withinMax keep) start as) :
    Runs.Always (step t keep) LabelledMap start as ↔
      Runs.Meets (step t keep) (freshUnlabelled t) start as := by
  apply Runs.always_iff_meets_within (I := Inv) (fun _ _ => Inv.step) ?_ as inv_start
    labelledMap_start hroom
  intro s a hinv hroom hmap
  cases a with
  | upload u => exact hmap.upload_step hinv hroom
  | label name label => exact iff_of_true (hmap.label_step hinv name label) rfl

/-! ## Two clips of one second -/

/-- The tables, for ASCII. -/
def asciiTables : CharTables where
  isalnum := Char.isAlphanum
  isalnum_slash := by decide
  lower s := s.map Char.toLower

/-- An upload of one byte at 1700000000 seconds. -/
def oneByte (query : List (Text × Text)) (byte : UInt8) : Upload where
  time := 1700000000000000
  client := none
  query := query
  body := [byte]
  mtime := 0

/-- Two samples with numbers of their own; the first is labelled twice. -/
def twoSamples : List Action :=
  [.upload (oneByte [("seq".toList, "1".toList)] 1),
    .label "1700000000_seq1_up0.wav".toList " Positive".toList,
    .upload (oneByte [("seq".toList, "2".toList)] 2),
    .label "1700000000_seq1_up0".toList "negative".toList]

theorem labelledMap_twoSamples : Runs.Always (step asciiTables 1000) LabelledMap start twoSamples :=
  (labelledMap_iff asciiTables 1000 twoSamples (by decide +kernel)).mpr (by decide +kernel)

/-- Without a number the second clip takes the place of the first, and a
parameter is taken for a label nobody has set. -/
theorem labelledMap_sameSecond :
    let name := "1700000000_seq0_up0.wav".toList
    let twice := [.upload (oneByte [] 1), .upload (oneByte [] 2)]
    let labelled := [.upload (oneByte [(labelKey, "positive".toList)] 1)]
    let s := Runs.run (step asciiTables 1000) start twice
    s.uploads = [(name, [1]), (name, [2])] ∧ wakeSampleGet s.store name = some (.wav [2]) ∧
      ¬ Runs.Always (step asciiTables 1000) LabelledMap start twice ∧
      ¬ Runs.Always (step asciiTables 1000) LabelledMap start labelled := by
  intro name twice labelled s
  refine ⟨by decide +kernel, by decide +kernel, ?_, ?_⟩
  · intro h
    have hnodup := (Runs.always_iff_take.mp h 2).nodup
    revert hnodup
    decide +kernel
  · intro h
    have hlabel := (Runs.always_iff_take.mp h 1).label
    revert hlabel
    decide +kernel

end PipecatVoice.WakeStore
