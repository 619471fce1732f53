import PipecatVoice.WakeRotation

/-!
# The store of samples and its files

`WakeStore` holds a sample as one value under its base name, `WakeFiles` as the
two files that the endpoints write. Here the first is what the second means, as
long as the file system orders the clips.

* `Represents` — the files of a store;
* `Represents.upload`, `Represents.label` — the two endpoints that write keep it,
  with the same answer;
* `Represents.get`, `Represents.list` — the two that read answer the same;
* `represents_run` — so do whole runs;
* `labelledMap_files` — the files are a map from names to clips and labels.
-/

namespace PipecatVoice.WakeRefinement

open PosixPath WakeFiles
open WakeStore (CharTables Dict Json Sample Store Upload labelKey labels stemOf)

variable {dir : Dir}

/-- The clip of a sample. -/
def clipOf (e : Sample) : File := { content := .bytes e.wav, mtime := e.mtime }

/-- **The files of a store**: a clip and a sidecar for each sample, and no other
files. -/
structure Represents (s : Store) (d : Samples dir) : Prop where
  clip : ∀ stem, d.lookup (dir.entry (stem ++ wavExt)) = (s.lookup stem).map clipOf
  /-- a label request gives the sidecar a later time -/
  sidecar : ∀ stem, (d.lookup (dir.entry (stem ++ jsonExt))).map File.content =
    (s.lookup stem).map fun e => .object e.sidecar
  names : ∀ stem ∈ s, stem ≠ [] ∧ nameBytes (stem ++ jsonExt) ≤ nameMax
  other : ∀ c, ¬ wavExt <:+ c → ¬ jsonExt <:+ c → d.lookup (dir.entry c) = none

/-- No two samples have the same time. -/
def Distinct (s : Store) : Prop := (s.entries.map fun p => p.2.mtime).Nodup

theorem represents_empty : Represents (∅ : Store) (Disk.empty : Samples dir) where
  clip := fun _ => rfl
  sidecar := fun _ => rfl
  names := fun _ h => absurd h (AList.notMem_empty _)
  other := fun _ _ _ => rfl

section Order

variable {s : Store} {d : Samples dir}

/-- The clips that the system finds are those of the samples. -/
theorem Represents.mem_globWav_iff (h : Represents s d) {scan : Scan} {c : Name} :
    c ∈ globWav scan d ↔ ∃ p ∈ s.entries, p.1 ++ wavExt = c := by
  rw [mem_globWav]
  refine ⟨?_, ?_⟩
  · rintro ⟨⟨stem, rfl⟩, hthere⟩
    rw [h.clip, Option.isSome_map] at hthere
    obtain ⟨e, he⟩ := Option.isSome_iff_exists.mp hthere
    exact ⟨⟨stem, e⟩, AList.mem_lookup_iff.mp he, rfl⟩
  · rintro ⟨⟨stem, e⟩, hmem, rfl⟩
    have hlookup : s.lookup stem = some e := AList.mem_lookup_iff.mpr hmem
    rw [h.clip, hlookup]
    exact ⟨List.suffix_append _ _, rfl⟩

theorem Represents.mtimeOf_eq (h : Represents s d) {p : Sigma fun _ : Text => Sample}
    (hp : p ∈ s.entries) : mtimeOf d (p.1 ++ wavExt) = p.2.mtime := by
  have hlookup : s.lookup p.1 = some p.2 := AList.mem_lookup_iff.mpr hp
  rw [mtimeOf, h.clip, hlookup]
  rfl

/-- The clips, in any order. -/
theorem Represents.perm_globWav (h : Represents s d) (scan : Scan) :
    (globWav scan d).Perm (s.entries.map fun p => p.1 ++ wavExt) := by
  have hnames : (s.entries.map fun p => p.1 ++ wavExt).Nodup := by
    have hkeys := s.keys_nodup.map fun a b (hab : a ++ wavExt = b ++ wavExt) =>
      List.append_cancel_right hab
    rwa [AList.keys, List.keys, List.map_map] at hkeys
  rw [List.perm_ext_iff_of_nodup (nodup_globWav scan d) hnames]
  intro c
  rw [h.mem_globWav_iff, List.mem_map]

/-- **The order of the clips** is that of the samples, if their times tell them
apart. -/
theorem Represents.sorted_eq (h : Represents s d) (hdistinct : Distinct s) (scan : Scan)
    (r : ℕ → ℕ → Prop) [DecidableRel r] [Std.Total r] [IsTrans ℕ r] [Std.Antisymm r] :
    (globWav scan d).insertionSort (fun a b => r (mtimeOf d a) (mtimeOf d b)) =
      (s.sortedBy r).map fun p => p.1 ++ wavExt := by
  have hsamples : (s.sortedBy r).Perm s.entries := List.perm_insertionSort _ _
  have hperm : ((globWav scan d).insertionSort fun a b => r (mtimeOf d a) (mtimeOf d b)).Perm
      ((s.sortedBy r).map fun p => p.1 ++ wavExt) :=
    (List.perm_insertionSort _ _).trans
      ((h.perm_globWav scan).trans (hsamples.map fun p => p.1 ++ wavExt).symm)
  have hsorted : ((s.sortedBy r).map fun p => p.1 ++ wavExt).Pairwise fun a b =>
      r (mtimeOf d a) (mtimeOf d b) := by
    rw [List.pairwise_map]
    refine List.Pairwise.imp_of_mem ?_ (List.pairwise_insertionSort
      (fun a b : Sigma fun _ : Text => Sample => r a.2.mtime b.2.mtime) s.entries)
    intro a b ha hb hab
    rwa [h.mtimeOf_eq (hsamples.mem_iff.mp ha), h.mtimeOf_eq (hsamples.mem_iff.mp hb)]
  apply hperm.eq_of_pairwise ?_ (List.pairwise_insertionSort _ _) hsorted
  intro a b ha hb hab hba
  obtain ⟨p, hp, rfl⟩ := List.mem_map.mp (hperm.mem_iff.mp ha)
  obtain ⟨q, hq, rfl⟩ := List.mem_map.mp hb
  have hp' := hsamples.mem_iff.mp hp
  have hq' := hsamples.mem_iff.mp hq
  rw [h.mtimeOf_eq hp', h.mtimeOf_eq hq'] at hab hba
  rw [List.inj_on_of_nodup_map hdistinct hp' hq' (Std.Antisymm.antisymm _ _ hab hba)]

end Order

/-! ## The rotation -/

/-- The samples that a rotation removes. -/
def oldSamples (keep : ℤ) (s : Store) : List (Sigma fun _ : Text => Sample) :=
  if keep > 0 then (s.sortedBy (· ≤ ·)).take ((s.sortedBy (· ≤ ·)).length - keep.toNat) else []

theorem mem_of_oldSamples {keep : ℤ} {s : Store} {p : Sigma fun _ : Text => Sample}
    (hp : p ∈ oldSamples keep s) : p ∈ s.entries := by
  rw [oldSamples] at hp
  split at hp
  · exact (List.mem_insertionSort _).mp (List.mem_of_mem_take hp)
  · cases hp

theorem rotate_eq (keep : ℤ) (s : Store) :
    WakeStore.rotateWakeSamples keep s =
      (oldSamples keep s).foldl (fun s p => s.erase p.1) s := rfl

theorem lookup_rotate (keep : ℤ) (s : Store) (stem : Text) :
    (WakeStore.rotateWakeSamples keep s).lookup stem =
      if ∃ p ∈ oldSamples keep s, p.1 = stem then none else s.lookup stem := by
  rw [rotate_eq]
  generalize oldSamples keep s = old
  induction old generalizing s with
  | nil => simp
  | cons p old ih =>
    rw [List.foldl_cons, ih]
    simp only [List.exists_mem_cons_iff]
    by_cases hrest : ∃ p ∈ old, p.1 = stem
    · rw [if_pos hrest, if_pos (Or.inr hrest)]
    · by_cases hp : p.1 = stem
      · rw [if_neg hrest, if_pos (Or.inl hp), ← hp, AList.lookup_erase]
      · rw [if_neg hrest, if_neg (not_or.mpr ⟨hp, hrest⟩), AList.lookup_erase_ne (Ne.symm hp)]

/-- What is left are samples that were there. -/
theorem entries_rotate_sublist (keep : ℤ) (s : Store) :
    (WakeStore.rotateWakeSamples keep s).entries.Sublist s.entries := by
  rw [rotate_eq]
  generalize oldSamples keep s = old
  induction old generalizing s with
  | nil => exact List.Sublist.refl _
  | cons p old ih => exact (ih (s.erase p.1)).trans (List.kerase_sublist p.1 s.entries)

theorem Distinct.rotate {s : Store} (h : Distinct s) (keep : ℤ) :
    Distinct (WakeStore.rotateWakeSamples keep s) :=
  h.sublist ((entries_rotate_sublist keep s).map fun p => p.2.mtime)

section Rotate

variable {s : Store} {d : Samples dir}

theorem Represents.rotatedOut_eq (h : Represents s d) (hdistinct : Distinct s) (scan : Scan)
    (keep : ℤ) : rotatedOut scan keep d = (oldSamples keep s).map fun p => p.1 ++ wavExt := by
  have hsorted : sortedWavs scan d = (s.sortedBy (· ≤ ·)).map fun p => p.1 ++ wavExt :=
    h.sorted_eq hdistinct scan (· ≤ ·)
  rw [rotatedOut, oldSamples, hsorted]
  split
  · rw [List.length_map, List.map_take]
  · rfl

/-- **A rotation** removes the same samples from both. -/
theorem Represents.rotate (h : Represents s d) (hdistinct : Distinct s) (scan : Scan)
    (keep : ℤ) :
    Represents (WakeStore.rotateWakeSamples keep s) (rotateWakeSamples scan keep d) where
  clip := by
    intro stem
    have hout : (∃ c ∈ rotatedOut scan keep d, dir.entry (stem ++ wavExt) = dir.entry c ∨
        dir.entry (stem ++ wavExt) = sidecarPath dir c) ↔ ∃ p ∈ oldSamples keep s, p.1 = stem := by
      rw [removed_clip_iff (List.suffix_append _ _), h.rotatedOut_eq hdistinct, List.mem_map]
      simp only [List.append_left_inj]
    rw [lookup_rotateWakeSamples, lookup_rotate, h.clip, if_congr hout rfl rfl]
    split <;> rfl
  sidecar := by
    intro stem
    have hout : (∃ c ∈ rotatedOut scan keep d, dir.entry (stem ++ jsonExt) = dir.entry c ∨
        dir.entry (stem ++ jsonExt) = sidecarPath dir c) ↔
          ∃ p ∈ oldSamples keep s, p.1 = stem := by
      simp only [h.rotatedOut_eq hdistinct, List.mem_map, exists_exists_and_eq_and]
      refine exists_congr fun p => and_congr_right fun hp => ?_
      have hstem := (h.names p.1 (List.mem_map_of_mem (mem_of_oldSamples hp))).1
      have hclip : dir.entry (stem ++ jsonExt) ≠ dir.entry (p.1 ++ wavExt) :=
        (entry_ne_json (List.suffix_append _ _) stem).symm
      rw [or_iff_right hclip, sidecarPath, withSuffix_wav hstem]
      refine ⟨fun heq => (List.append_cancel_right (Disk.entry_inj heq)).symm, ?_⟩
      rintro rfl
      rfl
    rw [lookup_rotateWakeSamples, lookup_rotate, if_congr hout rfl rfl]
    split
    · rfl
    · exact h.sidecar stem
  names := by
    intro stem hstem
    exact h.names stem (((entries_rotate_sublist keep s).map Sigma.fst).subset hstem)
  other := by
    intro c hwav hjson
    rw [lookup_rotateWakeSamples, h.other c hwav hjson, ite_self]

end Rotate

/-! ## The endpoints that write -/

/-- The same answer, and the files of the store after it. -/
structure Same {ρ : Type} (s : Store) (after : Option (Store × ρ)) (o : Outcome dir ρ) : Prop where
  reply : o.reply = after.map Prod.snd
  disk : Represents ((after.map Prod.fst).getD s) o.disk

section Write

variable {s : Store} {d d' : Samples dir}

/-- A sample's two files are written. -/
theorem Represents.insert (h : Represents s d) {stem : Text} {e : Sample} {f : File}
    (hname : stem ≠ [] ∧ nameBytes (stem ++ jsonExt) ≤ nameMax) (hf : f.content = .object e.sidecar)
    (hd' : ∀ p, d'.lookup p =
      if p = dir.entry (stem ++ jsonExt) then some f
      else if p = dir.entry (stem ++ wavExt) then some (clipOf e) else d.lookup p) :
    Represents (s.insert stem e) d' where
  clip := by
    intro stem'
    rw [hd', if_neg (entry_ne_json (List.suffix_append _ _) stem)]
    by_cases hstem : stem' = stem
    · rw [hstem, if_pos rfl, AList.lookup_insert, Option.map_some]
    · rw [if_neg fun heq => hstem (List.append_cancel_right (Disk.entry_inj heq)), h.clip,
        AList.lookup_insert_ne hstem]
  sidecar := by
    intro stem'
    rw [hd']
    by_cases hstem : stem' = stem
    · rw [hstem, if_pos rfl, AList.lookup_insert, Option.map_some, Option.map_some, hf]
    · rw [if_neg fun heq => hstem (List.append_cancel_right (Disk.entry_inj heq)),
        if_neg (entry_ne_json (List.suffix_append _ _) stem').symm, h.sidecar,
        AList.lookup_insert_ne hstem]
  names := by
    intro stem' hmem
    rcases (AList.mem_insert s).mp hmem with rfl | hold
    · exact hname
    · exact h.names stem' hold
  other := by
    intro c hwav hjson
    rw [hd', if_neg ?_, if_neg ?_, h.other c hwav hjson]
    · intro heq
      rw [Disk.entry_inj heq] at hwav
      exact hwav (List.suffix_append _ _)
    · intro heq
      rw [Disk.entry_inj heq] at hjson
      exact hjson (List.suffix_append _ _)

/-- **An upload** writes the files of its sample, and is rotated alike. -/
theorem Represents.upload (h : Represents s d) {t : CharTables} {u : Upload}
    (hfits : nameBytes (u.base t ++ jsonExt) ≤ nameMax)
    (hdistinct : Distinct (s.insert (u.base t) u.sample)) (scan : Scan) (keep : ℤ) :
    Same s (WakeStore.wakeSample t keep u s) (wakeSample t scan keep u d) := by
  by_cases hbody : u.body = []
  · rw [WakeStore.wakeSample, wakeSample, if_pos hbody, if_pos hbody]
    exact ⟨rfl, h⟩
  · obtain ⟨d₂, hwritten, hupload⟩ := wakeSample_of_stored ⟨hbody, hfits⟩ scan keep d
    have hinsert : Represents (s.insert (u.base t) u.sample) d₂ :=
      h.insert ⟨base_ne_nil t u, hfits⟩ rfl hwritten
    rw [WakeStore.wakeSample, if_neg hbody, hupload]
    exact ⟨rfl, hinsert.rotate hdistinct scan keep⟩

/-- **A label request** sets the label of the same sample. -/
theorem Represents.label (h : Represents s d) (t : CharTables) (name label : Text) (mtime : ℕ) :
    Same s (WakeStore.wakeSampleLabel t name label s) (wakeSampleLabel t name label mtime d) := by
  have hpath : fileName name = WakeStore.pathName name := rfl
  simp only [WakeStore.wakeSampleLabel, wakeSampleLabel, labelPath_eq, hpath]
  generalize stemOf (WakeStore.pathName name) = stem
  generalize t.lower (strip label) = label'
  split
  · have hside := h.sidecar stem
    cases hlookup : s.lookup stem with
    | none =>
      rw [hlookup, Option.map_none, Option.map_eq_none_iff] at hside
      simp only [hside, Option.map_none]
      exact ⟨rfl, h⟩
    | some e =>
      rw [hlookup] at hside
      obtain ⟨f, hf, hcontent⟩ := Option.map_eq_some_iff.mp hside
      have hname := h.names stem (AList.lookup_isSome.mp (Option.isSome_of_eq_some hlookup))
      obtain ⟨d', hd'⟩ := Option.isSome_iff_exists.mp ((d.isSome_write_entry (stem ++ jsonExt)
        { content := .object (e.sidecar.insert labelKey (.str label')), mtime }).mpr hname.2)
      simp only [hf, hcontent, Option.bind_some, hd', Option.map_some]
      refine ⟨rfl, ?_⟩
      refine h.insert (e := e.setLabel label')
        (f := { content := .object (e.sidecar.insert labelKey (.str label')), mtime }) hname rfl ?_
      intro p
      rw [Disk.lookup_write hd']
      split
      · rfl
      · split
        · rename_i hclip
          rw [hclip, h.clip, hlookup]
          rfl
        · rfl
  · exact ⟨rfl, h⟩

end Write

/-! ## The endpoints that read -/

section Read

variable {s : Store} {d : Samples dir}

/-- The answer to a download. -/
def answerOf : WakeStore.File → Text × Content
  | .wav bytes => ("audio/wav".toList, .bytes bytes)
  | .json sidecar => ("application/json".toList, .object sidecar)

/-- A download answers with the file of its name. -/
theorem reply_get (name : Text) (d : Samples dir) :
    (wakeSampleGet name d).reply.map (fun r => (r.1, r.2.content)) =
      ((d.lookup (resolve (join dir.path (fileName name)))).map File.content).map fun content =>
        (if wavExt <:+ fileName name then "audio/wav".toList else "application/json".toList,
          content) := by
  simp only [wakeSampleGet]
  cases d.lookup (resolve (join dir.path (fileName name))) <;> rfl

/-- **A download** answers with what the store has. -/
theorem Represents.get (h : Represents s d) (name : Text) :
    (wakeSampleGet name d).reply.map (fun r => (r.1, r.2.content)) =
      (WakeStore.wakeSampleGet s name).map answerOf := by
  have hpath : WakeStore.pathName name = fileName name := rfl
  have hcases := fileName_cases name
  rw [reply_get, WakeStore.wakeSampleGet, hpath]
  generalize fileName name = safe at hcases ⊢
  rcases hcases with rfl | rfl | hname
  · rw [resolve_join_nil dir.resolved, d.lookup_dir_eq_none List.prefix_rfl]
    rfl
  · rw [resolve_join_dotdot dir.resolved, d.lookup_dir_eq_none (List.dropLast_prefix dir.path)]
    rfl
  · rw [resolve_join dir.resolved hname]
    by_cases hwav : wavExt <:+ safe
    · simp only [if_pos hwav, show ".wav".toList <:+ safe from hwav]
      obtain ⟨stem, rfl⟩ := hwav
      have hstem : (stem ++ wavExt).take ((stem ++ wavExt).length - 4) = stem :=
        WakeStore.take_wav stem
      have hclip : d.lookup (dir.path ++ [stem ++ wavExt]) = (s.lookup stem).map clipOf :=
        h.clip stem
      rw [hclip, hstem]
      cases s.lookup stem <;> rfl
    · by_cases hjson : jsonExt <:+ safe
      · simp only [if_neg hwav, show ¬ ".wav".toList <:+ safe from hwav, if_false,
          show ".json".toList <:+ safe from hjson, if_true]
        obtain ⟨stem, rfl⟩ := hjson
        have hstem : (stem ++ jsonExt).take ((stem ++ jsonExt).length - 5) = stem := by
          rw [List.length_append]
          exact List.take_left
        have hside : (d.lookup (dir.path ++ [stem ++ jsonExt])).map File.content =
            (s.lookup stem).map fun e => .object e.sidecar := h.sidecar stem
        rw [hside, hstem]
        cases s.lookup stem <;> rfl
      · have hnone : d.lookup (dir.path ++ [safe]) = none := h.other safe hwav hjson
        simp only [show ¬ ".wav".toList <:+ safe from hwav, if_false,
          show ¬ ".json".toList <:+ safe from hjson, hnone, Option.map_none]

/-- An item shows a clip and its sidecar. -/
structure Shows (i : WakeStore.Item) (j : Item) : Prop where
  wav : j.wav = i.wav
  clip : ∃ bytes, j.clip = some (.bytes bytes) ∧ bytes.length = i.bytes
  sidecar : j.sidecar = .object i.sidecar

/-- **The list** shows the samples of the store, in their order. -/
theorem Represents.list (h : Represents s d) (hdistinct : Distinct s) (scan : Scan) :
    List.Forall₂ Shows (WakeStore.wakeSamplesList s) (wakeSamplesList scan d) := by
  rw [WakeStore.wakeSamplesList, wakeSamplesList, h.sorted_eq hdistinct scan (· ≥ ·), List.map_map,
    List.forall₂_map_left_iff, List.forall₂_map_right_iff, List.forall₂_same]
  intro p hp
  have hlookup : s.lookup p.1 = some p.2 :=
    AList.mem_lookup_iff.mpr ((List.mem_insertionSort _).mp hp)
  have hclip := h.clip p.1
  have hside := h.sidecar p.1
  rw [hlookup, Option.map_some] at hclip hside
  obtain ⟨f, hf, hcontent⟩ := Option.map_eq_some_iff.mp hside
  have hname := h.names p.1 (AList.lookup_isSome.mp (Option.isSome_of_eq_some hlookup))
  refine ⟨rfl, ⟨p.2.wav, ?_, rfl⟩, ?_⟩
  · show (d.lookup (dir.entry (p.1 ++ wavExt))).map File.content = _
    rw [hclip]
    rfl
  · show readMeta d (p.1 ++ wavExt) = _
    simp only [readMeta, sidecarPath, withSuffix_wav hname.1, hf, hcontent]

end Read

/-! ## Runs -/

/-- A sample with a time that no other has. -/
theorem Distinct.insert {s : Store} (h : Distinct s) {stem : Text} {e : Sample}
    (hnew : ∀ p ∈ s.entries, p.1 ≠ stem → p.2.mtime ≠ e.mtime) : Distinct (s.insert stem e) := by
  have hsub := List.kerase_sublist stem s.entries
  rw [Distinct, AList.entries_insert, List.map_cons, List.nodup_cons]
  refine ⟨?_, h.sublist (hsub.map _)⟩
  rw [List.mem_map]
  rintro ⟨p, hp, hmtime⟩
  refine hnew p (hsub.subset hp) ?_ hmtime
  rintro rfl
  exact List.notMem_keys_kerase p.1 s.nodupKeys (List.mem_map_of_mem hp)

/-- A request, as the store sees it. -/
def requestOf : WakeRotation.Action → WakeStore.Action
  | .upload _ u => .upload u
  | .label name label _ => .label name label

/-- An upload that is stored has a name that is not too long, and a time that no
other sample has. -/
def ordered (t : CharTables) (s : WakeStore.State) : WakeStore.Action → Bool
  | .upload u =>
    u.body = [] || nameBytes (u.base t ++ jsonExt) ≤ nameMax &&
      s.store.entries.all fun p => p.1 = u.base t || p.2.mtime ≠ u.mtime
  | .label _ _ => true

/-- The label requests that were accepted. -/
def labellings (events : List WakeRotation.Event) : List (Text × Text) :=
  events.filterMap fun
    | .uploaded _ => none
    | .labelled wav label => some (wav, label)

/-- The files of the store, after the same requests. -/
structure Related (t : CharTables) (s : WakeStore.State) (s' : WakeRotation.State dir) : Prop where
  files : Represents s.store s'.disk
  distinct : Distinct s.store
  uploads : s.uploads =
    (WakeRotation.uploads s'.events).map fun u => (WakeRotation.wavName t u, u.body)
  labelled : s.labelled = labellings s'.events

theorem Related.upload {t : CharTables} {s : WakeStore.State} {s' : WakeRotation.State dir}
    (h : Related t s s') {u : Upload} (hordered : ordered t s (.upload u)) (scan : Scan)
    (keep : ℤ) :
    Related t (WakeStore.step t keep s (.upload u))
      (WakeRotation.step t keep s' (.upload scan u)) := by
  by_cases hbody : u.body = []
  · simp only [WakeStore.step, WakeRotation.step, WakeStore.wakeSample, wakeSample, if_pos hbody,
      Option.map_none, Option.toList_none, List.append_nil]
    exact h
  · simp only [ordered, Bool.or_eq_true, Bool.and_eq_true, decide_eq_true_eq, List.all_eq_true]
      at hordered
    obtain ⟨hfits, hnew⟩ := hordered.resolve_left hbody
    have hdistinct : Distinct (s.store.insert (u.base t) u.sample) :=
      h.distinct.insert fun p hp hne => (hnew p hp).resolve_left hne
    obtain ⟨hreply, hdisk⟩ := h.files.upload hfits hdistinct scan keep
    rw [WakeStore.wakeSample, if_neg hbody] at hreply hdisk
    simp only [WakeStore.step, WakeRotation.step, WakeStore.wakeSample, if_neg hbody, hreply,
      Option.map_some, Option.toList_some]
    refine ⟨hdisk, hdistinct.rotate keep, ?_, ?_⟩
    · rw [WakeRotation.uploads_uploaded, List.map_append, h.uploads]
      rfl
    · rw [labellings, List.filterMap_append, h.labelled]
      exact (List.append_nil _).symm

/-- A label changes no time. -/
theorem Distinct.label {s s' : Store} (h : Distinct s) {t : CharTables} {name label : Text}
    {answer : Text × Text} (heq : WakeStore.wakeSampleLabel t name label s = some (s', answer)) :
    Distinct s' := by
  simp only [WakeStore.wakeSampleLabel] at heq
  split at heq
  · obtain ⟨e, hlookup, hpair⟩ := Option.map_eq_some_iff.mp heq
    obtain ⟨rfl, -⟩ := Prod.mk.inj hpair
    apply h.insert
    intro p hp hne hmtime
    have hmem := AList.mem_lookup_iff.mp hlookup
    exact hne (congrArg Sigma.fst (List.inj_on_of_nodup_map h hp hmem hmtime))
  · cases heq

theorem Related.label {t : CharTables} {s : WakeStore.State} {s' : WakeRotation.State dir}
    (h : Related t s s') (keep : ℤ) (name label : Text) (mtime : ℕ) :
    Related t (WakeStore.step t keep s (.label name label))
      (WakeRotation.step t keep s' (.label name label mtime)) := by
  obtain ⟨hreply, hdisk⟩ := h.files.label t name label mtime
  cases hafter : WakeStore.wakeSampleLabel t name label s.store with
  | none =>
    rw [hafter] at hreply hdisk
    simp only [WakeStore.step, WakeRotation.step, hafter, hreply, Option.map_none,
      Option.toList_none, List.append_nil]
    exact ⟨hdisk, h.distinct, h.uploads, h.labelled⟩
  | some after =>
    rw [hafter] at hreply hdisk
    simp only [WakeStore.step, WakeRotation.step, hafter, hreply, Option.map_some,
      Option.toList_some]
    refine ⟨hdisk, h.distinct.label hafter, ?_, ?_⟩
    · rw [WakeRotation.uploads_labelled]
      exact h.uploads
    · rw [labellings, List.filterMap_append, h.labelled]
      rfl

theorem related_step {t : CharTables} {keep : ℤ} (s : WakeStore.State)
    (s' : WakeRotation.State dir) (a : WakeRotation.Action) (h : Related t s s')
    (hordered : ordered t s (requestOf a)) :
    Related t (WakeStore.step t keep s (requestOf a)) (WakeRotation.step t keep s' a) := by
  cases a with
  | upload scan u => exact h.upload hordered scan keep
  | label name label mtime => exact h.label keep name label mtime

/-- **The files are those of the store**, after every run of requests in which the
times tell the clips apart. -/
theorem represents_run (t : CharTables) (keep : ℤ) (as : List WakeRotation.Action)
    (hordered : Runs.Meets (WakeStore.step t keep) (ordered t) WakeStore.start
      (as.map requestOf)) :
    Related t (Runs.run (WakeStore.step t keep) WakeStore.start (as.map requestOf))
      (Runs.run (WakeRotation.step t keep) (WakeRotation.start (Disk.empty : Samples dir)) as) :=
  Runs.run_simulates related_step as ⟨represents_empty, List.nodup_nil, rfl, rfl⟩ hordered

/-- Requests that the store takes for a map, and the file system in order. -/
def inOrder (t : CharTables) (keep : ℤ) (s : WakeStore.State) (a : WakeStore.Action) : Bool :=
  ordered t s a && (WakeStore.withinMax keep s a && WakeStore.freshUnlabelled t s a)

/-- The store is a map after them. -/
theorem labelledMap_step {t : CharTables} {keep : ℤ} (s : WakeStore.State)
    (a : WakeStore.Action) (h : WakeStore.Inv s ∧ WakeStore.LabelledMap s)
    (hguard : inOrder t keep s a) :
    WakeStore.Inv (WakeStore.step t keep s a) ∧
      WakeStore.LabelledMap (WakeStore.step t keep s a) := by
  obtain ⟨hinv, hmap⟩ := h
  obtain ⟨-, hboth⟩ := (Bool.and_eq_true _ _).mp hguard
  obtain ⟨hroom, hfresh⟩ := (Bool.and_eq_true _ _).mp hboth
  refine ⟨hinv.step hroom, ?_⟩
  cases a with
  | upload u => exact (hmap.upload_step hinv hroom).mpr hfresh
  | label name label => exact hmap.label_step hinv name label

/-- The files after requests to an empty directory. -/
def filesAfter (dir : Dir) (t : CharTables) (keep : ℤ) (as : List WakeRotation.Action) :
    WakeRotation.State dir :=
  Runs.run (WakeRotation.step t keep) (WakeRotation.start (Disk.empty : Samples dir)) as

/-- **The files are a labelled map**: as long as nothing is rotated out, every
upload of a name of its own is downloaded as it was uploaded, and listed with the
label set last. -/
theorem labelledMap_files (t : CharTables) (keep : ℤ) (as : List WakeRotation.Action)
    (hguard : Runs.Meets (WakeStore.step t keep) (inOrder t keep) WakeStore.start
      (as.map requestOf)) (scan : Scan) :
    ∀ u ∈ WakeRotation.uploads (filesAfter dir t keep as).events,
      (wakeSampleGet (WakeRotation.wavName t u) (filesAfter dir t keep as).disk).reply.map
          (fun r => (r.1, r.2.content)) = some ("audio/wav".toList, .bytes u.body) ∧
        ∃ e ∈ wakeSamplesList scan (filesAfter dir t keep as).disk,
          e.wav = WakeRotation.wavName t u ∧
          ∃ pairs, e.sidecar = .object pairs ∧ pairs.lookup labelKey =
            (WakeStore.lastLabel (labellings (filesAfter dir t keep as).events)
              (WakeRotation.wavName t u)).map .str := by
  have hordered : Runs.Meets (WakeStore.step t keep) (ordered t) WakeStore.start
      (as.map requestOf) :=
    Runs.Meets.imp (fun _ _ h => ((Bool.and_eq_true _ _).mp h).1) hguard
  have hrelated : Related t _ (filesAfter dir t keep as) := represents_run t keep as hordered
  have hstart := And.intro WakeStore.inv_start WakeStore.labelledMap_start
  have halways := Runs.always_of_meets labelledMap_step hstart hguard
  obtain ⟨-, hmap⟩ := Runs.always_iff_take.mp halways (as.map requestOf).length
  rw [List.take_length] at hmap
  generalize filesAfter dir t keep as = s at hrelated ⊢
  intro u hu
  have hmem := List.mem_map_of_mem (f := fun u => (WakeRotation.wavName t u, u.body)) hu
  rw [← hrelated.uploads] at hmem
  refine ⟨?_, ?_⟩
  · rw [hrelated.files.get, hmap.body _ hmem]
    rfl
  · obtain ⟨i, hi, hname, hlabel⟩ := hmap.label _ hmem
    obtain ⟨hlen, hshows⟩ :=
      List.forall₂_iff_get.mp (hrelated.files.list hrelated.distinct scan)
    obtain ⟨k, rfl⟩ := List.mem_iff_get.mp hi
    have hk : k < (wakeSamplesList scan s.disk).length := hlen ▸ k.2
    have hitem := hshows k k.2 hk
    refine ⟨_, List.get_mem _ ⟨k, hk⟩, hitem.wav.trans hname, _, hitem.sidecar, ?_⟩
    exact hlabel.trans (by rw [hrelated.labelled])

/-- Two uploads, and a label for the first. -/
theorem labelledMap_files_twoUploads :
    (WakeRotation.uploads
        (filesAfter wakeDir WakeStore.asciiTables 1000 WakeRotation.twoUploads).events).length = 2 ∧
      ∀ u ∈ WakeRotation.uploads
        (filesAfter wakeDir WakeStore.asciiTables 1000 WakeRotation.twoUploads).events,
      (wakeSampleGet (WakeRotation.wavName WakeStore.asciiTables u)
          (filesAfter wakeDir WakeStore.asciiTables 1000 WakeRotation.twoUploads).disk).reply.map
            (fun r => (r.1, r.2.content)) = some ("audio/wav".toList, .bytes u.body) ∧
        ∃ e ∈ wakeSamplesList asWritten
            (filesAfter wakeDir WakeStore.asciiTables 1000 WakeRotation.twoUploads).disk,
          e.wav = WakeRotation.wavName WakeStore.asciiTables u ∧
          ∃ pairs, e.sidecar = .object pairs ∧ pairs.lookup labelKey =
            (WakeStore.lastLabel (labellings
              (filesAfter wakeDir WakeStore.asciiTables 1000 WakeRotation.twoUploads).events)
                (WakeRotation.wavName WakeStore.asciiTables u)).map .str :=
  ⟨by decide +kernel,
    labelledMap_files WakeStore.asciiTables 1000 WakeRotation.twoUploads (by decide +kernel)
      asWritten⟩

end PipecatVoice.WakeRefinement
