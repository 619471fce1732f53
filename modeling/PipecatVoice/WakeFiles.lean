import Mathlib.Data.List.Sort
import PipecatVoice.Lib.Disk
import PipecatVoice.Lib.Newest
import PipecatVoice.WakeStore

/-!
# The wake samples as files

The endpoints of `WakeStore` once more, with the paths they make: the upload
writes `<base>.wav` and `<base>.json` into `WAKE_SAMPLE_DIR`, the rotation and the
list find the sidecar of a clip by `with_suffix`, and the label request finds it
by cutting the name it was given.

* `wakeSample`, `wakeSampleGet`, `wakeSampleLabel`, `wakeSamplesList` — the
  endpoints, on any files;
* `Confined` — what a request touches is in the directory;
* `wakePaths` — they are confined, and agree about the sidecar of an upload.

The order in which a directory is read is arbitrary, and nothing in it but files
has a name with `.wav`.
-/

namespace PipecatVoice.WakeFiles

open PosixPath
open WakeStore (CharTables Dict Json Upload labelKey labels stemOf)

/-! ## Files -/

/-- What a file holds, as `json.loads` reads it. -/
inductive Content where
  /-- no JSON -/
  | bytes (b : List UInt8)
  /-- a JSON object -/
  | object (pairs : Dict Json)
  /-- any other JSON value -/
  | value
  deriving DecidableEq

structure File where
  content : Content
  /-- `st_mtime` -/
  mtime : ℕ
  deriving DecidableEq

/-- The disk with `WAKE_SAMPLE_DIR`. -/
abbrev Samples (dir : Dir) := Disk File dir

/-- An order in which the system lists a directory. -/
structure Scan where
  order : List Name → List Name
  perm : ∀ l, (order l).Perm l

def wavExt : Text := ".wav".toList

def jsonExt : Text := ".json".toList

variable {dir : Dir}

/-- `p.stat().st_mtime` of an entry. -/
def mtimeOf (d : Samples dir) (c : Name) : ℕ := (d.lookup (dir.entry c)).elim 0 File.mtime

/-- `glob("*.wav")`, in some order. -/
def globWav (scan : Scan) (d : Samples dir) : List Name :=
  (scan.order d.children).filter (wavExt <:+ ·)

/-- `p.with_suffix(".json")` of an entry. -/
def sidecarPath (dir : Dir) (c : Name) : Path := dir.entry (withSuffix c jsonExt)

/-! ## The endpoints -/

/-- The files sorted by time, oldest first. -/
def sortedWavs (scan : Scan) (d : Samples dir) : List Name :=
  (globWav scan d).insertionSort fun a b => mtimeOf d a ≤ mtimeOf d b

/-- `wavs[:-keep] if keep > 0 else []` -/
def rotatedOut (scan : Scan) (keep : ℤ) (d : Samples dir) : List Name :=
  let wavs := sortedWavs scan d
  if keep > 0 then wavs.take (wavs.length - keep.toNat) else []

/-- `_rotate_wake_samples` -/
def rotateWakeSamples (scan : Scan) (keep : ℤ) (d : Samples dir) : Samples dir :=
  (rotatedOut scan keep d).foldl
    (fun d c => (d.unlink (dir.entry c)).unlink (sidecarPath dir c)) d

/-- What a request leads to. -/
structure Outcome (dir : Dir) (ρ : Type) where
  disk : Samples dir
  /-- the files created, read or rewritten -/
  touched : List Path
  /-- the answer, unless it is an error -/
  reply : Option ρ

/-- Where an upload's clip goes. -/
def wavPath (t : CharTables) (dir : Dir) (u : Upload) : Path :=
  resolve (join dir.path (u.base t ++ wavExt))

/-- Where its sidecar goes. -/
def jsonPath (t : CharTables) (dir : Dir) (u : Upload) : Path :=
  resolve (join dir.path (u.base t ++ jsonExt))

/-- `wake_sample` -/
def wakeSample (t : CharTables) (scan : Scan) (keep : ℤ) (u : Upload) (d : Samples dir) :
    Outcome dir Text :=
  if u.body = [] then { disk := d, touched := [], reply := none }
  else
    match d.write (wavPath t dir u) { content := .bytes u.body, mtime := u.mtime } with
    | none => { disk := d, touched := [], reply := none }
    | some d₁ =>
      match d₁.write (jsonPath t dir u) { content := .object u.sidecar, mtime := u.mtime } with
      -- the clip is left without its sidecar, and nothing is rotated
      | none => { disk := d₁, touched := [wavPath t dir u], reply := none }
      | some d₂ =>
        { disk := rotateWakeSamples scan keep d₂
          touched := [wavPath t dir u, jsonPath t dir u]
          reply := some (u.base t ++ wavExt) }

/-- What the list reads for a clip's sidecar; the empty object where there is
none. -/
def readMeta (d : Samples dir) (c : Name) : Content :=
  match d.lookup (sidecarPath dir c) with
  | none => .object ∅
  | some f =>
    match f.content with
    | .bytes _ => .object ∅
    | content => content

/-- An item of the list. -/
structure Item where
  wav : Name
  /-- the content whose length is `bytes` -/
  clip : Option Content
  /-- `meta` -/
  sidecar : Content

/-- `wake_samples_list`: newest first. -/
def wakeSamplesList (scan : Scan) (d : Samples dir) : List Item :=
  ((globWav scan d).insertionSort fun a b => mtimeOf d a ≥ mtimeOf d b).map fun c =>
    { wav := c, clip := (d.lookup (dir.entry c)).map File.content, sidecar := readMeta d c }

/-- `wake_sample_get`: the media type and the file. -/
def wakeSampleGet (name : Text) (d : Samples dir) : Outcome dir (Text × File) :=
  let safe := fileName name
  let path := resolve (join dir.path safe)
  match d.lookup path with
  | none => { disk := d, touched := [], reply := none }
  | some f =>
    let media := if wavExt <:+ safe then "audio/wav".toList else "application/json".toList
    { disk := d, touched := [path], reply := some (media, f) }

/-- The sidecar that a label request finds by its name. -/
def labelPath (dir : Dir) (name : Text) : Path :=
  resolve (join dir.path (stemOf (fileName name) ++ jsonExt))

/-- `wake_sample_label`, writing at `mtime`: the name and the label. -/
def wakeSampleLabel (t : CharTables) (name label : Text) (mtime : ℕ) (d : Samples dir) :
    Outcome dir (Text × Text) :=
  let label := t.lower (strip label)
  if label ∈ labels then
    let j := labelPath dir name
    match d.lookup j with
    | none => { disk := d, touched := [], reply := none }
    | some f =>
      let pairs := match f.content with
        | .bytes _ => some ∅
        | .object pairs => some pairs
        -- an item of no object cannot be set
        | .value => none
      match pairs.bind fun pairs =>
          d.write j { content := .object (pairs.insert labelKey (.str label)), mtime } with
      | none => { disk := d, touched := [j], reply := none }
      | some d' =>
        { disk := d', touched := [j], reply := some (stemOf (fileName name) ++ wavExt, label) }
  else { disk := d, touched := [], reply := none }

/-! ## Names -/

/-- A base name has the underscores of its two fields. -/
theorem underscore_mem_base (t : CharTables) (u : Upload) : '_' ∈ u.base t := by
  rw [Upload.base, List.mem_filter]
  refine ⟨?_, ?_⟩
  · simp only [List.mem_append]
    exact Or.inl (Or.inl (Or.inl (Or.inr (by decide))))
  · rw [Bool.or_eq_true, decide_eq_true_eq]
    exact Or.inr (by decide)

theorem base_ne_nil (t : CharTables) (u : Upload) : u.base t ≠ [] :=
  List.ne_nil_of_mem (underscore_mem_base t u)

theorem isName_wav (t : CharTables) (u : Upload) : IsName (u.base t ++ wavExt) :=
  IsName.append (WakeStore.slash_notMem_base t u) (by decide) (by decide)

theorem isName_json {stem : Text} (h : '/' ∉ stem) : IsName (stem ++ jsonExt) :=
  IsName.append h (by decide) (by decide)

theorem wavPath_eq (t : CharTables) (dir : Dir) (u : Upload) :
    wavPath t dir u = dir.entry (u.base t ++ wavExt) :=
  resolve_join dir.resolved (isName_wav t u)

theorem jsonPath_eq (t : CharTables) (dir : Dir) (u : Upload) :
    jsonPath t dir u = dir.entry (u.base t ++ jsonExt) :=
  resolve_join dir.resolved (isName_json (WakeStore.slash_notMem_base t u))

theorem slash_notMem_stemOf {name : Text} (h : '/' ∉ name) : '/' ∉ stemOf name := by
  rw [stemOf]
  split
  · exact fun hmem => h (List.mem_of_mem_take hmem)
  · split
    · exact fun hmem => h (List.mem_of_mem_take hmem)
    · exact h

theorem labelPath_eq (dir : Dir) (name : Text) :
    labelPath dir name = dir.entry (stemOf (fileName name) ++ jsonExt) :=
  resolve_join dir.resolved (isName_json (slash_notMem_stemOf (slash_notMem_fileName name)))

theorem stemOf_wav (base : Text) : stemOf (base ++ wavExt) = base := by
  have hwav : ".wav".toList <:+ base ++ wavExt := List.suffix_append base wavExt
  rw [stemOf, if_pos hwav]
  exact WakeStore.take_wav base

theorem stemOf_fileName_wav (t : CharTables) (u : Upload) :
    stemOf (fileName (u.base t ++ wavExt)) = u.base t := by
  rw [fileName_of_isName (isName_wav t u), stemOf_wav]

/-! ## Sidecars -/

/-- No name ends in both. -/
theorem not_jsonExt_suffix {c : Name} (hwav : wavExt <:+ c) : ¬ jsonExt <:+ c := by
  intro hjson
  obtain ⟨stem, rfl⟩ := hwav
  obtain ⟨stem', hstem'⟩ := hjson
  have hlast := congrArg List.getLast? hstem'
  rw [List.getLast?_append_of_ne_nil _ (by decide), List.getLast?_append_of_ne_nil _ (by decide)]
    at hlast
  revert hlast
  decide

theorem jsonExt_suffix_withSuffix (c : Name) : jsonExt <:+ withSuffix c jsonExt := by
  rw [withSuffix]
  split <;> exact List.suffix_append _ _

theorem withSuffix_wav {stem : Text} (h : stem ≠ []) :
    withSuffix (stem ++ wavExt) jsonExt = stem ++ jsonExt :=
  withSuffix_append h (by decide) (by decide) jsonExt

/-- **No other clip** has the sidecar of an upload for its own. -/
theorem eq_of_withSuffix_eq {t : CharTables} {u : Upload} {c : Name} (hc : wavExt <:+ c)
    (h : withSuffix c jsonExt = u.base t ++ jsonExt) : c = u.base t ++ wavExt := by
  obtain ⟨stem, rfl⟩ := hc
  by_cases hstem : stem = []
  · rw [hstem, List.nil_append] at h
    have hdot : withSuffix wavExt jsonExt = wavExt ++ jsonExt :=
      withSuffix_of_dot (by decide) jsonExt
    rw [hdot] at h
    have hbase := underscore_mem_base t u
    rw [← List.append_cancel_right h] at hbase
    exact absurd hbase (by decide)
  · rw [withSuffix_wav hstem] at h
    rw [List.append_cancel_right h]

theorem sidecarPath_wav (t : CharTables) (dir : Dir) (u : Upload) :
    sidecarPath dir (u.base t ++ wavExt) = dir.entry (u.base t ++ jsonExt) := by
  rw [sidecarPath, withSuffix_wav (base_ne_nil t u)]

theorem entry_ne_json {c : Name} (hc : wavExt <:+ c) (stem : Text) :
    dir.entry c ≠ dir.entry (stem ++ jsonExt) := by
  intro heq
  rw [Disk.entry_inj heq] at hc
  exact not_jsonExt_suffix hc (List.suffix_append _ _)

/-- The path of a clip is no sidecar's. -/
theorem entry_ne_sidecarPath {c c' : Name} (hc : wavExt <:+ c) :
    dir.entry c ≠ sidecarPath dir c' := by
  intro h
  have hname := Disk.entry_inj h
  rw [hname] at hc
  exact not_jsonExt_suffix hc (jsonExt_suffix_withSuffix c')

/-! ## What the rotation removes -/

theorem mem_globWav {scan : Scan} {d : Samples dir} {c : Name} :
    c ∈ globWav scan d ↔ wavExt <:+ c ∧ (d.lookup (dir.entry c)).isSome := by
  rw [globWav, List.mem_filter, (scan.perm d.children).mem_iff, Disk.mem_children,
    decide_eq_true_eq, and_comm]

theorem mem_sortedWavs {scan : Scan} {d : Samples dir} {c : Name} :
    c ∈ sortedWavs scan d ↔ wavExt <:+ c ∧ (d.lookup (dir.entry c)).isSome := by
  rw [sortedWavs, List.mem_insertionSort, mem_globWav]

theorem nodup_globWav (scan : Scan) (d : Samples dir) : (globWav scan d).Nodup :=
  ((scan.perm d.children).nodup_iff.mpr d.nodup_children).filter _

theorem nodup_sortedWavs (scan : Scan) (d : Samples dir) : (sortedWavs scan d).Nodup := by
  rw [sortedWavs, (List.perm_insertionSort _ _).nodup_iff]
  exact nodup_globWav scan d

theorem mem_sortedWavs_of_rotatedOut {scan : Scan} {keep : ℤ} {d : Samples dir} {c : Name}
    (h : c ∈ rotatedOut scan keep d) : c ∈ sortedWavs scan d := by
  rw [rotatedOut] at h
  split at h
  · exact List.mem_of_mem_take h
  · cases h

theorem wavExt_of_rotatedOut {scan : Scan} {keep : ℤ} {d : Samples dir} {c : Name}
    (h : c ∈ rotatedOut scan keep d) : wavExt <:+ c :=
  (mem_sortedWavs.mp (mem_sortedWavs_of_rotatedOut h)).1

/-- **The rotation** removes the clips that are rotated out and their sidecars,
and nothing else. -/
theorem lookup_rotateWakeSamples (scan : Scan) (keep : ℤ) (d : Samples dir) (p : Path) :
    (rotateWakeSamples scan keep d).lookup p =
      if ∃ c ∈ rotatedOut scan keep d, p = dir.entry c ∨ p = sidecarPath dir c then none
      else d.lookup p := by
  rw [rotateWakeSamples]
  generalize rotatedOut scan keep d = old
  induction old generalizing d with
  | nil => simp
  | cons c old ih =>
    rw [List.foldl_cons, ih, Disk.lookup_unlink, Disk.lookup_unlink]
    by_cases hrest : ∃ c ∈ old, p = dir.entry c ∨ p = sidecarPath dir c
    · rw [if_pos hrest, if_pos (by obtain ⟨c', hc', hp⟩ := hrest; exact ⟨c', .tail _ hc', hp⟩)]
    · by_cases hside : p = sidecarPath dir c
      · rw [if_neg hrest, if_pos hside, if_pos ⟨c, List.mem_cons_self, Or.inr hside⟩]
      · by_cases hclip : p = dir.entry c
        · rw [if_neg hrest, if_neg hside, if_pos hclip,
            if_pos ⟨c, List.mem_cons_self, Or.inl hclip⟩]
        · rw [if_neg hrest, if_neg hside, if_neg hclip, if_neg]
          rintro ⟨c', hc', hp⟩
          rcases List.mem_cons.mp hc' with rfl | hc'
          · exact hp.elim hclip hside
          · exact hrest ⟨c', hc', hp⟩

/-! ## Confinement -/

/-- A direct child of the directory. -/
def InDir (dir : Dir) (p : Path) : Prop := ∃ c, IsName c ∧ p = dir.entry c

/-- What a request touches is in the directory, and whatever is elsewhere stays as
it is. -/
structure Confined {ρ : Type} (d : Samples dir) (o : Outcome dir ρ) : Prop where
  touched : ∀ p ∈ o.touched, InDir dir p
  frame : ∀ p, (∀ c, p ≠ dir.entry c) → o.disk.lookup p = d.lookup p

theorem confined_self {ρ : Type} (d : Samples dir) (reply : Option ρ) :
    Confined d { disk := d, touched := [], reply := reply } :=
  ⟨fun _ hp => absurd hp List.not_mem_nil, fun _ _ => rfl⟩

theorem inDir_wavPath (t : CharTables) (dir : Dir) (u : Upload) : InDir dir (wavPath t dir u) :=
  ⟨_, isName_wav t u, wavPath_eq t dir u⟩

theorem inDir_jsonPath (t : CharTables) (dir : Dir) (u : Upload) :
    InDir dir (jsonPath t dir u) :=
  ⟨_, isName_json (WakeStore.slash_notMem_base t u), jsonPath_eq t dir u⟩

theorem inDir_labelPath (dir : Dir) (name : Text) : InDir dir (labelPath dir name) :=
  ⟨_, isName_json (slash_notMem_stemOf (slash_notMem_fileName name)), labelPath_eq dir name⟩

/-- A write in the directory leaves what is elsewhere. -/
theorem lookup_write_frame {d d' : Samples dir} {p : Path} {f : File} (hp : InDir dir p)
    (h : d.write p f = some d') {q : Path} (hq : ∀ c, q ≠ dir.entry c) :
    d'.lookup q = d.lookup q := by
  obtain ⟨c, -, rfl⟩ := hp
  rw [Disk.lookup_write h, if_neg (hq c)]

theorem confined_wakeSample (t : CharTables) (scan : Scan) (keep : ℤ) (u : Upload)
    (d : Samples dir) : Confined d (wakeSample t scan keep u d) := by
  have hwav := inDir_wavPath t dir u
  have hjson := inDir_jsonPath t dir u
  have hone : ∀ p ∈ [wavPath t dir u], InDir dir p := List.forall_mem_singleton.mpr hwav
  have hboth : ∀ p ∈ [wavPath t dir u, jsonPath t dir u], InDir dir p :=
    List.forall_mem_cons.mpr ⟨hwav, List.forall_mem_singleton.mpr hjson⟩
  rw [wakeSample]
  split
  · exact confined_self d none
  · split
    · exact confined_self d none
    · rename_i d₁ h₁
      split
      · exact ⟨hone, fun q hq => lookup_write_frame hwav h₁ hq⟩
      · rename_i d₂ h₂
        refine ⟨hboth, ?_⟩
        intro q hq
        have hold : ¬ ∃ c ∈ rotatedOut scan keep d₂, q = dir.entry c ∨ q = sidecarPath dir c := by
          rintro ⟨c, -, hclip | hside⟩
          · exact hq c hclip
          · exact hq _ hside
        rw [lookup_rotateWakeSamples, if_neg hold, lookup_write_frame hjson h₂ hq,
          lookup_write_frame hwav h₁ hq]

theorem confined_wakeSampleGet (name : Text) (d : Samples dir) :
    Confined d (wakeSampleGet name d) := by
  rw [wakeSampleGet]
  split
  · exact confined_self d none
  · rename_i f hf
    refine ⟨?_, fun _ _ => rfl⟩
    intro p hp
    rw [List.mem_singleton.mp hp]
    rcases resolve_join_fileName dir.resolved name with ⟨c, hc, -, hpath⟩ | hup
    · exact ⟨c, hc, hpath⟩
    · -- the directory, or the one above it, is no file
      rw [d.lookup_dir_eq_none hup] at hf
      cases hf

theorem confined_wakeSampleLabel (t : CharTables) (name label : Text) (mtime : ℕ)
    (d : Samples dir) : Confined d (wakeSampleLabel t name label mtime d) := by
  have hpath := inDir_labelPath dir name
  have htouched : ∀ p ∈ [labelPath dir name], InDir dir p :=
    List.forall_mem_singleton.mpr hpath
  simp only [wakeSampleLabel]
  split
  · split
    · exact confined_self d none
    · split
      · exact ⟨htouched, fun _ _ => rfl⟩
      · rename_i d' hd'
        obtain ⟨pairs, -, hwrite⟩ := Option.bind_eq_some_iff.mp hd'
        exact ⟨htouched, fun q hq => lookup_write_frame hpath hwrite hq⟩
  · exact confined_self d none

/-! ## An upload -/

/-- The clip of an upload. -/
def clipFile (u : Upload) : File := { content := .bytes u.body, mtime := u.mtime }

/-- Its sidecar. -/
def sidecarFile (u : Upload) : File := { content := .object u.sidecar, mtime := u.mtime }

/-- The upload is stored: it has a body, and its names are not too long. -/
structure Stored (t : CharTables) (u : Upload) : Prop where
  body : u.body ≠ []
  fits : nameBytes (u.base t ++ jsonExt) ≤ nameMax

theorem nameBytes_wav_le (base : Text) :
    nameBytes (base ++ wavExt) ≤ nameBytes (base ++ jsonExt) := by
  rw [nameBytes, nameBytes, List.map_append, List.map_append, List.sum_append, List.sum_append]
  exact Nat.add_le_add_left (by decide) _

/-- The disk with the two files of an upload. -/
def Written (t : CharTables) (u : Upload) (d d₂ : Samples dir) : Prop :=
  ∀ p, d₂.lookup p =
    if p = dir.entry (u.base t ++ jsonExt) then some (sidecarFile u)
    else if p = dir.entry (u.base t ++ wavExt) then some (clipFile u) else d.lookup p

/-- **A stored upload** writes its two files and rotates. -/
theorem wakeSample_of_stored {t : CharTables} {u : Upload} (h : Stored t u) (scan : Scan)
    (keep : ℤ) (d : Samples dir) :
    ∃ d₂ : Samples dir, Written t u d d₂ ∧
      wakeSample t scan keep u d =
        { disk := rotateWakeSamples scan keep d₂
          touched := [wavPath t dir u, jsonPath t dir u]
          reply := some (u.base t ++ wavExt) } := by
  have hwav : (d.write (dir.entry (u.base t ++ wavExt)) (clipFile u)).isSome :=
    (d.isSome_write_entry _ _).mpr ((nameBytes_wav_le _).trans h.fits)
  obtain ⟨d₁, h₁⟩ := Option.isSome_iff_exists.mp hwav
  have hjson : (d₁.write (dir.entry (u.base t ++ jsonExt)) (sidecarFile u)).isSome :=
    (d₁.isSome_write_entry _ _).mpr h.fits
  obtain ⟨d₂, h₂⟩ := Option.isSome_iff_exists.mp hjson
  refine ⟨d₂, ?_, ?_⟩
  · intro p
    rw [Disk.lookup_write h₂, Disk.lookup_write h₁]
  · rw [← wavPath_eq] at h₁
    rw [← jsonPath_eq] at h₂
    rw [wakeSample, if_neg h.body]
    simp only [clipFile] at h₁
    simp only [sidecarFile] at h₂
    simp only [h₁, h₂]

section Upload

variable {t : CharTables} {u : Upload} {d d₂ : Samples dir}

theorem Written.clip (h : Written t u d d₂) :
    d₂.lookup (dir.entry (u.base t ++ wavExt)) = some (clipFile u) := by
  rw [h, if_neg (entry_ne_json (List.suffix_append _ _) _), if_pos rfl]

theorem Written.sidecar (h : Written t u d d₂) :
    d₂.lookup (dir.entry (u.base t ++ jsonExt)) = some (sidecarFile u) := by
  rw [h, if_pos rfl]

/-- Another clip is as it was. -/
theorem Written.other (h : Written t u d d₂) {c : Name} (hc : wavExt <:+ c)
    (hne : c ≠ u.base t ++ wavExt) : d₂.lookup (dir.entry c) = d.lookup (dir.entry c) := by
  rw [h, if_neg (entry_ne_json hc _), if_neg fun heq => hne (Disk.entry_inj heq)]

/-- A clip is removed exactly if it is rotated out. -/
theorem removed_clip_iff {scan : Scan} {keep : ℤ} {c : Name} (hc : wavExt <:+ c) :
    (∃ c' ∈ rotatedOut scan keep d, dir.entry c = dir.entry c' ∨
      dir.entry c = sidecarPath dir c') ↔ c ∈ rotatedOut scan keep d := by
  refine ⟨?_, fun h => ⟨c, h, Or.inl rfl⟩⟩
  rintro ⟨c', hc', hclip | hside⟩
  · rwa [Disk.entry_inj hclip]
  · exact absurd hside (entry_ne_sidecarPath hc)

/-- The sidecar of an upload is removed exactly if its clip is. -/
theorem removed_sidecar_iff {scan : Scan} {keep : ℤ} :
    (∃ c ∈ rotatedOut scan keep d, dir.entry (u.base t ++ jsonExt) = dir.entry c ∨
      dir.entry (u.base t ++ jsonExt) = sidecarPath dir c) ↔
      u.base t ++ wavExt ∈ rotatedOut scan keep d := by
  refine ⟨?_, fun h => ⟨_, h, Or.inr (sidecarPath_wav t dir u).symm⟩⟩
  rintro ⟨c, hc, hclip | hside⟩
  · have hwav := wavExt_of_rotatedOut hc
    rw [← Disk.entry_inj hclip] at hwav
    exact absurd (List.suffix_append _ _) (not_jsonExt_suffix hwav)
  · rwa [← eq_of_withSuffix_eq (wavExt_of_rotatedOut hc) (Disk.entry_inj hside).symm]

/-- After the rotation the two files of the upload are both there, or both
gone. -/
theorem Written.rotated (h : Written t u d d₂) (scan : Scan) (keep : ℤ) :
    (rotateWakeSamples scan keep d₂).lookup (dir.entry (u.base t ++ wavExt)) =
        (if u.base t ++ wavExt ∈ rotatedOut scan keep d₂ then none else some (clipFile u)) ∧
      (rotateWakeSamples scan keep d₂).lookup (dir.entry (u.base t ++ jsonExt)) =
        if u.base t ++ wavExt ∈ rotatedOut scan keep d₂ then none else some (sidecarFile u) := by
  refine ⟨?_, ?_⟩
  · rw [lookup_rotateWakeSamples, h.clip]
    exact if_congr (removed_clip_iff (List.suffix_append _ _)) rfl rfl
  · rw [lookup_rotateWakeSamples, h.sidecar]
    exact if_congr removed_sidecar_iff rfl rfl

/-- A clip that its own rotation removes is followed by enough others that are
not older. -/
theorem Written.newer_of_rotatedOut (h : Written t u d d₂) {scan : Scan} {keep : ℤ}
    (hout : u.base t ++ wavExt ∈ rotatedOut scan keep d₂) :
    0 < keep ∧ keep ≤ ((globWav scan d).filter fun c =>
      c ≠ u.base t ++ wavExt ∧ u.mtime ≤ mtimeOf d c).length := by
  rw [rotatedOut] at hout
  split at hout
  · rename_i hkeep
    refine ⟨hkeep, ?_⟩
    have hsorted : (sortedWavs scan d₂).Pairwise fun a b => mtimeOf d₂ a ≤ mtimeOf d₂ b :=
      List.pairwise_insertionSort _ _
    have hcount := Newest.length_of_mem_take hsorted (nodup_sortedWavs scan d₂) hout
    have hmtime : mtimeOf d₂ (u.base t ++ wavExt) = u.mtime := by
      rw [mtimeOf, h.clip]
      rfl
    have hlength : keep.toNat ≤ ((globWav scan d).filter fun c =>
        c ≠ u.base t ++ wavExt ∧ u.mtime ≤ mtimeOf d c).length := by
      refine hcount.trans
        (List.subperm_of_subset ((nodup_sortedWavs scan d₂).filter _) ?_).length_le
      intro c hc
      obtain ⟨hmem, hnewer⟩ := List.mem_filter.mp hc
      obtain ⟨hne, hle⟩ := of_decide_eq_true hnewer
      obtain ⟨hwav, hthere⟩ := mem_sortedWavs.mp hmem
      have hother := h.other hwav hne
      rw [hmtime, mtimeOf, hother] at hle
      rw [hother] at hthere
      exact List.mem_filter.mpr ⟨mem_globWav.mpr ⟨hwav, hthere⟩, decide_eq_true ⟨hne, hle⟩⟩
    exact (Int.toNat_of_nonneg hkeep.le).symm.trans_le (Int.ofNat_le.mpr hlength)
  · cases hout

end Upload

/-! ## The paths of a stored upload -/

/-- The four ways to the sidecar of an upload lead to the same file, and from no
other clip. -/
structure SidecarsAgree (t : CharTables) (dir : Dir) (u : Upload) (name : Text) : Prop where
  /-- what is downloaded under the name is the clip -/
  get : resolve (join dir.path (fileName name)) = wavPath t dir u
  /-- the sidecar of a label request -/
  label : labelPath dir name = jsonPath t dir u
  /-- the sidecar of the list and of the rotation -/
  withSuffix : sidecarPath dir name = jsonPath t dir u
  only : ∀ c, wavExt <:+ c → sidecarPath dir c = jsonPath t dir u → c = name

/-- The name is found, accepted and listed, with what was uploaded. -/
structure Served (t : CharTables) (u : Upload) (name : Text) (d : Samples dir) : Prop where
  get : (wakeSampleGet name d).reply = some ("audio/wav".toList, clipFile u)
  label : ∀ label mtime, t.lower (strip label) ∈ labels →
    (wakeSampleLabel t name label mtime d).reply = some (name, t.lower (strip label))
  list : ∀ scan, ∃ e ∈ wakeSamplesList scan d,
    e.wav = name ∧ e.clip = some (.bytes u.body) ∧ e.sidecar = .object u.sidecar

theorem sidecarsAgree (t : CharTables) (dir : Dir) (u : Upload) :
    SidecarsAgree t dir u (u.base t ++ wavExt) where
  get := by rw [fileName_of_isName (isName_wav t u), wavPath]
  label := by rw [labelPath_eq, stemOf_fileName_wav, jsonPath_eq]
  withSuffix := by rw [sidecarPath_wav, jsonPath_eq]
  only := by
    intro c hc hside
    rw [jsonPath_eq] at hside
    exact eq_of_withSuffix_eq hc (Disk.entry_inj hside)

/-- The label request writes the sidecar anew. -/
theorem isSome_wakeSampleLabel {t : CharTables} {u : Upload} (h : Stored t u) {d : Samples dir}
    {f : File} {pairs : Dict Json} (hf : d.lookup (dir.entry (u.base t ++ jsonExt)) = some f)
    (hpairs : f.content = .object pairs) {label : Text} (hlabel : t.lower (strip label) ∈ labels)
    (mtime : ℕ) :
    (wakeSampleLabel t (u.base t ++ wavExt) label mtime d).reply =
      some (u.base t ++ wavExt, t.lower (strip label)) := by
  have hwrite := (d.isSome_write_entry (u.base t ++ jsonExt)
    { content := .object (pairs.insert labelKey (.str (t.lower (strip label)))), mtime }).mpr h.fits
  obtain ⟨d', hd'⟩ := Option.isSome_iff_exists.mp hwrite
  simp only [wakeSampleLabel, if_pos hlabel, labelPath_eq, stemOf_fileName_wav, hf, hpairs,
    Option.bind_some, hd']

/-- An upload that is still there is served. -/
theorem served_of_lookup {t : CharTables} {u : Upload} (h : Stored t u) {d : Samples dir}
    (hclip : d.lookup (dir.entry (u.base t ++ wavExt)) = some (clipFile u))
    (hside : d.lookup (dir.entry (u.base t ++ jsonExt)) = some (sidecarFile u)) :
    Served t u (u.base t ++ wavExt) d where
  get := by
    have hsafe := fileName_of_isName (isName_wav t u)
    have hpath : resolve (join dir.path (u.base t ++ wavExt)) = dir.entry (u.base t ++ wavExt) :=
      wavPath_eq t dir u
    simp only [wakeSampleGet, hsafe, hpath, hclip, if_pos (List.suffix_append _ _)]
  label := fun label mtime hlabel => isSome_wakeSampleLabel h hside rfl hlabel mtime
  list := by
    intro scan
    have hmem : u.base t ++ wavExt ∈ globWav scan d := by
      rw [mem_globWav, hclip]
      exact ⟨List.suffix_append _ _, rfl⟩
    refine ⟨_, List.mem_map_of_mem ((List.mem_insertionSort _).mpr hmem), rfl, ?_, ?_⟩
    · rw [hclip]
      rfl
    · rw [readMeta, sidecarPath_wav, hside]
      rfl

/-- **The paths of the wake samples.** Whatever the query, the name or the label,
a request touches files of the directory only. The name that a stored upload is
answered with leads everywhere to its clip and its sidecar, and is found,
accepted and listed exactly as long as the upload's own rotation leaves the clip,
which it does unless as many others as are kept are not older. -/
theorem wakePaths (t : CharTables) (dir : Dir) :
    (∀ scan keep u (d : Samples dir), Confined d (wakeSample t scan keep u d)) ∧
    (∀ name (d : Samples dir), Confined d (wakeSampleGet name d)) ∧
    (∀ name label mtime (d : Samples dir), Confined d (wakeSampleLabel t name label mtime d)) ∧
    ∀ scan keep u (d : Samples dir), Stored t u →
      ∃ name, (wakeSample t scan keep u d).reply = some name ∧ SidecarsAgree t dir u name ∧
        (Served t u name (wakeSample t scan keep u d).disk ↔
          ((wakeSample t scan keep u d).disk.lookup (wavPath t dir u)).isSome) ∧
        (((wakeSample t scan keep u d).disk.lookup (wavPath t dir u)).isSome ∨
          0 < keep ∧ keep ≤ ((globWav scan d).filter fun c =>
            c ≠ name ∧ u.mtime ≤ mtimeOf d c).length) := by
  refine ⟨confined_wakeSample t, confined_wakeSampleGet, confined_wakeSampleLabel t, ?_⟩
  intro scan keep u d h
  obtain ⟨d₂, hwritten, hupload⟩ := wakeSample_of_stored h scan keep d
  obtain ⟨hclip, hside⟩ := hwritten.rotated scan keep
  refine ⟨u.base t ++ wavExt, ?_, sidecarsAgree t dir u, ?_⟩
  · rw [hupload]
  · rw [hupload, wavPath_eq]
    by_cases hout : u.base t ++ wavExt ∈ rotatedOut scan keep d₂
    · rw [if_pos hout] at hclip
      simp only [hclip]
      refine ⟨iff_of_false ?_ Bool.false_ne_true, Or.inr (hwritten.newer_of_rotatedOut hout)⟩
      intro hserved
      have hget := hserved.get
      have hpath : resolve (join dir.path (u.base t ++ wavExt)) =
          dir.entry (u.base t ++ wavExt) := wavPath_eq t dir u
      simp only [wakeSampleGet, fileName_of_isName (isName_wav t u), hpath, hclip] at hget
      cases hget
    · rw [if_neg hout] at hclip hside
      simp only [hclip]
      exact ⟨iff_of_true (served_of_lookup h hclip hside) rfl, Or.inl rfl⟩

/-! ## A clock that was set back -/

/-- The directory of the samples. -/
def wakeDir : Dir where
  path := ["wake".toList]
  resolved := by
    intro c hc
    rw [List.mem_singleton.mp hc]
    exact ⟨by decide, by decide, by decide, by decide⟩

/-- A directory as it was written. -/
def asWritten : Scan := ⟨id, fun l => List.Perm.refl l⟩

/-- One clip, of time 10. -/
def oneClip : Samples wakeDir :=
  (Disk.empty.write (wakeDir.entry "1.wav".toList) { content := .bytes [], mtime := 10 }).getD
    Disk.empty

/-- An upload of time 5. -/
def setBack : Upload := { WakeStore.oneByte [] 1 with mtime := 5 }

theorem stored_setBack : Stored WakeStore.asciiTables setBack := ⟨by decide, by decide +kernel⟩

/-- Two clips may stay, and the upload is served under its name. -/
theorem wakePaths_setBack :
    ∃ name, (wakeSample WakeStore.asciiTables asWritten 2 setBack oneClip).reply = some name ∧
      SidecarsAgree WakeStore.asciiTables wakeDir setBack name ∧
      Served WakeStore.asciiTables setBack name
        (wakeSample WakeStore.asciiTables asWritten 2 setBack oneClip).disk := by
  obtain ⟨name, hreply, hagree, hserved, -⟩ :=
    (wakePaths WakeStore.asciiTables wakeDir).2.2.2 asWritten 2 setBack oneClip stored_setBack
  exact ⟨name, hreply, hagree, hserved.mpr (by decide +kernel)⟩

/-- If only one may stay, the upload is answered with a name that leads to nothing, for
its clip was the first to be rotated out. -/
theorem not_served_setBack :
    Stored WakeStore.asciiTables setBack ∧
      ∃ name, (wakeSample WakeStore.asciiTables asWritten 1 setBack oneClip).reply = some name ∧
        (wakeSampleGet name
          (wakeSample WakeStore.asciiTables asWritten 1 setBack oneClip).disk).reply = none ∧
        (wakeSampleLabel WakeStore.asciiTables name "positive".toList 20
          (wakeSample WakeStore.asciiTables asWritten 1 setBack oneClip).disk).reply = none := by
  refine ⟨stored_setBack, "1700000000_seq0_up0.wav".toList, ?_, ?_, ?_⟩
  · decide +kernel
  · decide +kernel
  · decide +kernel

end PipecatVoice.WakeFiles
