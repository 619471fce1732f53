import PipecatVoice.Lib.Runs
import PipecatVoice.WakeFiles

/-!
# Which wake samples are kept

The backend takes uploads and label requests, and each upload ends with a
rotation. As long as every upload has a name of its own and a time after all
others, the directory holds the newest clips of all there ever were.

* `step` — an upload or a label request;
* `Kept` — the newest clips are there, with their labels, the sidecars of the
  others are gone, and no other file has changed;
* `kept_run` — so it is after each upload of a run.
-/

namespace PipecatVoice.WakeRotation

open PosixPath WakeFiles
open WakeStore (CharTables Dict Json Upload labelKey labels stemOf)

variable {dir : Dir}

/-! ## Runs -/

/-- A request that was accepted. -/
inductive Event where
  /-- an upload was stored -/
  | uploaded (u : Upload)
  /-- a clip was labelled, under the name that was answered -/
  | labelled (wav label : Text)

/-- The disk, and the requests that were accepted. -/
structure State (dir : Dir) where
  disk : Samples dir
  events : List Event

/-- A request. -/
inductive Action where
  /-- `POST /wake-sample`, with the order in which the rotation lists the
  directory -/
  | upload (scan : Scan) (u : Upload)
  /-- `POST /wake-samples/{name}/label`, with the time it writes at -/
  | label (name label : Text) (mtime : ℕ)

/-- One request. -/
def step (t : CharTables) (keep : ℤ) (s : State dir) : Action → State dir
  | .upload scan u =>
    let o := wakeSample t scan keep u s.disk
    { disk := o.disk, events := s.events ++ (o.reply.map fun _ => Event.uploaded u).toList }
  | .label name label mtime =>
    let o := wakeSampleLabel t name label mtime s.disk
    { disk := o.disk, events := s.events ++ (o.reply.map fun r => Event.labelled r.1 r.2).toList }

/-- Any directory, before the first request. -/
def start (d₀ : Samples dir) : State dir := ⟨d₀, []⟩

/-! ## What is to be kept -/

/-- The name of an upload's clip. -/
def wavName (t : CharTables) (u : Upload) : Name := u.base t ++ wavExt

/-- The name of its sidecar. -/
def jsonName (t : CharTables) (u : Upload) : Name := u.base t ++ jsonExt

/-- The uploads that were stored. -/
def uploads (events : List Event) : List Upload :=
  events.filterMap fun
    | .uploaded u => some u
    | .labelled _ _ => none

/-- The clips of a directory with their times, oldest first. -/
def clipsOf (d : Samples dir) : List (Name × ℕ) :=
  (sortedWavs asWritten d).map fun c => (c, mtimeOf d c)

/-- The clips of the uploads with their times. -/
def arrivals (t : CharTables) (events : List Event) : List (Name × ℕ) :=
  (uploads events).map fun u => (wavName t u, u.mtime)

/-- All clips there ever were. -/
def ever (t : CharTables) (d₀ : Samples dir) (events : List Event) : List (Name × ℕ) :=
  clipsOf d₀ ++ arrivals t events

/-- The label of a clip: the parameter of its upload, if it has one, or what it
was labelled with last since then. -/
def labelOf (t : CharTables) (wav : Name) (events : List Event) : Option Json :=
  events.foldl (fun label e =>
    match e with
    | .uploaded u => if wavName t u = wav then u.sidecar.lookup labelKey else label
    | .labelled wav' l => if wav' = wav then some (.str l) else label) none

/-- An upload is there with its sidecar, which has its label and is otherwise as
it was uploaded. -/
structure Whole (t : CharTables) (s : State dir) (u : Upload) : Prop where
  clip : s.disk.lookup (dir.entry (wavName t u)) = some (clipFile u)
  sidecar : ∃ f pairs, s.disk.lookup (dir.entry (jsonName t u)) = some f ∧
    f.content = .object pairs ∧ pairs.lookup labelKey = labelOf t (wavName t u) s.events ∧
    pairs.erase labelKey = u.sidecar.erase labelKey

/-- A file that the requests have to do with: the two of an upload, those of a
clip that is gone, or a sidecar that was labelled. -/
def Concerned (t : CharTables) (d₀ : Samples dir) (s : State dir) (p : Path) : Prop :=
  (∃ u ∈ uploads s.events, p = dir.entry (wavName t u) ∨ p = dir.entry (jsonName t u)) ∨
  (∃ e ∈ ever t d₀ s.events, s.disk.lookup (dir.entry e.1) = none ∧
    (p = dir.entry e.1 ∨ p = sidecarPath dir e.1)) ∨
  ∃ stem label, Event.labelled (stem ++ wavExt) label ∈ s.events ∧ p = dir.entry (stem ++ jsonExt)

/-- **What is kept** of all clips there ever were. -/
structure Kept (t : CharTables) (n : ℕ) (d₀ : Samples dir) (s : State dir) : Prop where
  /-- the clips with fewer than `n` newer ones, and no other `.wav` files -/
  newest : ∀ c, wavExt <:+ c → ((s.disk.lookup (dir.entry c)).isSome ↔
    ∃ m, (c, m) ∈ ever t d₀ s.events ∧
      ((ever t d₀ s.events).filter fun e => m < e.2).length < n)
  /-- as many as there are, and no more than `n` -/
  count : (clipsOf s.disk).length = min n (ever t d₀ s.events).length
  /-- the one stored last among them -/
  last : ∀ u ∈ (uploads s.events).getLast?, Whole t s u
  /-- no sidecar is left of a clip that is gone -/
  gone : ∀ e ∈ ever t d₀ s.events, s.disk.lookup (dir.entry e.1) = none →
    s.disk.lookup (sidecarPath dir e.1) = none
  /-- an upload that is there is there as a whole -/
  whole : ∀ u ∈ uploads s.events, (s.disk.lookup (dir.entry (wavName t u))).isSome →
    Whole t s u
  /-- every other file is as it was -/
  frame : ∀ p, ¬ Concerned t d₀ s p → s.disk.lookup p = d₀.lookup p

/-- An upload that is not refused is stored, under a name that no clip has had, and
later than all of them. -/
def freshUpload (t : CharTables) (d₀ : Samples dir) (s : State dir) : Action → Bool
  | .upload _ u =>
    u.body = [] || nameBytes (jsonName t u) ≤ nameMax &&
      (ever t d₀ s.events).all fun e => e.1 ≠ wavName t u && e.2 < u.mtime
  | .label _ _ _ => true

/-! ## The clips of a directory -/

theorem mem_clipsOf {d : Samples dir} {e : Name × ℕ} :
    e ∈ clipsOf d ↔
      wavExt <:+ e.1 ∧ ∃ f, d.lookup (dir.entry e.1) = some f ∧ f.mtime = e.2 := by
  rw [clipsOf, List.mem_map]
  refine ⟨?_, ?_⟩
  · rintro ⟨c, hc, rfl⟩
    obtain ⟨hwav, hthere⟩ := mem_sortedWavs.mp hc
    obtain ⟨f, hf⟩ := Option.isSome_iff_exists.mp hthere
    refine ⟨hwav, f, hf, ?_⟩
    rw [mtimeOf, hf]
    rfl
  · rintro ⟨hwav, f, hf, hm⟩
    have hthere : (d.lookup (dir.entry e.1)).isSome := by
      rw [hf]
      rfl
    refine ⟨e.1, mem_sortedWavs.mpr ⟨hwav, hthere⟩, ?_⟩
    have hmtime : mtimeOf d e.1 = e.2 := by
      rw [mtimeOf, hf]
      exact hm
    rw [hmtime]

theorem map_fst_clipsOf (d : Samples dir) : (clipsOf d).map Prod.fst = sortedWavs asWritten d := by
  rw [clipsOf, List.map_map]
  exact List.map_id _

theorem nodup_names_clipsOf (d : Samples dir) : ((clipsOf d).map Prod.fst).Nodup := by
  rw [map_fst_clipsOf]
  exact nodup_sortedWavs asWritten d

theorem pairwise_clipsOf (d : Samples dir) : (clipsOf d).Pairwise fun a b => a.2 ≤ b.2 := by
  rw [clipsOf, List.pairwise_map]
  exact List.pairwise_insertionSort _ _

/-- Clips with the same time are the same, where the times are different. -/
theorem eq_of_snd_eq {l : List (Name × ℕ)} (hl : l.Pairwise fun a b => a.2 < b.2)
    {a b : Name × ℕ} (ha : a ∈ l) (hb : b ∈ l) (h : a.2 = b.2) : a = b := by
  have hnodup : (l.map Prod.snd).Nodup := by
    rw [List.nodup_iff_pairwise_ne, List.pairwise_map]
    exact hl.imp fun hlt => Nat.ne_of_lt hlt
  exact List.inj_on_of_nodup_map hnodup ha hb h

/-- **The sorted clips are known** once their names and times are. -/
theorem clipsOf_eq {d : Samples dir} {l : List (Name × ℕ)}
    (hl : l.Pairwise fun a b => a.2 < b.2)
    (hmem : ∀ e, e ∈ l ↔
      wavExt <:+ e.1 ∧ ∃ f, d.lookup (dir.entry e.1) = some f ∧ f.mtime = e.2) :
    clipsOf d = l := by
  have hsame (e) : e ∈ clipsOf d ↔ e ∈ l := by rw [mem_clipsOf, hmem]
  have hnodup : l.Nodup := hl.imp fun hlt heq => absurd hlt (by rw [heq]; exact lt_irrefl _)
  have hperm : (clipsOf d).Perm l :=
    (List.perm_ext_iff_of_nodup (nodup_names_clipsOf d).of_map hnodup).mpr hsame
  apply hperm.eq_of_pairwise ?_ (pairwise_clipsOf d) (hl.imp fun hlt => Nat.le_of_lt hlt)
  intro a b ha hb hle hge
  exact eq_of_snd_eq hl ((hsame a).mp ha) hb (Nat.le_antisymm hle hge)

/-- The order in which the directory is listed does not matter where the times are
different. -/
theorem sortedWavs_eq {d : Samples dir} (h : (clipsOf d).Pairwise fun a b => a.2 < b.2)
    (scan : Scan) : sortedWavs scan d = (clipsOf d).map Prod.fst := by
  rw [map_fst_clipsOf]
  have hperm : (sortedWavs scan d).Perm (sortedWavs asWritten d) := by
    rw [List.perm_ext_iff_of_nodup (nodup_sortedWavs _ _) (nodup_sortedWavs _ _)]
    intro c
    rw [mem_sortedWavs, mem_sortedWavs]
  have hmem {c : Name} (hc : c ∈ sortedWavs asWritten d) : (c, mtimeOf d c) ∈ clipsOf d :=
    List.mem_map.mpr ⟨c, hc, rfl⟩
  apply hperm.eq_of_pairwise ?_ (List.pairwise_insertionSort _ _) (List.pairwise_insertionSort _ _)
  intro a b ha hb hle hge
  have heq := eq_of_snd_eq h (hmem (hperm.mem_iff.mp ha)) (hmem hb) (Nat.le_antisymm hle hge)
  exact congrArg Prod.fst heq

/-! ## The rotation -/

variable {n : ℕ}

theorem rotatedOut_eq (hn : 0 < n) {d : Samples dir}
    (h : (clipsOf d).Pairwise fun a b => a.2 < b.2) (scan : Scan) :
    rotatedOut scan n d =
      ((clipsOf d).take ((clipsOf d).length - n)).map Prod.fst := by
  have hkeep : (n : ℤ) > 0 := Int.natCast_pos.mpr hn
  rw [rotatedOut, sortedWavs_eq h, if_pos hkeep, List.length_map, Int.toNat_natCast,
    List.map_take]

/-- **A rotation keeps the newest**, whatever the order of the directory. -/
theorem clipsOf_rotate (hn : 0 < n) {d : Samples dir}
    (h : (clipsOf d).Pairwise fun a b => a.2 < b.2) (scan : Scan) :
    clipsOf (rotateWakeSamples scan n d) = (clipsOf d).rtake n := by
  have hout := rotatedOut_eq hn h scan
  apply clipsOf_eq (h.sublist (List.drop_sublist _ _))
  intro e
  have hsplit : e ∈ clipsOf d → (e ∈ (clipsOf d).rtake n ↔ e.1 ∉ rotatedOut scan n d) := by
    intro he
    rw [hout, List.rtake]
    have hnames := nodup_names_clipsOf d
    refine ⟨?_, ?_⟩
    · intro hdrop htake
      obtain ⟨e', he', hname⟩ := List.mem_map.mp htake
      have heq := List.inj_on_of_nodup_map hnames (List.mem_of_mem_take he') he hname
      rw [heq] at he'
      exact List.disjoint_take_drop hnames.of_map le_rfl he' hdrop
    · intro hkept
      rw [← List.take_append_drop ((clipsOf d).length - n) (clipsOf d)] at he
      rcases List.mem_append.mp he with htake | hdrop
      · exact absurd (List.mem_map_of_mem htake) hkept
      · exact hdrop
  by_cases hwav : wavExt <:+ e.1
  · rw [and_iff_right hwav, lookup_rotateWakeSamples]
    by_cases hrotated : e.1 ∈ rotatedOut scan n d
    · rw [if_pos ((removed_clip_iff hwav).mpr hrotated)]
      refine iff_of_false ?_ (by rintro ⟨f, hf, -⟩; cases hf)
      intro he
      exact (hsplit (List.mem_of_mem_drop he)).mp he hrotated
    · rw [if_neg (mt (removed_clip_iff hwav).mp hrotated)]
      refine ⟨?_, ?_⟩
      · intro he
        exact (mem_clipsOf.mp (List.mem_of_mem_drop he)).2
      · intro hf
        exact (hsplit (mem_clipsOf.mpr ⟨hwav, hf⟩)).mpr hrotated
  · refine iff_of_false ?_ fun h => hwav h.1
    exact fun he => hwav (mem_clipsOf.mp (List.mem_of_mem_drop he)).1

/-! ## Events -/

section Events

variable (t : CharTables) (events : List Event)

theorem uploads_uploaded (u : Upload) :
    uploads (events ++ [.uploaded u]) = uploads events ++ [u] := by
  rw [uploads, List.filterMap_append]
  rfl

theorem uploads_labelled (wav label : Text) :
    uploads (events ++ [.labelled wav label]) = uploads events := by
  rw [uploads, List.filterMap_append]
  exact List.append_nil _

theorem arrivals_uploaded (u : Upload) :
    arrivals t (events ++ [.uploaded u]) = arrivals t events ++ [(wavName t u, u.mtime)] := by
  rw [arrivals, uploads_uploaded, List.map_append]
  rfl

theorem ever_uploaded (d₀ : Samples dir) (u : Upload) :
    ever t d₀ (events ++ [.uploaded u]) = ever t d₀ events ++ [(wavName t u, u.mtime)] := by
  rw [ever, arrivals_uploaded, ← List.append_assoc, ever]

theorem ever_labelled (d₀ : Samples dir) (wav label : Text) :
    ever t d₀ (events ++ [.labelled wav label]) = ever t d₀ events := by
  rw [ever, arrivals, uploads_labelled, ever, arrivals]

theorem labelOf_uploaded (wav : Name) (u : Upload) :
    labelOf t wav (events ++ [.uploaded u]) =
      if wavName t u = wav then u.sidecar.lookup labelKey else labelOf t wav events := by
  rw [labelOf, List.foldl_append, List.foldl_cons, List.foldl_nil, labelOf]

theorem labelOf_labelled (wav wav' : Name) (label : Text) :
    labelOf t wav (events ++ [.labelled wav' label]) =
      if wav' = wav then some (.str label) else labelOf t wav events := by
  rw [labelOf, List.foldl_append, List.foldl_cons, List.foldl_nil, labelOf]

end Events

theorem wavName_mem_ever {t : CharTables} {d₀ : Samples dir} {events : List Event} {u : Upload}
    (h : u ∈ uploads events) : (wavName t u, u.mtime) ∈ ever t d₀ events :=
  List.mem_append_right _ (List.mem_map_of_mem h)

theorem wavExt_of_mem_ever {t : CharTables} {d₀ : Samples dir} {events : List Event}
    {e : Name × ℕ} (h : e ∈ ever t d₀ events) : wavExt <:+ e.1 := by
  rcases List.mem_append.mp h with hold | hnew
  · exact (mem_clipsOf.mp hold).1
  · obtain ⟨u, -, rfl⟩ := List.mem_map.mp hnew
    exact List.suffix_append _ _

/-- A file stays concerned. -/
theorem Concerned.mono {t : CharTables} {d₀ : Samples dir} {s s' : State dir} {p : Path}
    (hevents : s.events <+: s'.events)
    (hgone : ∀ e ∈ ever t d₀ s.events, s.disk.lookup (dir.entry e.1) = none →
      s'.disk.lookup (dir.entry e.1) = none)
    (h : Concerned t d₀ s p) : Concerned t d₀ s' p := by
  obtain ⟨es, hes⟩ := hevents
  have huploads : uploads s'.events = uploads s.events ++ uploads es := by
    rw [← hes, uploads, List.filterMap_append]
    rfl
  have hever : ever t d₀ s.events ⊆ ever t d₀ s'.events := by
    rw [ever, ever, arrivals, arrivals, huploads, List.map_append, ← List.append_assoc]
    exact List.subset_append_left _ _
  rcases h with ⟨u, hu, hp⟩ | ⟨e, he, hnone, hp⟩ | ⟨stem, label, hmem, hp⟩
  · refine Or.inl ⟨u, ?_, hp⟩
    rw [huploads]
    exact List.mem_append_left _ hu
  · exact Or.inr (Or.inl ⟨e, hever he, hgone e he hnone, hp⟩)
  · refine Or.inr (Or.inr ⟨stem, label, ?_, hp⟩)
    rw [← hes]
    exact List.mem_append_left _ hmem

/-! ## One upload -/

/-- A new clip, later than the others, is the last one. -/
theorem clipsOf_written {t : CharTables} {u : Upload} {d d₂ : Samples dir}
    (h : Written t u d d₂) (hsorted : (clipsOf d).Pairwise fun a b => a.2 < b.2)
    (hfresh : ∀ e ∈ clipsOf d, e.1 ≠ wavName t u ∧ e.2 < u.mtime) :
    clipsOf d₂ = clipsOf d ++ [(wavName t u, u.mtime)] := by
  apply clipsOf_eq
  · exact Newest.pairwise_concat hsorted fun e he => (hfresh e he).2
  · intro e
    rw [List.mem_append, List.mem_singleton]
    by_cases hname : e.1 = wavName t u
    · rw [hname, wavName, h.clip]
      refine ⟨?_, ?_⟩
      · rintro (hold | rfl)
        · exact absurd hname (hfresh e hold).1
        · exact ⟨List.suffix_append _ _, clipFile u, rfl, rfl⟩
      · rintro ⟨-, f, hf, hm⟩
        rw [← Option.some_inj.mp hf] at hm
        exact Or.inr (Prod.ext hname hm.symm)
    · rw [or_iff_left (fun heq => hname (by rw [heq])), mem_clipsOf]
      refine and_congr_right fun hwav => ?_
      rw [h.other hwav hname]

/-! ## The invariant -/

/-- **The invariant**: the clips have times of their own, and the directory holds
what the rotations have left of them. -/
structure Inv (t : CharTables) (n : ℕ) (d₀ : Samples dir) (s : State dir) : Prop where
  times : (ever t d₀ s.events).Pairwise fun a b => a.2 < b.2
  clips : clipsOf s.disk = Newest.retained n (clipsOf d₀) (arrivals t s.events)
  gone : ∀ e ∈ ever t d₀ s.events, s.disk.lookup (dir.entry e.1) = none →
    s.disk.lookup (sidecarPath dir e.1) = none
  whole : ∀ u ∈ uploads s.events, (s.disk.lookup (dir.entry (wavName t u))).isSome →
    Whole t s u
  frame : ∀ p, ¬ Concerned t d₀ s p → s.disk.lookup p = d₀.lookup p

theorem ever_start (t : CharTables) (d₀ : Samples dir) :
    ever t d₀ (start d₀).events = clipsOf d₀ := List.append_nil _

theorem inv_start (t : CharTables) {d₀ : Samples dir}
    (hdistinct : ((clipsOf d₀).map Prod.snd).Nodup) : Inv t n d₀ (start d₀) where
  times := by
    rw [List.nodup_iff_pairwise_ne, List.pairwise_map] at hdistinct
    rw [ever_start]
    exact (pairwise_clipsOf d₀).imp₂ (fun _ _ hle hne => Nat.lt_of_le_of_ne hle hne) hdistinct
  clips := rfl
  gone := by
    intro e he hnone
    rw [ever_start] at he
    obtain ⟨-, f, hf, -⟩ := mem_clipsOf.mp he
    rw [start, hf] at hnone
    cases hnone
  whole := fun u hu => absurd hu List.not_mem_nil
  frame := fun _ _ => rfl

/-- What is there is one of the clips there ever were. -/
theorem Inv.clipsOf_sublist {t : CharTables} {d₀ : Samples dir} {s : State dir}
    (h : Inv t n d₀ s) : (clipsOf s.disk).Sublist (ever t d₀ s.events) := by
  rw [h.clips]
  exact Newest.retained_sublist n _ _

section Upload

variable {t : CharTables} {d₀ : Samples dir} {s : State dir} {u : Upload}

/-- What a fresh upload's name and time are to the clips there ever were. -/
structure Fresh (t : CharTables) (d₀ : Samples dir) (s : State dir) (u : Upload) : Prop where
  name : ∀ e ∈ ever t d₀ s.events, e.1 ≠ wavName t u
  time : ∀ e ∈ ever t d₀ s.events, e.2 < u.mtime

/-- With the files of a fresh upload the sorted clips are the old ones and it. -/
theorem Inv.clipsOf_written (h : Inv t n d₀ s) (hfresh : Fresh t d₀ s u) {d₂ : Samples dir}
    (hwritten : Written t u s.disk d₂) :
    clipsOf d₂ = clipsOf s.disk ++ [(wavName t u, u.mtime)] ∧
      (clipsOf d₂).Pairwise fun a b => a.2 < b.2 := by
  have hold := h.clipsOf_sublist.subset
  have hsorted := h.times.sublist h.clipsOf_sublist
  have heq := WakeRotation.clipsOf_written hwritten hsorted fun e he =>
    ⟨hfresh.name e (hold he), hfresh.time e (hold he)⟩
  refine ⟨heq, ?_⟩
  rw [heq]
  exact Newest.pairwise_concat hsorted fun e he => hfresh.time e (hold he)

/-- The files of another clip are as they were, apart from the rotation. -/
theorem lookup_written_of_ne {d d₂ : Samples dir} (hwritten : Written t u d d₂) {c : Name}
    (hc : wavExt <:+ c) (hne : c ≠ wavName t u) :
    d₂.lookup (dir.entry c) = d.lookup (dir.entry c) ∧
      d₂.lookup (sidecarPath dir c) = d.lookup (sidecarPath dir c) := by
  refine ⟨hwritten.other hc hne, ?_⟩
  rw [hwritten, if_neg ?_, if_neg (entry_ne_sidecarPath (List.suffix_append _ _)).symm]
  exact fun heq => hne (eq_of_withSuffix_eq hc (Disk.entry_inj heq))

/-- The state after a stored upload, with its files on `d₂` before the rotation. -/
def stored (scan : Scan) (n : ℕ) (s : State dir) (u : Upload) (d₂ : Samples dir) : State dir :=
  ⟨rotateWakeSamples scan n d₂, s.events ++ [.uploaded u]⟩

variable {d₂ : Samples dir} (scan : Scan)

/-- A clip that is left after the rotation keeps its sidecar. -/
theorem lookup_stored_of_isSome (s : State dir) {u' : Upload}
    (h : ((stored scan n s u d₂).disk.lookup (dir.entry (wavName t u'))).isSome) :
    (stored scan n s u d₂).disk.lookup (dir.entry (wavName t u')) =
        d₂.lookup (dir.entry (wavName t u')) ∧
      (stored scan n s u d₂).disk.lookup (dir.entry (jsonName t u')) =
        d₂.lookup (dir.entry (jsonName t u')) := by
  have hwav : wavExt <:+ wavName t u' := List.suffix_append _ _
  simp only [stored, lookup_rotateWakeSamples] at h ⊢
  by_cases hout : wavName t u' ∈ rotatedOut scan n d₂
  · rw [if_pos ((removed_clip_iff hwav).mpr hout)] at h
    cases h
  · exact ⟨if_neg (mt (removed_clip_iff hwav).mp hout), if_neg (mt removed_sidecar_iff.mp hout)⟩

/-- A clip that is gone stays gone. -/
theorem lookup_stored_eq_none (hfresh : Fresh t d₀ s u) (hwritten : Written t u s.disk d₂)
    {e : Name × ℕ} (he : e ∈ ever t d₀ s.events) (hnone : s.disk.lookup (dir.entry e.1) = none) :
    (stored scan n s u d₂).disk.lookup (dir.entry e.1) = none := by
  have hsame := lookup_written_of_ne hwritten (wavExt_of_mem_ever he) (hfresh.name e he)
  rw [stored, lookup_rotateWakeSamples, hsame.1, hnone, ite_self]

/-- A clip that is gone after the rotation has no sidecar. -/
theorem Inv.gone_stored (h : Inv t n d₀ s) (hwritten : Written t u s.disk d₂) {e : Name × ℕ}
    (he : e ∈ ever t d₀ (s.events ++ [.uploaded u]))
    (hnone : (stored scan n s u d₂).disk.lookup (dir.entry e.1) = none) :
    (stored scan n s u d₂).disk.lookup (sidecarPath dir e.1) = none := by
  have hwav := wavExt_of_mem_ever he
  rw [stored, lookup_rotateWakeSamples] at hnone ⊢
  by_cases hout : e.1 ∈ rotatedOut scan n d₂
  · rw [if_pos ⟨e.1, hout, Or.inr rfl⟩]
  · rw [if_neg (mt (removed_clip_iff hwav).mp hout)] at hnone
    have hne : e.1 ≠ wavName t u := by
      intro heq
      rw [heq, wavName, hwritten.clip] at hnone
      cases hnone
    rw [ever_uploaded] at he
    have hold := (List.mem_append.mp he).resolve_right fun hlast => by
      rw [List.mem_singleton.mp hlast] at hne
      exact hne rfl
    obtain ⟨hclip, hside⟩ := lookup_written_of_ne hwritten hwav hne
    rw [hclip] at hnone
    rw [hside, h.gone e hold hnone, ite_self]

/-- An upload that is left is there as a whole, the new one with its own
sidecar. -/
theorem Inv.whole_stored (h : Inv t n d₀ s) (hfresh : Fresh t d₀ s u)
    (hwritten : Written t u s.disk d₂) {u' : Upload}
    (hmem : u' ∈ uploads (s.events ++ [.uploaded u]))
    (hthere : ((stored scan n s u d₂).disk.lookup (dir.entry (wavName t u'))).isSome) :
    Whole t (stored scan n s u d₂) u' := by
  obtain ⟨hclip, hside⟩ := lookup_stored_of_isSome scan s hthere
  rw [uploads_uploaded] at hmem
  rcases List.mem_append.mp hmem with hold | hlast
  · have hne := hfresh.name _ (wavName_mem_ever hold)
    have hwav : wavExt <:+ wavName t u' := List.suffix_append _ _
    obtain ⟨hclip', hside'⟩ := lookup_written_of_ne hwritten hwav hne
    rw [wavName, sidecarPath_wav] at hside'
    rw [hclip.trans hclip'] at hthere
    have hwhole := h.whole u' hold hthere
    refine ⟨(hclip.trans hclip').trans hwhole.clip, ?_⟩
    rw [hside.trans hside', stored, labelOf_uploaded, if_neg hne.symm]
    exact hwhole.sidecar
  · obtain rfl := List.mem_singleton.mp hlast
    refine ⟨hclip.trans hwritten.clip, sidecarFile u', u'.sidecar, ?_, rfl, ?_, rfl⟩
    · exact hside.trans hwritten.sidecar
    · rw [stored, labelOf_uploaded, if_pos rfl]

/-- What has to do neither with the upload nor with what is rotated out is as it
was. -/
theorem Inv.frame_stored (h : Inv t n d₀ s) (hfresh : Fresh t d₀ s u)
    (hwritten : Written t u s.disk d₂) {p : Path}
    (hp : ¬ Concerned t d₀ (stored scan n s u d₂) p) :
    (stored scan n s u d₂).disk.lookup p = d₀.lookup p := by
  have hlast : u ∈ uploads (s.events ++ [.uploaded u]) := by
    rw [uploads_uploaded]
    exact List.mem_append_right _ List.mem_cons_self
  have hclip : p ≠ dir.entry (wavName t u) := fun heq => hp (Or.inl ⟨u, hlast, Or.inl heq⟩)
  have hside : p ≠ dir.entry (jsonName t u) := fun heq => hp (Or.inl ⟨u, hlast, Or.inr heq⟩)
  have hkept : ¬ ∃ c ∈ rotatedOut scan n d₂, p = dir.entry c ∨ p = sidecarPath dir c := by
    rintro ⟨c, hc, hpath⟩
    obtain ⟨hwav, hthere⟩ := mem_sortedWavs.mp (mem_sortedWavs_of_rotatedOut hc)
    have hmem : (c, mtimeOf d₂ c) ∈ clipsOf d₂ :=
      List.mem_map_of_mem (mem_sortedWavs.mpr ⟨hwav, hthere⟩)
    rw [(h.clipsOf_written hfresh hwritten).1] at hmem
    have hever : (c, mtimeOf d₂ c) ∈ ever t d₀ (s.events ++ [.uploaded u]) := by
      rw [ever_uploaded]
      exact (h.clipsOf_sublist.append_right _).subset hmem
    refine hp (Or.inr (Or.inl ⟨_, hever, ?_, hpath⟩))
    rw [stored, lookup_rotateWakeSamples, if_pos ((removed_clip_iff hwav).mpr hc)]
  have hframe : s.disk.lookup p = d₀.lookup p := by
    apply h.frame
    intro hconcerned
    apply hp
    exact hconcerned.mono (List.prefix_append _ _) fun e he hnone =>
      lookup_stored_eq_none scan hfresh hwritten he hnone
  rw [stored, lookup_rotateWakeSamples, if_neg hkept, hwritten]
  exact (if_neg hside).trans ((if_neg hclip).trans hframe)

/-- **A stored upload** keeps the invariant. -/
theorem Inv.upload (hn : 0 < n) (h : Inv t n d₀ s) (hfresh : Fresh t d₀ s u)
    (hwritten : Written t u s.disk d₂) : Inv t n d₀ (stored scan n s u d₂) where
  times := by
    rw [stored, ever_uploaded]
    exact Newest.pairwise_concat h.times hfresh.time
  clips := by
    obtain ⟨hclips, hsorted⟩ := h.clipsOf_written hfresh hwritten
    rw [stored, clipsOf_rotate hn hsorted, hclips, h.clips, arrivals_uploaded,
      Newest.retained_concat hn]
  gone := fun _ he => h.gone_stored scan hwritten he
  whole := fun _ hmem => h.whole_stored scan hfresh hwritten hmem
  frame := fun _ hp => h.frame_stored scan hfresh hwritten hp

end Upload

/-! ## One label request -/

/-- A clip is labelled: a sidecar that is there has the label, and is otherwise
as it was. -/
structure Labelled (stem label : Text) (d d' : Samples dir) : Prop where
  there : d.lookup (dir.entry (stem ++ jsonExt)) ≠ none
  sidecar : ∀ f pairs, d.lookup (dir.entry (stem ++ jsonExt)) = some f →
    f.content = .object pairs →
    ∃ f', d'.lookup (dir.entry (stem ++ jsonExt)) = some f' ∧
      f'.content = .object (pairs.insert labelKey (.str label))
  other : ∀ p, p ≠ dir.entry (stem ++ jsonExt) → d'.lookup p = d.lookup p

/-- **A label request** is an error, or labels a clip. -/
theorem wakeSampleLabel_cases (t : CharTables) (name label : Text) (mtime : ℕ)
    (d : Samples dir) :
    ((wakeSampleLabel t name label mtime d).reply = none ∧
        (wakeSampleLabel t name label mtime d).disk = d) ∨
      ∃ stem label', (wakeSampleLabel t name label mtime d).reply = some (stem ++ wavExt, label') ∧
        Labelled stem label' d (wakeSampleLabel t name label mtime d).disk := by
  simp only [wakeSampleLabel, labelPath_eq]
  split
  · split
    · exact Or.inl ⟨rfl, rfl⟩
    · rename_i f hf
      split
      · exact Or.inl ⟨rfl, rfl⟩
      · rename_i d' hd'
        obtain ⟨pairs, hpairs, hwrite⟩ := Option.bind_eq_some_iff.mp hd'
        refine Or.inr ⟨_, _, rfl, ?_, ?_, ?_⟩
        · rw [hf]
          exact Option.some_ne_none f
        · intro f₀ pairs₀ hf₀ hcontent
          rw [hf, Option.some_inj] at hf₀
          rw [hf₀, hcontent] at hpairs
          rw [Disk.lookup_write hwrite, if_pos rfl]
          exact ⟨_, rfl, by rw [Option.some_inj.mp hpairs]⟩
        · intro p hp
          rw [Disk.lookup_write hwrite, if_neg hp]
  · exact Or.inl ⟨rfl, rfl⟩

section Label

variable {t : CharTables} {d₀ d' : Samples dir} {s : State dir} {stem label : Text}

theorem Labelled.clip {d : Samples dir} (h : Labelled stem label d d') {c : Name}
    (hc : wavExt <:+ c) : d'.lookup (dir.entry c) = d.lookup (dir.entry c) :=
  h.other _ (entry_ne_json hc stem)

/-- The state after a clip was labelled. -/
def relabelled (s : State dir) (stem label : Text) (d' : Samples dir) : State dir :=
  ⟨d', s.events ++ [.labelled (stem ++ wavExt) label]⟩

/-- A clip that is labelled is there as a whole, and has the label. -/
theorem Inv.whole_relabelled (h : Inv t n d₀ s) (hlabelled : Labelled stem label s.disk d')
    {u : Upload} (hmem : u ∈ uploads s.events)
    (hthere : (d'.lookup (dir.entry (wavName t u))).isSome) :
    Whole t (relabelled s stem label d') u := by
  have hclip := hlabelled.clip (List.suffix_append (u.base t) wavExt)
  rw [wavName, hclip] at hthere
  obtain ⟨hold, f, pairs, hf, hcontent, hlabel, hrest⟩ := h.whole u hmem hthere
  refine ⟨hclip.trans hold, ?_⟩
  rw [relabelled, labelOf_labelled]
  by_cases hname : stem ++ wavExt = wavName t u
  · rw [if_pos hname]
    rw [show stem = u.base t from List.append_cancel_right hname] at hlabelled
    obtain ⟨f', hf', hcontent'⟩ := hlabelled.sidecar f pairs hf hcontent
    refine ⟨f', _, hf', hcontent', AList.lookup_insert pairs, ?_⟩
    rw [Dict.erase_insert, hrest]
  · rw [if_neg hname]
    refine ⟨f, pairs, ?_, hcontent, hlabel, hrest⟩
    apply (hlabelled.other _ ?_).trans hf
    intro heq
    rw [← List.append_cancel_right (Disk.entry_inj heq)] at hname
    exact hname rfl

/-- **A label** keeps the invariant. -/
theorem Inv.relabel (h : Inv t n d₀ s) (hlabelled : Labelled stem label s.disk d') :
    Inv t n d₀ (relabelled s stem label d') where
  times := by
    rw [relabelled, ever_labelled]
    exact h.times
  clips := by
    have hsorted := h.times.sublist h.clipsOf_sublist
    have hsame : clipsOf d' = clipsOf s.disk := by
      apply clipsOf_eq hsorted
      intro e
      rw [mem_clipsOf]
      refine and_congr_right fun hwav => ?_
      rw [hlabelled.clip hwav]
    rw [relabelled, hsame, h.clips, arrivals, arrivals, uploads_labelled]
  gone := by
    intro e he hnone
    rw [relabelled, ever_labelled] at he
    rw [relabelled, hlabelled.clip (wavExt_of_mem_ever he)] at hnone
    have hgone := h.gone e he hnone
    rw [relabelled, hlabelled.other, hgone]
    intro heq
    rw [heq] at hgone
    exact hlabelled.there hgone
  whole := by
    intro u hmem hthere
    rw [relabelled, uploads_labelled] at hmem
    exact h.whole_relabelled hlabelled hmem hthere
  frame := by
    intro p hp
    have hlast : Event.labelled (stem ++ wavExt) label ∈
        s.events ++ [.labelled (stem ++ wavExt) label] :=
      List.mem_append_right _ List.mem_cons_self
    rw [relabelled, hlabelled.other p fun heq => hp (Or.inr (Or.inr ⟨stem, label, hlast, heq⟩))]
    apply h.frame
    intro hconcerned
    apply hp
    refine hconcerned.mono (List.prefix_append _ _) fun e he hnone => ?_
    rw [relabelled, hlabelled.clip (wavExt_of_mem_ever he), hnone]

end Label

/-! ## Runs -/

section Run

variable {t : CharTables} {d₀ : Samples dir} {s : State dir}

theorem Inv.step (hn : 0 < n) (h : Inv t n d₀ s) {a : Action} (hfresh : freshUpload t d₀ s a) :
    Inv t n d₀ (step t n s a) := by
  cases a with
  | upload scan u =>
    by_cases hbody : u.body = []
    · have hsame : WakeRotation.step t n s (.upload scan u) = s := by
        simp only [WakeRotation.step, wakeSample, if_pos hbody, Option.map_none, Option.toList_none,
          List.append_nil]
      rwa [hsame]
    · simp only [freshUpload, Bool.or_eq_true, Bool.and_eq_true, decide_eq_true_eq,
        List.all_eq_true] at hfresh
      obtain ⟨hfits, hall⟩ := hfresh.resolve_left hbody
      have hnew : Fresh t d₀ s u := ⟨fun e he => (hall e he).1, fun e he => (hall e he).2⟩
      obtain ⟨d₂, hwritten, hupload⟩ := wakeSample_of_stored ⟨hbody, hfits⟩ scan n s.disk
      have hstep : WakeRotation.step t n s (.upload scan u) = stored scan n s u d₂ := by
        simp only [WakeRotation.step, hupload, stored, Option.map_some, Option.toList_some]
      rw [hstep]
      exact h.upload scan hn hnew hwritten
  | label name label mtime =>
    rcases wakeSampleLabel_cases t name label mtime s.disk with
      ⟨hreply, hdisk⟩ | ⟨stem, label', hreply, hlabelled⟩
    · have hsame : WakeRotation.step t n s (.label name label mtime) = s := by
        simp only [WakeRotation.step, hreply, hdisk, Option.map_none, Option.toList_none,
          List.append_nil]
      rwa [hsame]
    · have hstep : WakeRotation.step t n s (.label name label mtime) =
          relabelled s stem label' (wakeSampleLabel t name label mtime s.disk).disk := by
        simp only [WakeRotation.step, hreply, relabelled, Option.map_some, Option.toList_some]
      rw [hstep]
      exact h.relabel hlabelled

/-- With an upload, the newest are kept. -/
theorem Inv.kept (hn : 0 < n) (h : Inv t n d₀ s) (hsome : uploads s.events ≠ []) :
    Kept t n d₀ s := by
  have harrivals : arrivals t s.events ≠ [] := by
    rw [arrivals, Ne, List.map_eq_nil_iff]
    exact hsome
  have hclips : clipsOf s.disk = (ever t d₀ s.events).rtake n := by
    rw [h.clips, Newest.retained_of_ne_nil harrivals, ever]
  refine ⟨?_, ?_, ?_, h.gone, h.whole, h.frame⟩
  · intro c hc
    have hthere : (s.disk.lookup (dir.entry c)).isSome ↔ ∃ m, (c, m) ∈ clipsOf s.disk := by
      simp only [mem_clipsOf, and_iff_right hc, Option.isSome_iff_exists]
      exact ⟨fun ⟨f, hf⟩ => ⟨f.mtime, f, hf, rfl⟩, fun ⟨_, f, hf, _⟩ => ⟨f, hf⟩⟩
    rw [hthere, hclips]
    exact exists_congr fun m => Newest.mem_rtake_iff h.times
  · rw [hclips, Newest.length_rtake]
  · intro u hu
    obtain ⟨us, hus⟩ := List.getLast?_eq_some_iff.mp hu
    have hmem : u ∈ uploads s.events := List.mem_of_getLast? hu
    refine h.whole u hmem ?_
    have hlast : (wavName t u, u.mtime) ∈ clipsOf s.disk := by
      rw [h.clips, arrivals, hus, List.map_append, List.map_singleton]
      exact Newest.mem_retained_concat hn _ _ _
    obtain ⟨-, f, hf, -⟩ := mem_clipsOf.mp hlast
    rw [hf]
    rfl

end Run

/-- A label request leaves every clip as it is. -/
theorem lookup_label (t : CharTables) (keep : ℤ) (s : State dir) (name label : Text) (mtime : ℕ)
    {c : Name} (hc : wavExt <:+ c) :
    (step t keep s (.label name label mtime)).disk.lookup (dir.entry c) =
      s.disk.lookup (dir.entry c) := by
  rcases wakeSampleLabel_cases t name label mtime s.disk with ⟨-, hdisk⟩ | ⟨_, _, -, hlabelled⟩
  · rw [step, hdisk]
  · exact hlabelled.clip hc

/-- **The newest wake samples are kept.** From any directory whose clips have
different times, after each of any uploads with names of their own and rising
times, and whatever was labelled in between, the directory holds the newest `n` of
all clips there ever were, and the last one among them; those that were uploaded
are whole, with their labels, no sidecar is left of the others, and every other
file is as it was. No label request touches a clip. -/
theorem kept_run (t : CharTables) (hn : 0 < n) (d₀ : Samples dir)
    (hdistinct : ((clipsOf d₀).map Prod.snd).Nodup) (as : List Action)
    (hfresh : Runs.Meets (step t n) (freshUpload t d₀) (start d₀) as) :
    Runs.Always (step t n) (fun s => uploads s.events ≠ [] → Kept t n d₀ s) (start d₀) as ∧
    ∀ (s : State dir) name label mtime c, wavExt <:+ c →
      (step t n s (.label name label mtime)).disk.lookup (dir.entry c) =
        s.disk.lookup (dir.entry c) := by
  refine ⟨?_, fun s name label mtime c hc => lookup_label t n s name label mtime hc⟩
  have hinv : Runs.Always (step t n) (Inv t n d₀) (start d₀) as :=
    Runs.always_of_meets (fun s a h hguard => h.step hn hguard) (inv_start t hdistinct) hfresh
  exact hinv.imp fun s h => h.kept hn

/-- Two uploads after a clip of time 10; the first is labelled before the second
comes. -/
def twoUploads : List Action :=
  [.upload asWritten { WakeStore.oneByte [("seq".toList, "1".toList)] 1 with mtime := 20 },
    .label "1700000000_seq1_up0.wav".toList " Positive".toList 25,
    .upload asWritten { WakeStore.oneByte [("seq".toList, "2".toList)] 2 with mtime := 30 }]

/-- The second upload rotates the old clip out, and the first keeps its label. -/
theorem kept_twoUploads :
    Runs.Always (step WakeStore.asciiTables 2)
      (fun s => uploads s.events ≠ [] → Kept WakeStore.asciiTables 2 oneClip s)
      (start oneClip) twoUploads :=
  (kept_run WakeStore.asciiTables (Nat.succ_pos 1) oneClip (by decide +kernel) twoUploads
    (by decide +kernel)).1

end PipecatVoice.WakeRotation
