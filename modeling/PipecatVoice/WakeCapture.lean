import PipecatVoice.Lib.History
import PipecatVoice.Lib.RawRing
import PipecatVoice.WakeUpload

/-!
# The snapshot of a wake fire

`captureTask` rolls the microphone's samples through a ring in memory from `malloc`
(`cap_push`), and a wake fire copies the ring into `wake_pcm_` with two `memcpy`
calls, as the ring may wrap. Both buffers hold `kWakeCaptureSamples` samples; both
were allocated. Whatever the chunks, the snapshot is the end of the stream
(`snapshot_eq_tail`): it is the buffer that `PipecatVoice.WakeUpload` starts from.
-/

namespace PipecatVoice

open WakeUpload (wakeCaptureSamples)

/-- `cap_push`: the samples of a chunk, one after the other. -/
def capPush? (r : RawRing Int16 wakeCaptureSamples) :
    List Int16 → Option (RawRing Int16 wakeCaptureSamples)
  | [] => some r
  | p :: ps => do capPush? (← r.push? p) ps

/-- Successive calls of `cap_push`. -/
def capPushes? (r : RawRing Int16 wakeCaptureSamples) :
    List (List Int16) → Option (RawRing Int16 wakeCaptureSamples)
  | [] => some r
  | chunk :: chunks => do capPushes? (← capPush? r chunk) chunks

/-- The snapshot of a wake fire: `wake_pcm_` and `wake_pcm_len_`. The ring is only
read. -/
def snapshot? (wakePcm : RawArray Int16 wakeCaptureSamples)
    (r : RawRing Int16 wakeCaptureSamples) :
    Option (RawArray Int16 wakeCaptureSamples × ℕ) := do
  let n := r.count
  let first := min n (wakeCaptureSamples - r.head)
  let wakePcm ← wakePcm.memcpy? 0 r.cells r.head first
  let wakePcm ← (if n > first then wakePcm.memcpy? first r.cells 0 (n - first) else some wakePcm)
  some (wakePcm, n)

theorem wakeCaptureSamples_pos : 0 < wakeCaptureSamples := by
  decide

/-! ## The ring -/

/-- A chunk goes to the end of the history. -/
theorem capPush?_eq (chunk : List Int16) :
    ∀ {r : RawRing Int16 wakeCaptureSamples} {past : List Int16},
      r.Queues (past.rtake wakeCaptureSamples) →
        ∃ r', capPush? r chunk = some r' ∧
          r'.Queues ((past ++ chunk).rtake wakeCaptureSamples) := by
  induction chunk with
  | nil => exact fun h => ⟨_, rfl, by rwa [List.append_nil]⟩
  | cons p ps ih =>
    intro r past h
    obtain ⟨r₁, hpush, h₁⟩ := h.push p
    rw [← History.rtake_concat wakeCaptureSamples_pos] at h₁
    obtain ⟨r', hrest, h'⟩ := ih h₁
    refine ⟨r', ?_, ?_⟩
    · rw [capPush?, hpush]
      exact hrest
    · rwa [List.append_assoc] at h'

theorem capPushes?_eq (chunks : List (List Int16)) :
    ∀ {r : RawRing Int16 wakeCaptureSamples} {past : List Int16},
      r.Queues (past.rtake wakeCaptureSamples) →
        ∃ r', capPushes? r chunks = some r' ∧
          r'.Queues ((past ++ chunks.flatten).rtake wakeCaptureSamples) := by
  induction chunks with
  | nil => exact fun h => ⟨_, rfl, by rwa [List.flatten_nil, List.append_nil]⟩
  | cons chunk chunks ih =>
    intro r past h
    obtain ⟨r₁, hchunk, h₁⟩ := capPush?_eq chunk h
    obtain ⟨r', hrest, h'⟩ := ih h₁
    refine ⟨r', ?_, ?_⟩
    · rw [capPushes?, hchunk]
      exact hrest
    · rwa [List.flatten_cons, ← List.append_assoc]

/-! ## The snapshot -/

/-- **The two copies put the queue together**, from any position of the ring. -/
theorem snapshot?_eq (wakePcm : RawArray Int16 wakeCaptureSamples)
    {r : RawRing Int16 wakeCaptureSamples} {l : List Int16} (h : r.Queues l) :
    ∃ pcm, snapshot? wakePcm r = some (pcm, l.length) ∧ pcm.readAll? 0 l.length = some l := by
  have hcount := h.count_eq
  obtain ⟨b, hb, rfl⟩ := h
  obtain ⟨hfront, hback⟩ := hb.runs
  have hle := hb.count_le
  have hfits : 0 + b.toList.length ≤ wakeCaptureSamples := by
    rw [Nat.zero_add, ← hcount]
    exact hle
  have hsplit := List.take_append_drop (min r.count (wakeCaptureSamples - r.head)) b.toList
  have hlen : (b.toList.take (min r.count (wakeCaptureSamples - r.head))).length =
      min r.count (wakeCaptureSamples - r.head) := by
    rw [List.length_take, ← hcount]
    omega
  obtain ⟨pcm, hpcm⟩ := RawArray.writeAll?_isSome b.toList wakePcm 0 hfits
  obtain ⟨pcm₁, hfirst⟩ := RawArray.writeAll?_isSome
    (b.toList.take (min r.count (wakeCaptureSamples - r.head))) wakePcm 0 (by omega)
  have hsecond := RawArray.writeAll?_append _
    (b.toList.drop (min r.count (wakeCaptureSamples - r.head))) hfirst
  rw [hsplit, hpcm, hlen, Nat.zero_add] at hsecond
  refine ⟨pcm, ?_, RawArray.readAll?_writeAll? b.toList hpcm⟩
  rw [snapshot?, RawArray.memcpy?, hfront]
  simp only [Option.bind_eq_bind, Option.bind_some, hfirst]
  split
  · rw [RawArray.memcpy?, hback, ← hcount]
    simp only [Option.bind_eq_bind, Option.bind_some, ← hsecond]
  · -- the ring did not wrap: nothing is left for the second copy
    rename_i hwhole
    rw [List.drop_eq_nil_of_le (by rw [← hcount]; omega), RawArray.writeAll?] at hsecond
    rw [← hsecond, Option.bind_some, hcount]

/-- **The snapshot is the tail of the stream**: after any chunks, both copies read
only samples that were pushed and stay inside of both buffers; they leave the last
`min k kWakeCaptureSamples` of the `k` samples in `wake_pcm_`, in order. -/
theorem snapshot_eq_tail (chunks : List (List Int16))
    (wakePcm : RawArray Int16 wakeCaptureSamples) :
    ∃ r pcm, capPushes? ⟨RawArray.fresh, 0, 0⟩ chunks = some r ∧
      snapshot? wakePcm r = some (pcm, min chunks.flatten.length wakeCaptureSamples) ∧
      pcm.readAll? 0 (min chunks.flatten.length wakeCaptureSamples) =
        some (chunks.flatten.rtake (min chunks.flatten.length wakeCaptureSamples)) := by
  have hfresh : (⟨RawArray.fresh, 0, 0⟩ : RawRing Int16 wakeCaptureSamples).Queues
      (([] : List Int16).rtake wakeCaptureSamples) := by
    rw [List.rtake_nil]
    exact RawRing.Queues.fresh wakeCaptureSamples_pos RawArray.fresh
  obtain ⟨r, hpush, hr⟩ := capPushes?_eq chunks hfresh
  rw [List.nil_append] at hr
  obtain ⟨pcm, hsnap, hread⟩ := snapshot?_eq wakePcm hr
  have hlen : (chunks.flatten.rtake wakeCaptureSamples).length =
      min chunks.flatten.length wakeCaptureSamples := by
    rw [List.rtake, List.length_drop]
    omega
  have htail : chunks.flatten.rtake (min chunks.flatten.length wakeCaptureSamples) =
      chunks.flatten.rtake wakeCaptureSamples := by
    have hdrop : chunks.flatten.length - min chunks.flatten.length wakeCaptureSamples =
        chunks.flatten.length - wakeCaptureSamples := by omega
    rw [List.rtake, List.rtake, hdrop]
  rw [hlen] at hsnap hread
  rw [htail]
  exact ⟨r, pcm, hpush, hsnap, hread⟩

end PipecatVoice
