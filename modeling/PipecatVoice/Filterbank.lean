import Mathlib.Algebra.BigOperators.Intervals
import Mathlib.Data.BitVec
import PipecatVoice.Spectrum

/-!
# The filterbank

Each channel adds up the weighted energy of its frequencies, and what its weights
leave goes to the next channel. The weights of the channels lie one behind the other
in blocks that are aligned and padded with zeros; a channel without frequencies is
sent to a block of zeros that is put before all others when it is first needed.

* `FilterbankState`, `filterbankAccumulateChannels`, `filterbankSqrt` — the sums;
* `filterbankPopulateState` — the layout of the blocks, from the frequencies at
  which the channels end;
* `Packed` — the blocks do not overlap;
* `accumulate_populate` — the sums over the blocks are those over the channels.

The arrays of indices are `int16_t` in the source and numbers here. They hold the
same as long as the frequencies and the weights are fewer than 2¹⁵ (`InInt16`).
-/

namespace PipecatVoice.Frontend

/-! ## The sums -/

/-- One channel's entries of `channel_frequency_starts`, `channel_weight_starts` and
`channel_widths`, below 2¹⁵. -/
structure Channel where
  /-- the first frequency of its block -/
  frequencyStart : ℕ
  /-- where the weights of the block lie -/
  weightStart : ℕ
  /-- how long the block is -/
  width : ℕ

/-- `FilterbankState` -/
structure FilterbankState where
  /-- the first frequency that is used -/
  startIndex : ℕ
  /-- the frequency after the last -/
  endIndex : ℕ
  /-- `num_channels` and one more -/
  channels : List Channel
  /-- what of a frequency goes to its channel -/
  weights : ℕ → Int16
  /-- what of it goes to the next one -/
  unweights : ℕ → Int16

/-- `mag_squared` -/
def magSquared (x : Int16 × Int16) : BitVec 32 :=
  x.1.toBitVec.signExtend 32 * x.1.toBitVec.signExtend 32 +
    x.2.toBitVec.signExtend 32 * x.2.toBitVec.signExtend 32

/-- `FilterbankConvertFftComplexToEnergy`, in the place of the transform: what it
does not convert stays two halves of a word. -/
def energyAt (fb : FilterbankState) (fftOutput : ℕ → Int16 × Int16) (i : ℕ) : BitVec 32 :=
  if fb.startIndex ≤ i ∧ i < fb.endIndex then magSquared (fftOutput i)
  else (fftOutput i).2.toBitVec ++ (fftOutput i).1.toBitVec

/-- A weight times a magnitude, in 64 bits. -/
def product (weight : Int16) (magnitude : BitVec 32) : BitVec 64 :=
  weight.toBitVec.signExtend 64 * magnitude.signExtend 64

/-- The inner loop, over the block of one channel. -/
def accumulated (weights : ℕ → Int16) (energy : ℕ → BitVec 32) (c : Channel)
    (accumulator : BitVec 64) : BitVec 64 :=
  (List.range c.width).foldl (fun acc j =>
    acc + product (weights (c.weightStart + j)) (energy (c.frequencyStart + j))) accumulator

/-- The outer loop: what is not weighted is carried on to the next channel. -/
def accumulateFrom (fb : FilterbankState) (energy : ℕ → BitVec 32) :
    BitVec 64 → List Channel → List (BitVec 64)
  | _, [] => []
  | acc, c :: cs => accumulated fb.weights energy c acc ::
      accumulateFrom fb energy (accumulated fb.unweights energy c 0) cs

/-- `FilterbankAccumulateChannels` -/
def filterbankAccumulateChannels (fb : FilterbankState) (energy : ℕ → BitVec 32) :
    List (BitVec 64) := accumulateFrom fb energy 0 fb.channels

/-- `FilterbankSqrt` -/
def filterbankSqrt (work : List (BitVec 64)) (scaleDownShift : ℕ) : List (BitVec 32) :=
  work.tail.map fun v => sqrt64 v >>> scaleDownShift

/-! ## Its layout -/

/-- A channel, and the frequencies that belong to it, below 2¹⁵ as well. -/
structure Band extends Channel where
  /-- `actual_channel_starts` -/
  actualStart : ℕ
  /-- `actual_channel_widths` -/
  actualWidth : ℕ

/-- The variables of the first pass of `FilterbankPopulateState`. -/
structure Layout where
  /-- `chan_freq_index_start` -/
  freqIndexStart : ℕ
  /-- `weight_index_start` -/
  weightIndexStart : ℕ
  /-- `needs_zeros` -/
  needsZeros : Bool
  /-- the channels so far -/
  bands : List Band

/-- `kFilterbankChannelBlockSize` -/
def blockSize : ℕ := 4

/-- Weights a few places further on. -/
def Band.shift (n : ℕ) (b : Band) : Band := { b with weightStart := b.weightStart + n }

/-- One turn of the first pass; `above` is the first frequency above the centre of
the channel. A block begins at an even frequency. -/
def addChannel (l : Layout) (above : ℕ) : Layout :=
  let freqIndex := max l.freqIndexStart above
  let width := freqIndex - l.freqIndexStart
  if width = 0 then
    -- no frequencies: the channel is sent to a block of zeros before all others
    let shift := if l.needsZeros then 0 else blockSize
    { freqIndexStart := freqIndex
      weightIndexStart := l.weightIndexStart + shift
      needsZeros := true
      bands := l.bands.map (Band.shift shift) ++ [⟨⟨0, 0, blockSize⟩, l.freqIndexStart, width⟩] }
  else
    let alignedStart := l.freqIndexStart / 2 * 2
    let alignedWidth := l.freqIndexStart - alignedStart + width
    let paddedWidth := ((alignedWidth - 1) / blockSize + 1) * blockSize
    { freqIndexStart := freqIndex
      weightIndexStart := l.weightIndexStart + paddedWidth
      needsZeros := l.needsZeros
      bands := l.bands ++
        [⟨⟨alignedStart, l.weightIndexStart, paddedWidth⟩, l.freqIndexStart, width⟩] }

/-- The weights of one channel are written into its block. -/
def writeBand (quantized : ℕ → Int16) (weights : ℕ → Int16) (b : Band) : ℕ → Int16 :=
  (List.range b.actualWidth).foldl (fun weights j =>
    Function.update weights (b.weightStart + (b.actualStart - b.frequencyStart) + j)
      (quantized (b.actualStart + j))) weights

/-- The second pass, from zeros on; `quantized` has a weight for each channel and
frequency. -/
def writeBands (quantized : ℕ → ℕ → Int16) (bands : List Band) : ℕ → Int16 :=
  bands.zipIdx.foldl (fun weights b => writeBand (quantized b.2) weights b.1) fun _ => 0

/-- `FilterbankPopulateState`; it fails if the spectrum is too short. -/
def filterbankPopulateState (spectrumSize startIndex : ℕ) (above : List ℕ)
    (weight unweight : ℕ → ℕ → Int16) : Option FilterbankState :=
  let bands := (above.foldl addChannel ⟨startIndex, 0, false, []⟩).bands
  let endIndex := bands.foldl (fun e b => max e (b.actualStart + b.actualWidth)) 0
  if spectrumSize ≤ endIndex then none
  else some
    { startIndex := startIndex
      endIndex := endIndex
      channels := bands.map Band.toChannel
      weights := writeBands weight bands
      unweights := writeBands unweight bands }

/-! ## The blocks do not overlap -/

/-- Writing places that follow each other. -/
theorem foldl_update_range (base : ℕ) (value weights : ℕ → Int16) (i : ℕ) : ∀ n,
    (List.range n).foldl (fun weights j => Function.update weights (base + j) (value j)) weights i =
      if base ≤ i ∧ i < base + n then value (i - base) else weights i := by
  intro n
  induction n with
  | zero => rw [if_neg (by omega), List.range_zero, List.foldl_nil]
  | succ n ih =>
    rw [List.range_succ, List.foldl_append, List.foldl_cons, List.foldl_nil]
    by_cases hlast : i = base + n
    · rw [hlast, Function.update_self, if_pos (by omega), Nat.add_sub_cancel_left]
    · rw [Function.update_of_ne hlast, ih]
      exact if_congr (by omega) rfl rfl

/-- Where the weights of a band begin. -/
def Band.origin (b : Band) : ℕ := b.weightStart + (b.actualStart - b.frequencyStart)

/-- The place holds a weight of the band. -/
def Band.covers (b : Band) (i : ℕ) : Prop := b.origin ≤ i ∧ i < b.origin + b.actualWidth

theorem writeBand_apply (quantized weights : ℕ → Int16) (b : Band) (i : ℕ)
    [Decidable (b.covers i)] :
    writeBand quantized weights b i =
      if b.covers i then quantized (b.actualStart + (i - b.origin)) else weights i := by
  have hfold := foldl_update_range b.origin (fun j => quantized (b.actualStart + j)) weights i
    b.actualWidth
  exact hfold.trans (if_congr Iff.rfl rfl rfl)

/-- Bands that do not cover a place leave it alone. -/
theorem foldl_writeBand_of_not_covers (quantized : ℕ → ℕ → Int16) {i : ℕ} :
    ∀ (bands : List (Band × ℕ)) (weights : ℕ → Int16), (∀ b ∈ bands, ¬ b.1.covers i) →
      bands.foldl (fun weights b => writeBand (quantized b.2) weights b.1) weights i =
        weights i := by
  classical
  intro bands
  induction bands with
  | nil => exact fun _ _ => rfl
  | cons b bands ih =>
    intro weights h
    rw [List.foldl_cons, ih _ fun c hc => h c (List.mem_cons_of_mem b hc), writeBand_apply,
      if_neg (h b List.mem_cons_self)]

/-- The layout so far: the blocks of the channels that have frequencies follow each
other, behind the zeros of those that have none. -/
structure Packed (l : Layout) : Prop where
  /-- a channel without frequencies has the zeros before all others -/
  zeros : ∀ b ∈ l.bands, b.actualWidth = 0 →
    l.needsZeros ∧ b.weightStart = 0 ∧ b.width = blockSize
  /-- the others begin behind these zeros -/
  base : ∀ b ∈ l.bands, 0 < b.actualWidth → l.needsZeros → blockSize ≤ b.weightStart
  /-- their frequencies fit into their block -/
  fits : ∀ b ∈ l.bands, 0 < b.actualWidth → b.frequencyStart ≤ b.actualStart ∧
    b.actualStart + b.actualWidth ≤ b.frequencyStart + b.width
  /-- their block has been given out -/
  within : ∀ b ∈ l.bands, 0 < b.actualWidth → b.weightStart + b.width ≤ l.weightIndexStart
  /-- and to no other -/
  apart : l.bands.Pairwise fun b b' => 0 < b.actualWidth → 0 < b'.actualWidth →
    b.weightStart + b.width ≤ b'.weightStart
  /-- the zeros have been given out -/
  given : l.needsZeros → blockSize ≤ l.weightIndexStart

theorem packed_start (startIndex : ℕ) : Packed ⟨startIndex, 0, false, []⟩ where
  zeros := fun _ hb => absurd hb List.not_mem_nil
  base := fun _ hb => absurd hb List.not_mem_nil
  fits := fun _ hb => absurd hb List.not_mem_nil
  within := fun _ hb => absurd hb List.not_mem_nil
  apart := .nil
  given := nofun

/-- A band without frequencies: the blocks make room for the zeros. -/
theorem Packed.addZeros {l : Layout} (h : Packed l) (freqIndex start : ℕ) :
    Packed { freqIndexStart := freqIndex
             weightIndexStart := l.weightIndexStart + if l.needsZeros then 0 else blockSize
             needsZeros := true
             bands := l.bands.map (Band.shift (if l.needsZeros then 0 else blockSize)) ++
               [⟨⟨0, 0, blockSize⟩, start, 0⟩] } where
  zeros := by
    intro b hb hzero
    obtain hb | hb := List.mem_append.mp hb
    · obtain ⟨c, hc, rfl⟩ := List.mem_map.mp hb
      obtain ⟨hneeds, hstart, hwidth⟩ := h.zeros c hc hzero
      refine ⟨rfl, ?_, hwidth⟩
      rw [hneeds]
      exact hstart
    · rw [List.mem_singleton.mp hb]
      exact ⟨rfl, rfl, rfl⟩
  base := by
    intro b hb hpos _
    obtain hb | hb := List.mem_append.mp hb
    · obtain ⟨c, hc, rfl⟩ := List.mem_map.mp hb
      cases hneeds : l.needsZeros with
      | true => exact h.base c hc hpos hneeds
      | false => exact Nat.le_add_left _ _
    · rw [List.mem_singleton.mp hb] at hpos
      exact absurd hpos (Nat.lt_irrefl 0)
  fits := by
    intro b hb hpos
    obtain hb | hb := List.mem_append.mp hb
    · obtain ⟨c, hc, rfl⟩ := List.mem_map.mp hb
      exact h.fits c hc hpos
    · rw [List.mem_singleton.mp hb] at hpos
      exact absurd hpos (Nat.lt_irrefl 0)
  within := by
    intro b hb hpos
    obtain hb | hb := List.mem_append.mp hb
    · obtain ⟨c, hc, rfl⟩ := List.mem_map.mp hb
      have hwithin := h.within c hc hpos
      simp only [Band.shift]
      omega
    · rw [List.mem_singleton.mp hb] at hpos
      exact absurd hpos (Nat.lt_irrefl 0)
  apart := by
    refine List.pairwise_append.mpr ⟨?_, List.pairwise_singleton _ _, ?_⟩
    · refine List.pairwise_map.mpr (h.apart.imp fun {b b'} hbefore hpos hpos' => ?_)
      have hbefore := hbefore hpos hpos'
      simp only [Band.shift]
      omega
    · intro b _ b' hb' _ hpos
      rw [List.mem_singleton.mp hb'] at hpos
      exact absurd hpos (Nat.lt_irrefl 0)
  given := fun _ => by
    cases hneeds : l.needsZeros with
    | true => exact h.given hneeds
    | false => exact Nat.le_add_left _ _

/-- A band with frequencies: its block is the next one. -/
theorem Packed.addBlock {l : Layout} (h : Packed l) {freqIndex : ℕ} {b : Band}
    (hstart : b.weightStart = l.weightIndexStart) (hpos : 0 < b.actualWidth)
    (hfits : b.frequencyStart ≤ b.actualStart ∧
      b.actualStart + b.actualWidth ≤ b.frequencyStart + b.width) :
    Packed { freqIndexStart := freqIndex
             weightIndexStart := l.weightIndexStart + b.width
             needsZeros := l.needsZeros
             bands := l.bands ++ [b] } where
  zeros := by
    intro c hc hzero
    obtain hc | hc := List.mem_append.mp hc
    · exact h.zeros c hc hzero
    · rw [List.mem_singleton.mp hc] at hzero
      omega
  base := by
    intro c hc hpos' hneeds
    obtain hc | hc := List.mem_append.mp hc
    · exact h.base c hc hpos' hneeds
    · rw [List.mem_singleton.mp hc, hstart]
      exact h.given hneeds
  fits := by
    intro c hc hpos'
    obtain hc | hc := List.mem_append.mp hc
    · exact h.fits c hc hpos'
    · rw [List.mem_singleton.mp hc]
      exact hfits
  within := by
    intro c hc hpos'
    obtain hc | hc := List.mem_append.mp hc
    · exact (h.within c hc hpos').trans (Nat.le_add_right _ _)
    · rw [List.mem_singleton.mp hc, hstart]
  apart := by
    refine List.pairwise_append.mpr ⟨h.apart, List.pairwise_singleton _ _, ?_⟩
    intro c hc c' hc' hpos' _
    rw [List.mem_singleton.mp hc', hstart]
    exact h.within c hc hpos'
  given := fun hneeds => (h.given hneeds).trans (Nat.le_add_right _ _)

/-- **Every turn of the first pass** keeps the blocks apart. -/
theorem Packed.addChannel {l : Layout} (h : Packed l) (above : ℕ) :
    Packed (Frontend.addChannel l above) := by
  rw [Frontend.addChannel]
  by_cases hzero : max l.freqIndexStart above - l.freqIndexStart = 0
  · rw [if_pos hzero, hzero]
    exact h.addZeros _ _
  · rw [if_neg hzero]
    refine h.addBlock (b := ⟨⟨l.freqIndexStart / 2 * 2, l.weightIndexStart, _⟩,
      l.freqIndexStart, _⟩) rfl (Nat.pos_of_ne_zero hzero) ⟨Nat.div_mul_le_self _ 2, ?_⟩
    simp only [blockSize]
    omega

theorem packed_foldl (above : List ℕ) {l : Layout} (h : Packed l) :
    Packed (above.foldl Frontend.addChannel l) := by
  induction above generalizing l with
  | nil => exact h
  | cons a above ih => exact ih (h.addChannel a)

/-- **What lies in a block**: the weights of its channel at the frequencies of that
channel, zeros elsewhere. -/
theorem Packed.writeBands_block {l : Layout} (h : Packed l) (quantized : ℕ → ℕ → Int16)
    {pre post : List Band} {b : Band} (hsplit : l.bands = pre ++ b :: post) {j : ℕ}
    (hj : j < b.width) :
    writeBands quantized l.bands (b.weightStart + j) =
      if b.actualStart ≤ b.frequencyStart + j ∧
          b.frequencyStart + j < b.actualStart + b.actualWidth
        then quantized pre.length (b.frequencyStart + j) else 0 := by
  classical
  have hmem : b ∈ l.bands := hsplit ▸ List.mem_append_right pre List.mem_cons_self
  have hpost : ∀ c ∈ post, ¬ c.covers (b.weightStart + j) := by
    rintro c hc ⟨hlow, hhigh⟩
    have hmemc : c ∈ l.bands := hsplit ▸ List.mem_append_right pre (List.mem_cons_of_mem b hc)
    have hposc : 0 < c.actualWidth := by omega
    rcases Nat.eq_zero_or_pos b.actualWidth with hzero | hpos
    · obtain ⟨hneeds, hstart, hwidth⟩ := h.zeros b hmem hzero
      have hbase := h.base c hmemc hposc hneeds
      rw [Band.origin] at hlow
      omega
    · have hapart := h.apart
      rw [hsplit] at hapart
      have hafter := List.rel_of_pairwise_cons (List.pairwise_append.mp hapart).2.1 hc hpos hposc
      rw [Band.origin] at hlow
      omega
  have hpre : ∀ c ∈ pre, ¬ c.covers (b.weightStart + j) := by
    rintro c hc ⟨hlow, hhigh⟩
    have hmemc : c ∈ l.bands := hsplit ▸ List.mem_append_left _ hc
    have hposc : 0 < c.actualWidth := by omega
    have hfits := h.fits c hmemc hposc
    rcases Nat.eq_zero_or_pos b.actualWidth with hzero | hpos
    · obtain ⟨hneeds, hstart, hwidth⟩ := h.zeros b hmem hzero
      have hbase := h.base c hmemc hposc hneeds
      rw [Band.origin] at hlow
      omega
    · have hapart := h.apart
      rw [hsplit] at hapart
      have hbefore := (List.pairwise_append.mp hapart).2.2 c hc b List.mem_cons_self hposc hpos
      rw [Band.origin] at hhigh
      omega
  have hzip : l.bands.zipIdx = pre.zipIdx ++ (b, pre.length) :: post.zipIdx (pre.length + 1) := by
    rw [hsplit, List.zipIdx_append, List.zipIdx_cons, Nat.zero_add]
  have hquiet : ∀ (bands : List Band) (n : ℕ), (∀ c ∈ bands, ¬ c.covers (b.weightStart + j)) →
      ∀ c ∈ bands.zipIdx n, ¬ c.1.covers (b.weightStart + j) :=
    fun bands n hall c hc => hall c.1 (List.fst_mem_of_mem_zipIdx hc)
  rw [writeBands, hzip, List.foldl_append, List.foldl_cons,
    foldl_writeBand_of_not_covers quantized _ _ (hquiet post _ hpost), writeBand_apply]
  by_cases hcovers : b.covers (b.weightStart + j)
  · obtain ⟨hlow, hhigh⟩ := id hcovers
    have hfits := h.fits b hmem (by omega)
    rw [Band.origin] at hlow hhigh
    rw [if_pos hcovers, if_pos (by omega)]
    refine congrArg (quantized pre.length) ?_
    show b.actualStart + (b.weightStart + j - b.origin) = _
    rw [Band.origin]
    omega
  · have hout : ¬ (b.actualStart ≤ b.frequencyStart + j ∧
        b.frequencyStart + j < b.actualStart + b.actualWidth) := by
      rintro ⟨hlow, hhigh⟩
      have hposb : 0 < b.actualWidth := by omega
      have hfits := h.fits b hmem hposb
      refine hcovers ⟨?_, ?_⟩ <;> rw [Band.origin] <;> omega
    rw [if_neg hcovers, if_neg hout,
      foldl_writeBand_of_not_covers quantized _ _ (hquiet pre 0 hpre)]

/-! ## The sums over the blocks -/

theorem foldl_add_range {M : Type*} [AddCommMonoid M] (f : ℕ → M) (n : ℕ) (acc : M) :
    (List.range n).foldl (fun acc j => acc + f j) acc = acc + ∑ j ∈ Finset.range n, f j := by
  induction n with
  | zero => rw [List.range_zero, List.foldl_nil, Finset.sum_range_zero, add_zero]
  | succ n ih =>
    rw [List.range_succ, List.foldl_append, ih, List.foldl_cons, List.foldl_nil, add_assoc,
      ← Finset.sum_range_succ]

theorem product_zero (magnitude : BitVec 32) : product 0 magnitude = 0 := by
  rw [product]
  exact zero_mul _

/-- The frequencies of a band. -/
def Band.frequencies (b : Band) : Finset ℕ :=
  Finset.Ico b.actualStart (b.actualStart + b.actualWidth)

/-- **The sum over a block** is that over the frequencies of its channel. -/
theorem Packed.accumulated_eq {l : Layout} (h : Packed l) (quantized : ℕ → ℕ → Int16)
    (energy : ℕ → BitVec 32) {pre post : List Band} {b : Band}
    (hsplit : l.bands = pre ++ b :: post) (acc : BitVec 64) :
    accumulated (writeBands quantized l.bands) energy b.toChannel acc =
      acc + ∑ f ∈ b.frequencies, product (quantized pre.length f) (energy f) := by
  have hmem : b ∈ l.bands := hsplit ▸ List.mem_append_right pre List.mem_cons_self
  rw [accumulated, foldl_add_range]
  congr 1
  have hblock : ∀ j ∈ Finset.range b.width,
      product (writeBands quantized l.bands (b.weightStart + j)) (energy (b.frequencyStart + j)) =
        if b.frequencyStart + j ∈ b.frequencies
          then product (quantized pre.length (b.frequencyStart + j)) (energy (b.frequencyStart + j))
          else 0 := by
    intro j hj
    rw [h.writeBands_block quantized hsplit (Finset.mem_range.mp hj), Band.frequencies]
    simp only [Finset.mem_Ico]
    split
    · rfl
    · exact product_zero _
  rw [Finset.sum_congr rfl hblock]
  have hshift := Finset.sum_Ico_eq_sum_range (fun f => if f ∈ b.frequencies
    then product (quantized pre.length f) (energy f) else 0) b.frequencyStart
      (b.frequencyStart + b.width)
  rw [Nat.add_sub_cancel_left] at hshift
  rw [← hshift, ← Finset.sum_filter]
  refine Finset.sum_congr (Finset.ext fun f => ?_) fun _ _ => rfl
  rw [Finset.mem_filter, and_iff_right_iff_imp, Band.frequencies, Finset.mem_Ico, Finset.mem_Ico]
  intro hf
  have hfits := h.fits b hmem (by omega)
  omega

/-- The frequency at which the `k`-th channel begins. -/
def edge (startIndex : ℕ) (above : List ℕ) (k : ℕ) : ℕ := (above.take k).foldl max startIndex

theorem edge_succ (startIndex : ℕ) {above : List ℕ} {k : ℕ} (hk : k < above.length) :
    edge startIndex above (k + 1) = max (edge startIndex above k) above[k] := by
  rw [edge, List.take_succ_eq_append_getElem hk, List.foldl_append]
  rfl

theorem edge_le_succ (startIndex : ℕ) (above : List ℕ) (k : ℕ) :
    edge startIndex above k ≤ edge startIndex above (k + 1) := by
  rcases Nat.lt_or_ge k above.length with hk | hk
  · rw [edge_succ startIndex hk]
    exact Nat.le_max_left _ _
  · rw [edge, edge, List.take_of_length_le hk, List.take_of_length_le (hk.trans (Nat.le_succ k))]

theorem start_le_edge (startIndex : ℕ) (above : List ℕ) (k : ℕ) :
    startIndex ≤ edge startIndex above k := by
  induction k with
  | zero => exact Nat.le_refl _
  | succ k ih => exact ih.trans (edge_le_succ startIndex above k)

/-- What a turn of the first pass does to the frequencies. -/
theorem addChannel_frequencies (l : Layout) (above : ℕ) :
    (addChannel l above).freqIndexStart = max l.freqIndexStart above ∧
      (addChannel l above).bands.map (fun b => (b.actualStart, b.actualWidth)) =
        l.bands.map (fun b => (b.actualStart, b.actualWidth)) ++
          [(l.freqIndexStart, max l.freqIndexStart above - l.freqIndexStart)] := by
  rw [addChannel]
  split
  · refine ⟨rfl, ?_⟩
    rw [List.map_append, List.map_map]
    rfl
  · refine ⟨rfl, ?_⟩
    rw [List.map_append]
    rfl

/-- **The bands of the layout** are what lies between the edges. -/
theorem frequencies_foldl (startIndex : ℕ) (above : List ℕ) :
    (above.foldl addChannel ⟨startIndex, 0, false, []⟩).freqIndexStart =
        edge startIndex above above.length ∧
      (above.foldl addChannel ⟨startIndex, 0, false, []⟩).bands.map
          (fun b => (b.actualStart, b.actualWidth)) =
        (List.range above.length).map fun k =>
          (edge startIndex above k, edge startIndex above (k + 1) - edge startIndex above k) := by
  induction above using List.reverseRecOn with
  | nil => exact ⟨rfl, rfl⟩
  | append_singleton above a ih =>
    obtain ⟨hindex, hbands⟩ := ih
    obtain ⟨hnext, hmap⟩ :=
      addChannel_frequencies (above.foldl addChannel ⟨startIndex, 0, false, []⟩) a
    have hsame : ∀ k ≤ above.length, edge startIndex (above ++ [a]) k = edge startIndex above k :=
      fun k hk => by rw [edge, List.take_append_of_le_length hk, edge]
    have hlast : edge startIndex (above ++ [a]) (above.length + 1) =
        max (edge startIndex above above.length) a := by
      rw [edge_succ startIndex (by rw [List.length_append]; exact Nat.lt_succ_self _),
        hsame _ (Nat.le_refl _), List.getElem_concat_length rfl]
    rw [List.foldl_append, List.foldl_cons, List.foldl_nil, List.length_append,
      List.length_singleton]
    refine ⟨?_, ?_⟩
    · rw [hnext, hindex, hlast]
    · rw [hmap, hbands, hindex, List.range_succ, List.map_append, List.map_singleton, hlast,
        hsame _ (Nat.le_refl _)]
      congr 1
      refine List.map_congr_left fun k hk => ?_
      have hk := List.mem_range.mp hk
      rw [hsame k hk.le, hsame (k + 1) hk]

/-- The energy of the frequencies between two edges, weighted. -/
def weighted (quantized : ℕ → ℕ → Int16) (energy : ℕ → BitVec 32) (startIndex : ℕ)
    (above : List ℕ) (k : ℕ) : BitVec 64 :=
  ∑ f ∈ Finset.Ico (edge startIndex above k) (edge startIndex above (k + 1)),
    product (quantized k f) (energy f)

/-- What a channel is to hold: the weighted energy of its own frequencies, and what
the weights of the channel before it left of the energy of that one's. -/
def channelEnergy (weight unweight : ℕ → ℕ → Int16) (energy : ℕ → BitVec 32) (startIndex : ℕ)
    (above : List ℕ) (k : ℕ) : BitVec 64 :=
  (if k = 0 then 0 else weighted unweight energy startIndex above (k - 1)) +
    weighted weight energy startIndex above k

section Populated

variable {startIndex : ℕ} {above : List ℕ} {bands : List Band}
  (hbands : bands = (above.foldl addChannel ⟨startIndex, 0, false, []⟩).bands)
include hbands

/-- The frequencies of a band are those between its edges. -/
theorem frequencies_eq {pre post : List Band} {b : Band} (hsplit : bands = pre ++ b :: post) :
    b.frequencies =
      Finset.Ico (edge startIndex above pre.length) (edge startIndex above (pre.length + 1)) := by
  have hat : bands[pre.length]? = some b := by
    rw [hsplit, List.getElem?_append_right (Nat.le_refl _), Nat.sub_self, List.getElem?_cons_zero]
  have hmap := congrArg (·[pre.length]?) (frequencies_foldl startIndex above).2
  simp only [← hbands, List.getElem?_map, hat, Option.map_some] at hmap
  obtain ⟨k, hk, heq⟩ := Option.map_eq_some_iff.mp hmap.symm
  obtain rfl : k = pre.length := by
    obtain ⟨hlt, hval⟩ := List.getElem?_eq_some_iff.mp hk
    rw [List.getElem_range] at hval
    exact hval.symm
  obtain ⟨hstart, hwidth⟩ := Prod.mk.inj heq
  rw [Band.frequencies, ← hstart, ← hwidth,
    Nat.add_sub_cancel' (edge_le_succ startIndex above pre.length)]

/-- The outer loop from some channel on. -/
theorem accumulateFrom_eq (energy : ℕ → BitVec 32) {weight unweight : ℕ → ℕ → Int16}
    {fb : FilterbankState} (hweights : fb.weights = writeBands weight bands)
    (hunweights : fb.unweights = writeBands unweight bands) :
    ∀ (rest pre : List Band) (acc : BitVec 64), bands = pre ++ rest →
      accumulateFrom fb energy acc (rest.map Band.toChannel) =
        (List.range' pre.length rest.length).map fun k =>
          (if k = pre.length then acc else weighted unweight energy startIndex above (k - 1)) +
            weighted weight energy startIndex above k := by
  have hpacked : Packed (above.foldl addChannel ⟨startIndex, 0, false, []⟩) :=
    packed_foldl above (packed_start startIndex)
  intro rest
  induction rest with
  | nil => exact fun _ _ _ => rfl
  | cons b rest ih =>
    intro pre acc hsplit
    have hsplit' := hbands.symm.trans hsplit
    have hfreq := frequencies_eq hbands hsplit
    have hnext := ih (pre ++ [b]) (accumulated fb.unweights energy b.toChannel 0)
      (by rw [hsplit, List.append_assoc, List.singleton_append])
    rw [List.length_append, List.length_singleton] at hnext
    rw [List.map_cons, accumulateFrom, hnext, List.length_cons, List.range'_succ, List.map_cons,
      if_pos rfl, hweights, hunweights, hbands, hpacked.accumulated_eq weight energy hsplit',
      hpacked.accumulated_eq unweight energy hsplit', hfreq]
    congr 1
    refine List.map_congr_left fun k hk => ?_
    have hlow := (List.mem_range'_1.mp hk).1
    rw [if_neg (by omega : k ≠ pre.length)]
    by_cases hfirst : k = pre.length + 1
    · subst hfirst
      rw [if_pos rfl, zero_add, Nat.add_sub_cancel]
      rfl
    · rw [if_neg hfirst]

end Populated

/-- The last frequency that is used is that of some band. -/
theorem le_foldl_max {α : Type*} (f : α → ℕ) {a : α} : ∀ {l : List α} (m : ℕ), a ∈ l →
    f a ≤ l.foldl (fun e b => max e (f b)) m := by
  have hkeep : ∀ (l : List α) (m : ℕ), m ≤ l.foldl (fun e b => max e (f b)) m := by
    intro l
    induction l with
    | nil => exact fun m => Nat.le_refl m
    | cons b l ih => exact fun m => (Nat.le_max_left m (f b)).trans (ih _)
  intro l
  induction l with
  | nil => exact fun _ h => absurd h List.not_mem_nil
  | cons b l ih =>
    intro m h
    obtain rfl | h := List.mem_cons.mp h
    · exact (Nat.le_max_right m (f a)).trans (hkeep l _)
    · exact ih _ h

theorem length_bands (startIndex : ℕ) (above : List ℕ) :
    (above.foldl addChannel ⟨startIndex, 0, false, []⟩).bands.length = above.length := by
  have hlength := congrArg List.length (frequencies_foldl startIndex above).2
  rwa [List.length_map, List.length_map, List.length_range] at hlength

/-- There is a channel for each end. -/
theorem length_channels {spectrumSize startIndex : ℕ} {above : List ℕ}
    {weight unweight : ℕ → ℕ → Int16} {fb : FilterbankState}
    (h : filterbankPopulateState spectrumSize startIndex above weight unweight = some fb) :
    fb.channels.length = above.length := by
  simp only [filterbankPopulateState] at h
  split at h
  · cases h
  · rw [← Option.some.inj h, List.length_map, length_bands]

/-- The last frequency of a channel is in use. -/
theorem edge_le_endIndex (startIndex : ℕ) {above : List ℕ} {k : ℕ} (hk : k < above.length) :
    edge startIndex above (k + 1) ≤
      (above.foldl addChannel ⟨startIndex, 0, false, []⟩).bands.foldl
        (fun e b => max e (b.actualStart + b.actualWidth)) 0 := by
  have hat : k < (above.foldl addChannel ⟨startIndex, 0, false, []⟩).bands.length :=
    (length_bands startIndex above).symm ▸ hk
  have hmap := congrArg (·[k]?) (frequencies_foldl startIndex above).2
  simp only [List.getElem?_map, List.getElem?_eq_getElem hat, List.getElem?_range hk,
    Option.map_some, Option.some_inj, Prod.mk.injEq] at hmap
  have hlast := le_foldl_max (fun b : Band => b.actualStart + b.actualWidth) 0
    (List.getElem_mem hat)
  have hedges := edge_le_succ startIndex above k
  simp only [hmap.1, hmap.2] at hlast
  omega

/-- Every frequency of a channel is converted. -/
theorem weighted_energyAt (quantized : ℕ → ℕ → Int16) {fb : FilterbankState} {above : List ℕ}
    (fftOutput : ℕ → Int16 × Int16) {k : ℕ} (hk : k < above.length)
    (hend : fb.endIndex = (above.foldl addChannel ⟨fb.startIndex, 0, false, []⟩).bands.foldl
      (fun e b => max e (b.actualStart + b.actualWidth)) 0) :
    weighted quantized (energyAt fb fftOutput) fb.startIndex above k =
      weighted quantized (fun f => magSquared (fftOutput f)) fb.startIndex above k := by
  refine Finset.sum_congr rfl fun f hf => ?_
  obtain ⟨hlow, hhigh⟩ := Finset.mem_Ico.mp hf
  have hstart := start_le_edge fb.startIndex above k
  have hlast := edge_le_endIndex fb.startIndex hk
  rw [energyAt, if_pos ⟨by omega, by omega⟩]

/-- A state that was laid out. -/
theorem accumulate_of_layout {fb : FilterbankState} {above : List ℕ} {bands : List Band}
    {weight unweight : ℕ → ℕ → Int16} (fftOutput : ℕ → Int16 × Int16)
    (hbands : bands = (above.foldl addChannel ⟨fb.startIndex, 0, false, []⟩).bands)
    (hchannels : fb.channels = bands.map Band.toChannel)
    (hweights : fb.weights = writeBands weight bands)
    (hunweights : fb.unweights = writeBands unweight bands)
    (hend : fb.endIndex = bands.foldl (fun e b => max e (b.actualStart + b.actualWidth)) 0) :
    filterbankAccumulateChannels fb (energyAt fb fftOutput) = (List.range above.length).map
      (channelEnergy weight unweight (fun f => magSquared (fftOutput f)) fb.startIndex above) := by
  have hsums := accumulateFrom_eq hbands (energyAt fb fftOutput) hweights hunweights bands [] 0 rfl
  have hlength : bands.length = above.length := hbands ▸ length_bands fb.startIndex above
  rw [List.length_nil, hlength, ← List.range_eq_range'] at hsums
  rw [filterbankAccumulateChannels, hchannels, hsums]
  refine List.map_congr_left fun k hk => ?_
  have hk := List.mem_range.mp hk
  rw [hbands] at hend
  rw [channelEnergy, weighted_energyAt weight fftOutput hk hend]
  by_cases hzero : k = 0
  · rw [if_pos hzero, if_pos hzero]
  · rw [if_neg hzero, if_neg hzero,
      weighted_energyAt unweight fftOutput ((Nat.sub_le k 1).trans_lt hk) hend]

/-! ## The width of the indices -/

/-- An `int16_t` holds what is stored for a channel. -/
structure Band.InInt16 (b : Band) : Prop where
  /-- in `channel_frequency_starts` -/
  frequencyStart : b.frequencyStart < 2 ^ 15
  /-- in `channel_weight_starts` -/
  weightStart : b.weightStart < 2 ^ 15
  /-- in `channel_widths` -/
  width : b.width < 2 ^ 15
  /-- in `actual_channel_starts` -/
  actualStart : b.actualStart < 2 ^ 15
  /-- in `actual_channel_widths` -/
  actualWidth : b.actualWidth < 2 ^ 15

/-- A block begins no later than its channel, which ends where the layout does or before. -/
structure Within (l : Layout) (b : Band) : Prop where
  /-- the block of zeros begins at the first frequency -/
  start : b.frequencyStart ≤ b.actualStart
  /-- the channel is in the layout -/
  stop : b.actualStart + b.actualWidth ≤ l.freqIndexStart

theorem within_addChannel {l : Layout} (h : ∀ b ∈ l.bands, Within l b) (above : ℕ) :
    ∀ b ∈ (addChannel l above).bands, Within (addChannel l above) b := by
  have hindex := (addChannel_frequencies l above).1
  have hmore := Nat.le_max_left l.freqIndexStart above
  intro b hb
  rw [addChannel] at hb
  split at hb
  · obtain hb | hb := List.mem_append.mp hb
    · -- the shift moves the weights only
      obtain ⟨c, hc, rfl⟩ := List.mem_map.mp hb
      exact ⟨(h c hc).start, hindex ▸ (h c hc).stop.trans hmore⟩
    · rw [List.mem_singleton.mp hb]
      refine ⟨Nat.zero_le _, ?_⟩
      rw [hindex]
      exact Nat.le_of_eq (Nat.add_sub_cancel' hmore)
  · obtain hb | hb := List.mem_append.mp hb
    · exact ⟨(h b hb).start, hindex ▸ (h b hb).stop.trans hmore⟩
    · rw [List.mem_singleton.mp hb]
      refine ⟨Nat.div_mul_le_self _ 2, ?_⟩
      rw [hindex]
      exact Nat.le_of_eq (Nat.add_sub_cancel' hmore)

theorem within_foldl (above : List ℕ) {l : Layout} (h : ∀ b ∈ l.bands, Within l b) :
    ∀ b ∈ (above.foldl addChannel l).bands, Within (above.foldl addChannel l) b := by
  induction above generalizing l with
  | nil => exact h
  | cons a above ih => exact ih (within_addChannel h a)

/-- **What is stored fits** if the frequencies and the weights are fewer than 2¹⁵. -/
theorem Packed.inInt16 {l : Layout} (h : Packed l) (hwithin : ∀ b ∈ l.bands, Within l b)
    (hfrequencies : l.freqIndexStart < 2 ^ 15) (hweights : l.weightIndexStart < 2 ^ 15) :
    ∀ b ∈ l.bands, b.InInt16 := by
  intro b hb
  obtain ⟨hstart, hstop⟩ := hwithin b hb
  have hblock : b.weightStart + b.width ≤ l.weightIndexStart := by
    rcases Nat.eq_zero_or_pos b.actualWidth with hzero | hpos
    · obtain ⟨hneeds, hweight, hwidth⟩ := h.zeros b hb hzero
      rw [hweight, hwidth, Nat.zero_add]
      exact h.given hneeds
    · exact h.within b hb hpos
  refine ⟨?_, ?_, ?_, ?_, ?_⟩ <;> omega

/-- **The filterbank over its blocks is the plain one**: wherever the weights were
laid out, each channel comes to hold the weighted energy of the frequencies between
its edges, and what the channel before it left of its own. The layout has fewer than
2¹⁵ frequencies and weights, so that the arrays hold its indices. -/
theorem accumulate_populate (spectrumSize startIndex : ℕ) (above : List ℕ)
    (weight unweight : ℕ → ℕ → Int16) (fftOutput : ℕ → Int16 × Int16)
    (hfrequencies : (above.foldl addChannel ⟨startIndex, 0, false, []⟩).freqIndexStart < 2 ^ 15)
    (hweights : (above.foldl addChannel ⟨startIndex, 0, false, []⟩).weightIndexStart < 2 ^ 15) :
    (∀ b ∈ (above.foldl addChannel ⟨startIndex, 0, false, []⟩).bands, b.InInt16) ∧
      (filterbankPopulateState spectrumSize startIndex above weight unweight).map
          (fun fb => filterbankAccumulateChannels fb (energyAt fb fftOutput)) =
        (filterbankPopulateState spectrumSize startIndex above weight unweight).map fun _ =>
          (List.range above.length).map
            (channelEnergy weight unweight (fun f => magSquared (fftOutput f)) startIndex
              above) := by
  refine ⟨?_, ?_⟩
  · exact (packed_foldl above (packed_start startIndex)).inInt16
      (within_foldl above fun _ hb => absurd hb List.not_mem_nil) hfrequencies hweights
  · rw [filterbankPopulateState]
    split
    · rfl
    · exact congrArg some (accumulate_of_layout fftOutput rfl rfl rfl rfl rfl)

/-- Three channels, the second without frequencies, on a spectrum of nine. -/
theorem accumulate_populate_three :
    (∀ b ∈ ([3, 3, 7].foldl addChannel ⟨1, 0, false, []⟩).bands, b.InInt16) ∧
      (filterbankPopulateState 9 1 [3, 3, 7] (fun _ _ => 3) fun _ _ => 1).map
          (fun fb => filterbankAccumulateChannels fb (energyAt fb fun _ => (2, 1))) =
        some [30, 10, 60] := by
  obtain ⟨hfits, hsums⟩ := accumulate_populate 9 1 [3, 3, 7] (fun _ _ => 3) (fun _ _ => 1)
    (fun _ => (2, 1)) (by decide) (by decide)
  exact ⟨hfits, hsums.trans (by decide +kernel)⟩

end PipecatVoice.Frontend
