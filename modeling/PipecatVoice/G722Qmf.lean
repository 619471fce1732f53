import PipecatVoice.G722Ranges
import PipecatVoice.Lib.Fir
import PipecatVoice.Lib.History

/-!
# The QMF of the codec as a plain FIR filter

The codec keeps the last twelve samples of each phase in a ring that it writes at
`ptr` before it advances `ptr`, and reads it in two segments. What it computes
from them is the direct form over the stream, wherever the ring stands and
however the stream is split into calls: on the way in the two sub-band samples
of each pair, exactly (no cast wraps), on the way out the two samples of each
octet.
-/

namespace PipecatVoice

/-! ## Delay lines -/

/-- The samples of a delay line, in cell order. -/
def cells (x : Vector Int16 12) : List ℤ := x.toList.map Int16.toInt

@[simp] theorem length_cells (x : Vector Int16 12) : (cells x).length = 12 := by
  rw [cells, List.length_map, Vector.length_toList]

/-- `circ_dot12` is the circular filter of twelve taps. -/
theorem circDot12_eq_circular (x : Vector Int16 12) (coeffs : List ℤ) (pos : ℕ) :
    circDot12 x coeffs pos = Fir.circular coeffs (cells x) pos := by
  have htap : ∀ i, tap x i = (cells x).getD i 0 := by
    intro i
    rw [tap, cells, ← Int16.toInt_zero, List.getD_map]
  have hentry : ∀ i, entry coeffs i = coeffs.getD i 0 := fun _ => rfl
  simp only [circDot12, Fir.circular, htap, hentry, length_cells]

/-- A delay line after one write. -/
theorem holds_write {x : Vector Int16 12} {ptr : ℕ} {past : List ℤ}
    (h : Fir.Holds (cells x) ptr past) (v : Int16) :
    Fir.Holds (cells (x.setIfInBounds ptr v)) (nextPtr ptr) (past ++ [v.toInt]) := by
  have hpush := h.push v.toInt
  have hset : (cells x).set ptr v.toInt = cells (x.setIfInBounds ptr v) := by
    rw [cells, cells, ← List.map_set, Vector.toList_setIfInBounds]
  rw [hset, length_cells] at hpush
  exact hpush

/-- The filter over a delay line, as the direct form. -/
theorem circDot12_eq_direct {x : Vector Int16 12} {ptr : ℕ} {past coeffs : List ℤ}
    (h : Fir.Holds (cells x) ptr past) (hlen : coeffs.length = 12) :
    circDot12 x coeffs ptr = Fir.direct coeffs past := by
  rw [circDot12_eq_circular, h.circular_eq (by rw [hlen, length_cells])]

/-! ## Transmit -/

/-- The sub-band samples `xlow` and `xhigh` of a pair, as `g722_encode` computes
them. -/
def subbands (s : G722Codec) (amp₀ amp₁ : Int16) : Int16 × Int16 :=
  let x := s.x.setIfInBounds s.ptr amp₀
  let y := s.y.setIfInBounds s.ptr amp₁
  let ptr := nextPtr s.ptr
  let sumodd := circDot12 x qmfCoeffsFwd ptr
  let sumeven := circDot12 y qmfCoeffsRev ptr
  (Int16.ofInt ((sumeven + sumodd).shiftRight 14), Int16.ofInt ((sumeven - sumodd).shiftRight 14))

/-- They are what the two bands of the encoder get. -/
theorem encodePair_subbands (s : G722Codec) (amp₀ amp₁ : Int16) :
    (encodePair s amp₀ amp₁).1.low = (encodeLow s.low (subbands s amp₀ amp₁).1).1 ∧
      (encodePair s amp₀ amp₁).1.high = (encodeHigh s.high (subbands s amp₀ amp₁).2).1 ∧
      (encodePair s amp₀ amp₁).2 =
        UInt8.ofNat ((encodeHigh s.high (subbands s amp₀ amp₁).2).2 <<< 6 |||
          (encodeLow s.low (subbands s amp₀ amp₁).1).2) :=
  ⟨rfl, rfl, rfl⟩

/-- The sub-band samples of one call. -/
def encodeSubbands (s : G722Codec) : List Int16 → List (Int16 × Int16)
  | amp₀ :: amp₁ :: amp =>
    subbands s amp₀ amp₁ :: encodeSubbands (encodePair s amp₀ amp₁).1 amp
  | [_] => []
  | [] => []

/-- The sub-band samples of successive calls. -/
def subbandCalls (s : G722Codec) : List (List Int16) → List (Int16 × Int16)
  | [] => []
  | amp :: calls => encodeSubbands s amp ++ subbandCalls (g722Encode s amp).1 calls

/-- The pairs of a stream. -/
def samplePairs : List Int16 → List (Int16 × Int16)
  | amp₀ :: amp₁ :: amp => (amp₀, amp₁) :: samplePairs amp
  | [_] => []
  | [] => []

/-- The transmit QMF in direct form, after the pairs `past`. -/
def transmitQmf (past : List (Int16 × Int16)) : ℤ × ℤ :=
  let sumodd := Fir.direct qmfCoeffsFwd (past.map (·.1.toInt))
  let sumeven := Fir.direct qmfCoeffsRev (past.map (·.2.toInt))
  ((sumeven + sumodd).shiftRight 14, (sumeven - sumodd).shiftRight 14)

/-- The encoder's delay lines hold the pairs. -/
structure PairsHeld (s : G722Codec) (past : List (Int16 × Int16)) : Prop where
  inRange : CodecInRange s
  x : Fir.Holds (cells s.x) s.ptr (past.map (·.1.toInt))
  y : Fir.Holds (cells s.y) s.ptr (past.map (·.2.toInt))

theorem holds_init : Fir.Holds (cells (Vector.replicate 12 0)) 0 [] :=
  Fir.Holds.zero (Nat.zero_lt_succ 11)

theorem PairsHeld.init : PairsHeld g722Init [] := ⟨codecInRange_init, holds_init, holds_init⟩

/-- A value that fits after the shift of the QMF is not changed by the cast. -/
theorem toInt_shiftRight {w : ℤ} (h : -424804352 ≤ w ∧ w ≤ 424804352) :
    (Int16.ofInt (w.shiftRight 14)).toInt = w.shiftRight 14 := by
  rw [shiftRight_eq_div]
  exact Int16.toInt_ofInt_of_le (by omega) (by omega)

/-- **One pair**: its sub-band samples are the direct form, and it is held. -/
theorem PairsHeld.step {s : G722Codec} {past : List (Int16 × Int16)} (h : PairsHeld s past)
    (amp₀ amp₁ : Int16) :
    ((subbands s amp₀ amp₁).1.toInt, (subbands s amp₀ amp₁).2.toInt) =
        transmitQmf (past ++ [(amp₀, amp₁)]) ∧
      PairsHeld (encodePair s amp₀ amp₁).1 (past ++ [(amp₀, amp₁)]) := by
  have hptr : nextPtr s.ptr < 12 := Nat.lt_succ_of_le (nextPtr_le s.ptr)
  have hx := holds_write h.x amp₀
  have hy := holds_write h.y amp₁
  obtain ⟨-, hodd⟩ := circDot12?_eq (s.x.setIfInBounds s.ptr amp₀) coeffsFit_fwd hptr
  obtain ⟨-, heven⟩ := circDot12?_eq (s.y.setIfInBounds s.ptr amp₁) coeffsFit_rev hptr
  have hlow := toInt_shiftRight (w := circDot12 (s.y.setIfInBounds s.ptr amp₁) qmfCoeffsRev
    (nextPtr s.ptr) + circDot12 (s.x.setIfInBounds s.ptr amp₀) qmfCoeffsFwd (nextPtr s.ptr))
    (by omega)
  have hhigh := toInt_shiftRight (w := circDot12 (s.y.setIfInBounds s.ptr amp₁) qmfCoeffsRev
    (nextPtr s.ptr) - circDot12 (s.x.setIfInBounds s.ptr amp₀) qmfCoeffsFwd (nextPtr s.ptr))
    (by omega)
  have hmapX : (past ++ [(amp₀, amp₁)]).map (·.1.toInt) = past.map (·.1.toInt) ++ [amp₀.toInt] :=
    List.map_append
  have hmapY : (past ++ [(amp₀, amp₁)]).map (·.2.toInt) = past.map (·.2.toInt) ++ [amp₁.toInt] :=
    List.map_append
  refine ⟨?_, (encodePair?_eq h.inRange amp₀ amp₁).2, ?_, ?_⟩
  · rw [transmitQmf, hmapX, hmapY, ← circDot12_eq_direct hx rfl, ← circDot12_eq_direct hy rfl]
    exact Prod.ext hlow hhigh
  · rw [hmapX]
    exact hx
  · rw [hmapY]
    exact hy

/-- One call of any length. -/
theorem PairsHeld.call (s : G722Codec) (amp : List Int16) :
    ∀ {past : List (Int16 × Int16)}, PairsHeld s past →
      (encodeSubbands s amp).map (fun b => (b.1.toInt, b.2.toInt)) =
          History.answers transmitQmf past (samplePairs amp) ∧
        PairsHeld (g722Encode s amp).1 (past ++ samplePairs amp) := by
  induction s, amp using encodeSubbands.induct with
  | case1 s amp₀ amp₁ amp ih =>
    intro past h
    obtain ⟨hpair, hheld⟩ := h.step amp₀ amp₁
    obtain ⟨hrest, hlast⟩ := ih hheld
    refine ⟨?_, ?_⟩
    · rw [encodeSubbands, List.map_cons, hrest, hpair, samplePairs, History.answers]
    · rw [samplePairs, List.append_cons]
      exact hlast
  | case2 s amp₀ =>
    intro past h
    exact ⟨rfl, by rw [samplePairs, List.append_nil]; exact h⟩
  | case3 s =>
    intro past h
    exact ⟨rfl, by rw [samplePairs, List.append_nil]; exact h⟩

/-- Successive calls: each drops a last sample without a partner. -/
theorem PairsHeld.calls (calls : List (List Int16)) :
    ∀ {s : G722Codec} {past : List (Int16 × Int16)}, PairsHeld s past →
      (subbandCalls s calls).map (fun b => (b.1.toInt, b.2.toInt)) =
        History.answers transmitQmf past (calls.map samplePairs).flatten := by
  induction calls with
  | nil => exact fun _ => rfl
  | cons amp calls ih =>
    intro s past h
    obtain ⟨hcall, hlast⟩ := h.call s amp
    rw [subbandCalls, List.map_append, hcall, ih hlast, List.map_cons, List.flatten_cons,
      History.answers_append]

/-- A call of even length ends where a pair ends. -/
theorem samplePairs_append : ∀ amp rest : List Int16, amp.length % 2 = 0 →
    samplePairs (amp ++ rest) = samplePairs amp ++ samplePairs rest
  | amp₀ :: amp₁ :: amp, rest, h => by
    rw [List.length_cons, List.length_cons] at h
    rw [List.cons_append, List.cons_append, samplePairs, samplePairs,
      samplePairs_append amp rest (by omega), List.cons_append]
  | [amp₀], _, h => absurd (show 1 % 2 = 0 from h) Nat.one_ne_zero
  | [], _, _ => rfl

theorem samplePairs_flatten {calls : List (List Int16)}
    (heven : ∀ amp ∈ calls, amp.length % 2 = 0) :
    (calls.map samplePairs).flatten = samplePairs calls.flatten := by
  induction calls with
  | nil => rfl
  | cons amp calls ih =>
    rw [List.map_cons, List.flatten_cons, List.flatten_cons,
      samplePairs_append amp _ (heven amp List.mem_cons_self),
      ih fun amp h => heven amp (List.mem_cons_of_mem _ h)]

theorem length_samplePairs : ∀ amp : List Int16, (samplePairs amp).length = amp.length / 2
  | amp₀ :: amp₁ :: amp => by
    rw [samplePairs, List.length_cons, length_samplePairs amp, List.length_cons, List.length_cons]
    omega
  | [amp₀] => by rw [samplePairs, List.length_nil, List.length_singleton]
  | [] => rfl

/-! ## Receive -/

/-- The reconstructed samples `rlow` and `rhigh` of an octet, as `g722_decode`
computes them. -/
def reconstructed (s : G722Codec) (octet : UInt8) : ℤ × ℤ :=
  ((decodeLow s.low octet.toNat).2, (decodeHigh s.high octet.toNat).2)

/-- The reconstructed samples of a stream of octets. -/
def reconstructions (s : G722Codec) : List UInt8 → List (ℤ × ℤ)
  | [] => []
  | octet :: octets => reconstructed s octet :: reconstructions (decodeOctet s octet).1 octets

/-- The samples that successive calls of `g722_decode` put out. -/
def decodeSamples (s : G722Codec) : List (List UInt8) → List Int16
  | [] => []
  | octets :: calls => (g722Decode s octets).2 ++ decodeSamples (g722Decode s octets).1 calls

/-- The receive QMF in direct form, after the reconstructions `past`. -/
def receiveQmf (past : List (ℤ × ℤ)) : List Int16 :=
  [saturate16 ((Fir.direct qmfCoeffsRev (past.map fun r => r.1 - r.2)).shiftRight 11),
    saturate16 ((Fir.direct qmfCoeffsFwd (past.map fun r => r.1 + r.2)).shiftRight 11)]

/-- The decoder's delay lines hold the sums and the differences. -/
structure SumsHeld (s : G722Codec) (past : List (ℤ × ℤ)) : Prop where
  inRange : CodecInRange s
  x : Fir.Holds (cells s.x) s.ptr (past.map fun r => r.1 + r.2)
  y : Fir.Holds (cells s.y) s.ptr (past.map fun r => r.1 - r.2)

theorem SumsHeld.init : SumsHeld g722Init [] := ⟨codecInRange_init, holds_init, holds_init⟩

/-- **One octet**: its samples are the direct form, and its reconstructions are
held. -/
theorem SumsHeld.step {s : G722Codec} {past : List (ℤ × ℤ)} (h : SumsHeld s past)
    (octet : UInt8) :
    [(decodeOctet s octet).2.1, (decodeOctet s octet).2.2] =
        receiveQmf (past ++ [reconstructed s octet]) ∧
      SumsHeld (decodeOctet s octet).1 (past ++ [reconstructed s octet]) := by
  obtain ⟨-, -, hrlow⟩ := decodeLow?_eq h.inRange.low octet.toNat
  obtain ⟨-, -, hrhigh⟩ := decodeHigh?_eq h.inRange.high octet.toNat
  have hnext := (decodeOctet?_eq h.inRange octet).2
  have hx := holds_write h.x
    (Int16.ofInt ((reconstructed s octet).1 + (reconstructed s octet).2))
  have hy := holds_write h.y
    (Int16.ofInt ((reconstructed s octet).1 - (reconstructed s octet).2))
  -- a sum or difference of two 15-bit values is not changed by the cast
  rw [Int16.toInt_ofInt_of_le (by simp only [reconstructed]; omega)
    (by simp only [reconstructed]; omega)] at hx hy
  have hmapX : (past ++ [reconstructed s octet]).map (fun r => r.1 + r.2) =
      past.map (fun r => r.1 + r.2) ++
        [(reconstructed s octet).1 + (reconstructed s octet).2] := List.map_append
  have hmapY : (past ++ [reconstructed s octet]).map (fun r => r.1 - r.2) =
      past.map (fun r => r.1 - r.2) ++
        [(reconstructed s octet).1 - (reconstructed s octet).2] := List.map_append
  refine ⟨?_, hnext, ?_, ?_⟩
  · rw [receiveQmf, hmapX, hmapY, ← circDot12_eq_direct hx rfl, ← circDot12_eq_direct hy rfl]
    rfl
  · rw [hmapX]
    exact hx
  · rw [hmapY]
    exact hy

/-- One call. -/
theorem SumsHeld.call (octets : List UInt8) :
    ∀ {s : G722Codec} {past : List (ℤ × ℤ)}, SumsHeld s past →
      (g722Decode s octets).2 =
          (History.answers receiveQmf past (reconstructions s octets)).flatten ∧
        SumsHeld (g722Decode s octets).1 (past ++ reconstructions s octets) := by
  induction octets with
  | nil =>
    intro s past h
    exact ⟨rfl, by rw [reconstructions, List.append_nil]; exact h⟩
  | cons octet octets ih =>
    intro s past h
    obtain ⟨hoctet, hheld⟩ := h.step octet
    obtain ⟨hrest, hlast⟩ := ih hheld
    refine ⟨?_, ?_⟩
    · rw [reconstructions, History.answers, List.flatten_cons, ← hoctet, ← hrest]
      rfl
    · rw [reconstructions, List.append_cons]
      exact hlast

theorem reconstructions_append (octets rest : List UInt8) :
    ∀ s : G722Codec, reconstructions s (octets ++ rest) =
      reconstructions s octets ++ reconstructions (g722Decode s octets).1 rest := by
  induction octets with
  | nil => exact fun _ => rfl
  | cons octet octets ih =>
    intro s
    rw [List.cons_append, reconstructions, ih, reconstructions, List.cons_append]
    rfl

/-- Successive calls. -/
theorem SumsHeld.calls (splits : List (List UInt8)) :
    ∀ {s : G722Codec} {past : List (ℤ × ℤ)}, SumsHeld s past →
      decodeSamples s splits =
        (History.answers receiveQmf past (reconstructions s splits.flatten)).flatten := by
  induction splits with
  | nil => exact fun _ => rfl
  | cons octets splits ih =>
    intro s past h
    obtain ⟨hcall, hlast⟩ := h.call octets
    rw [decodeSamples, hcall, ih hlast, List.flatten_cons, reconstructions_append,
      History.answers_append, List.flatten_append]

theorem length_reconstructions (octets : List UInt8) :
    ∀ s : G722Codec, (reconstructions s octets).length = octets.length := by
  induction octets with
  | nil => exact fun _ => rfl
  | cons octet octets ih =>
    intro s
    rw [reconstructions, List.length_cons, ih, List.length_cons]

/-- **The circular QMF is the plain FIR filter**: for a stream encoded in calls of
even lengths, the sub-band samples of pair `k` are the direct form over the pairs
up to it; for a stream decoded in any calls, the two samples of octet `k` are the
saturated direct form over the reconstructions up to it. -/
theorem g722_qmf (calls : List (List Int16)) (heven : ∀ amp ∈ calls, amp.length % 2 = 0)
    (splits : List (List UInt8)) :
    (subbandCalls g722Init calls).map (fun b => (b.1.toInt, b.2.toInt)) =
        (List.range (calls.flatten.length / 2)).map
          (fun k => transmitQmf ((samplePairs calls.flatten).take (k + 1))) ∧
      decodeSamples g722Init splits =
        ((List.range splits.flatten.length).map (fun k =>
          receiveQmf ((reconstructions g722Init splits.flatten).take (k + 1)))).flatten := by
  refine ⟨?_, ?_⟩
  · rw [PairsHeld.init.calls calls, samplePairs_flatten heven, History.answers_eq_map,
      length_samplePairs]
    rfl
  · rw [SumsHeld.init.calls splits, History.answers_eq_map, length_reconstructions]
    rfl

/-- Fourteen pairs in two calls, more than the ring holds, and three octets in
two. -/
theorem g722_qmf_two_calls :
    (subbandCalls g722Init [[1000, -2000], List.replicate 26 30000]).map
          (fun b => (b.1.toInt, b.2.toInt)) =
        (List.range 14).map (fun k =>
          transmitQmf ((samplePairs ([1000, -2000] ++ List.replicate 26 30000)).take (k + 1))) ∧
      decodeSamples g722Init [[158], [48, 132]] =
        ((List.range 3).map (fun k =>
          receiveQmf ((reconstructions g722Init [158, 48, 132]).take (k + 1)))).flatten :=
  g722_qmf [[1000, -2000], List.replicate 26 30000] (by decide) [[158], [48, 132]]

end PipecatVoice
