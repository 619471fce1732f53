import PipecatVoice.G722

/-!
# Encoder and decoder in lockstep

The adaptive state of a G.722 stream is the state of the two predictors and the
circular index. The encoder and the decoder compute it in two separately
written loops: the encoder takes the inverse quantiser's index from its search
and clamps the scale factor after a cast to `int16_t`, the decoder takes the
index from the octet and clamps before the cast.

The argument is one step (`adaptive_decodeOctet`) and an induction on the
stream. What makes the two casts agree is the range of the scale factor
(`NbInRange`), an invariant of the encoder; what makes the two indices agree is
that the codes fit their fields (`encodeLow_code_lt`, `encodeHigh_code_lt`).
-/

namespace PipecatVoice

/-- The adaptive state: both sub-bands (`nb`, `det`, `s`, `sz`, `r`, `p`, `a`,
`b`, `d`) and the circular index. The QMF histories are not part of it. -/
def adaptive (c : G722Codec) : G722Band × G722Band × ℕ := (c.low, c.high, c.ptr)

/-! ## The codes fit their fields -/

/-- An entry of a table all of whose entries satisfy `P` satisfies `P`, also
outside the table if the default does. -/
theorem entry_of_forall {α : Type} [Inhabited α] {P : α → Prop} {t : List α}
    (ht : ∀ v ∈ t, P v) (hd : P default) (i : ℕ) : P (entry t i) := by
  rw [entry, List.getD_eq_getElem?_getD]
  rcases h : t[i]? with _ | v
  · exact hd
  · exact ht v (List.mem_of_getElem? h)

/-- The low-band code has six bits. -/
theorem encodeLow_code_lt (band : G722Band) (xlow : Int16) : (encodeLow band xlow).2 < 64 := by
  simp only [encodeLow]
  split
  · exact entry_of_forall (P := (· < 64)) (by decide) (by decide) _
  · exact entry_of_forall (P := (· < 64)) (by decide) (by decide) _

/-- The high-band code has two bits. -/
theorem encodeHigh_code_lt (band : G722Band) (xhigh : Int16) :
    (encodeHigh band xhigh).2 < 4 := by
  simp only [encodeHigh]
  split
  · exact entry_of_forall (P := (· < 4)) (by decide) (by decide) _
  · exact entry_of_forall (P := (· < 4)) (by decide) (by decide) _

/-- An octet gives back the two codes it was packed from. -/
theorem unpack_octet : ∀ ihigh < 4, ∀ ilow < 64,
    (UInt8.ofNat (ihigh <<< 6 ||| ilow)).toNat &&& 0x3F = ilow ∧
      ((UInt8.ofNat (ihigh <<< 6 ||| ilow)).toNat >>> 6) &&& 0x03 = ihigh := by
  decide +kernel

/-! ## The scale factor stays in range -/

/-- The scale factor of a band is between zero and its clamp. -/
def NbInRange (top : ℤ) (band : G722Band) : Prop := 0 ≤ band.nb.toInt ∧ band.nb.toInt ≤ top

/-- Cast-then-clamp is clamp-then-cast as long as the cast does not wrap, which
a scale factor in range guarantees. -/
theorem encodeNb_eq_decodeNb (top nb : Int16) {w : ℤ}
    (htop : 0 ≤ top.toInt ∧ top.toInt ≤ 22528)
    (hnb : 0 ≤ nb.toInt ∧ nb.toInt ≤ top.toInt) (hw : -214 ≤ w ∧ w ≤ 3042) :
    encodeNb top nb w = decodeNb top.toInt nb w ∧
      0 ≤ (encodeNb top nb w).toInt ∧ (encodeNb top nb w).toInt ≤ top.toInt := by
  have hwd : 0 ≤ (nb.toInt * 127).shiftRight 7 ∧ (nb.toInt * 127).shiftRight 7 ≤ 22528 := by
    rw [← Int.shiftRight_eq, Int.shiftRight_eq_div_pow]
    omega
  have hsum : (Int16.ofInt ((nb.toInt * 127).shiftRight 7 + w)).toInt =
      (nb.toInt * 127).shiftRight 7 + w :=
    Int16.toInt_ofInt_of_le (by omega) (by omega)
  simp only [encodeNb, decodeNb, Int16.lt_iff_toInt_lt, hsum, Int16.toInt_zero, gt_iff_lt]
  split
  · exact ⟨rfl, by simp, by simpa using htop.1⟩
  · split
    · exact ⟨(Int16.ofInt_toInt top).symm, htop.1, le_refl _⟩
    · rw [hsum]
      exact ⟨rfl, by omega, by omega⟩

@[simp] theorem block4_nb (s : G722Band) (dx : Int16) : (block4 s dx).nb = s.nb := by
  simp only [block4]

/-! ## One octet -/

/-- The encoder's low band after an octet, in terms of the code it chose. -/
theorem encodeLow_fst (band : G722Band) (xlow : Int16) :
    (encodeLow band xlow).1 =
      block4 { band with
          nb := encodeNb 18432 band.nb (entry wl (entry rl42 ((encodeLow band xlow).2 >>> 2)))
          det := scale 8
            (encodeNb 18432 band.nb (entry wl (entry rl42 ((encodeLow band xlow).2 >>> 2)))) }
        (Int16.ofInt
          ((band.det.toInt * entry qm4 ((encodeLow band xlow).2 >>> 2)).shiftRight 15)) := by
  simp only [encodeLow]

/-- The encoder's high band after an octet, in terms of the code it chose. -/
theorem encodeHigh_fst (band : G722Band) (xhigh : Int16) :
    (encodeHigh band xhigh).1 =
      block4 { band with
          nb := encodeNb 22528 band.nb (entry wh (entry rh2 (encodeHigh band xhigh).2))
          det := scale 10
            (encodeNb 22528 band.nb (entry wh (entry rh2 (encodeHigh band xhigh).2))) }
        (Int16.ofInt ((band.det.toInt * entry qm2 (encodeHigh band xhigh).2).shiftRight 15)) := by
  simp only [encodeHigh]

/-- Decoding the code the encoder chose updates the low band as the encoder
did. -/
theorem decodeLow_encodeLow {band : G722Band} {xlow : Int16} {code : ℕ}
    (hnb : NbInRange 18432 band) (hcode : code &&& 0x3F = (encodeLow band xlow).2) :
    (decodeLow band code).1 = (encodeLow band xlow).1 ∧
      NbInRange 18432 (encodeLow band xlow).1 := by
  have hw : ∀ i, -214 ≤ entry wl i ∧ entry wl i ≤ 3042 :=
    entry_of_forall (P := fun v => -214 ≤ v ∧ v ≤ 3042) (by decide) (by decide)
  obtain ⟨heq, hlo, hhi⟩ := encodeNb_eq_decodeNb 18432 band.nb (by decide)
    hnb (hw (entry rl42 ((encodeLow band xlow).2 >>> 2)))
  rw [encodeLow_fst]
  refine ⟨?_, ?_⟩
  · rw [heq]
    simp only [decodeLow, hcode]
    rfl
  · rw [NbInRange, block4_nb]
    exact ⟨hlo, hhi⟩

/-- Decoding the code the encoder chose updates the high band as the encoder
did. -/
theorem decodeHigh_encodeHigh {band : G722Band} {xhigh : Int16} {code : ℕ}
    (hnb : NbInRange 22528 band) (hcode : (code >>> 6) &&& 0x03 = (encodeHigh band xhigh).2) :
    (decodeHigh band code).1 = (encodeHigh band xhigh).1 ∧
      NbInRange 22528 (encodeHigh band xhigh).1 := by
  have hw : ∀ i, -214 ≤ entry wh i ∧ entry wh i ≤ 3042 :=
    entry_of_forall (P := fun v => -214 ≤ v ∧ v ≤ 3042) (by decide) (by decide)
  obtain ⟨heq, hlo, hhi⟩ := encodeNb_eq_decodeNb 22528 band.nb (by decide)
    hnb (hw (entry rh2 (encodeHigh band xhigh).2))
  rw [encodeHigh_fst]
  refine ⟨?_, ?_⟩
  · rw [heq]
    simp only [decodeHigh, hcode]
    rfl
  · rw [NbInRange, block4_nb]
    exact ⟨hlo, hhi⟩

/-- Both scale factors of a codec are in range. -/
def NbsInRange (c : G722Codec) : Prop := NbInRange 18432 c.low ∧ NbInRange 22528 c.high

theorem nbsInRange_init : NbsInRange g722Init := by
  refine ⟨⟨?_, ?_⟩, ?_, ?_⟩ <;> decide

/-- **The lockstep step**: an encoder and a decoder with the same adaptive state
have the same adaptive state after the octet of a sample pair. -/
theorem adaptive_decodeOctet {e d : G722Codec} (h : adaptive e = adaptive d)
    (he : NbsInRange e) (amp₀ amp₁ : Int16) :
    adaptive (encodePair e amp₀ amp₁).1 =
        adaptive (decodeOctet d (encodePair e amp₀ amp₁).2).1 ∧
      NbsInRange (encodePair e amp₀ amp₁).1 := by
  obtain ⟨hlow, hhigh, hptr⟩ : e.low = d.low ∧ e.high = d.high ∧ e.ptr = d.ptr := by
    simpa [adaptive] using h
  set e' := (encodePair e amp₀ amp₁).1 with he'
  set octet := (encodePair e amp₀ amp₁).2 with hoctet
  obtain ⟨xlow, hxlow⟩ : ∃ xlow, e'.low = (encodeLow e.low xlow).1 ∧
      ∃ xhigh, e'.high = (encodeHigh e.high xhigh).1 ∧
        octet = UInt8.ofNat ((encodeHigh e.high xhigh).2 <<< 6 ||| (encodeLow e.low xlow).2) :=
    ⟨_, rfl, _, rfl, rfl⟩
  obtain ⟨hl, xhigh, hh, ho⟩ := hxlow
  obtain ⟨hcodeLow, hcodeHigh⟩ := unpack_octet _ (encodeHigh_code_lt e.high xhigh) _
    (encodeLow_code_lt e.low xlow)
  rw [← ho] at hcodeLow hcodeHigh
  obtain ⟨hdl, hnl⟩ := decodeLow_encodeLow he.1 hcodeLow
  obtain ⟨hdh, hnh⟩ := decodeHigh_encodeHigh he.2 hcodeHigh
  refine ⟨?_, hl ▸ hnl, hh ▸ hnh⟩
  have hd : adaptive (decodeOctet d octet).1 =
      ((decodeLow d.low octet.toNat).1, (decodeHigh d.high octet.toNat).1, nextPtr d.ptr) := rfl
  rw [hd, ← hlow, ← hhigh, ← hptr, hdl, hdh, ← hl, ← hh]
  rfl

/-! ## Streams

A stream reaches the codec in calls of any lengths. `encodeStates` and
`decodeStates` list the codec states one call passes through, one after each
octet; `encodeCalls` and `decodeCalls` string the calls of a stream together. -/

/-- The states `g722_encode` passes through, one after each octet. -/
def encodeStates (s : G722Codec) : List Int16 → List G722Codec
  | amp₀ :: amp₁ :: amp =>
    (encodePair s amp₀ amp₁).1 :: encodeStates (encodePair s amp₀ amp₁).1 amp
  | [_] => []
  | [] => []

/-- The states `g722_decode` passes through, one after each octet. -/
def decodeStates (s : G722Codec) : List UInt8 → List G722Codec
  | [] => []
  | octet :: octets => (decodeOctet s octet).1 :: decodeStates (decodeOctet s octet).1 octets

/-- Successive calls of `g722_encode` on one codec: the states after each octet,
and the octets. -/
def encodeCalls (s : G722Codec) : List (List Int16) → List G722Codec × List UInt8
  | [] => ([], [])
  | amp :: calls =>
    let rest := encodeCalls (g722Encode s amp).1 calls
    (encodeStates s amp ++ rest.1, (g722Encode s amp).2 ++ rest.2)

/-- Successive calls of `g722_decode` on one codec: the states after each
octet. -/
def decodeCalls (s : G722Codec) : List (List UInt8) → List G722Codec
  | [] => []
  | octets :: calls => decodeStates s octets ++ decodeCalls (g722Decode s octets).1 calls

theorem decodeStates_append (s : G722Codec) (u v : List UInt8) :
    decodeStates s (u ++ v) = decodeStates s u ++ decodeStates (g722Decode s u).1 v := by
  induction u generalizing s with
  | nil => rfl
  | cons octet u ih =>
    simp only [List.cons_append, decodeStates, g722Decode, ih]

/-- How the octets are split into calls does not matter to the decoder. -/
theorem decodeCalls_eq (s : G722Codec) (splits : List (List UInt8)) :
    decodeCalls s splits = decodeStates s splits.flatten := by
  induction splits generalizing s with
  | nil => rfl
  | cons octets splits ih =>
    rw [decodeCalls, ih, List.flatten_cons, decodeStates_append]

/-- There is one state for each octet. -/
theorem length_encodeStates (s : G722Codec) (amp : List Int16) :
    (encodeStates s amp).length = (g722Encode s amp).2.length := by
  induction s, amp using encodeStates.induct with
  | case1 s amp₀ amp₁ amp ih => simp only [encodeStates, g722Encode, List.length_cons, ih]
  | case2 s amp₀ => rfl
  | case3 s => rfl

theorem length_encodeCalls (s : G722Codec) (calls : List (List Int16)) :
    (encodeCalls s calls).1.length = (encodeCalls s calls).2.length := by
  induction calls generalizing s with
  | nil => rfl
  | cons amp calls ih =>
    simp only [encodeCalls, List.length_append, length_encodeStates, ih]

/-- The lockstep of one call: the states agree after every octet, and so do the
states the two calls end in. -/
theorem adaptive_call (e : G722Codec) (amp : List Int16) :
    ∀ {d : G722Codec}, adaptive e = adaptive d → NbsInRange e →
      (encodeStates e amp).map adaptive = (decodeStates d (g722Encode e amp).2).map adaptive ∧
        adaptive (g722Encode e amp).1 = adaptive (g722Decode d (g722Encode e amp).2).1 ∧
        NbsInRange (g722Encode e amp).1 := by
  induction e, amp using encodeStates.induct with
  | case1 e amp₀ amp₁ amp ih =>
    intro d h he
    obtain ⟨hstep, he'⟩ := adaptive_decodeOctet h he amp₀ amp₁
    obtain ⟨hstates, hlast, hrange⟩ := ih hstep he'
    simp only [encodeStates, g722Encode, decodeStates, g722Decode, List.map_cons]
    exact ⟨by rw [hstep, hstates], hlast, hrange⟩
  | case2 e amp₀ => exact fun h he => ⟨rfl, h, he⟩
  | case3 e => exact fun h he => ⟨rfl, h, he⟩

/-- The lockstep of a stream, from any two codecs that agree. -/
theorem adaptive_calls (calls : List (List Int16)) :
    ∀ {e d : G722Codec}, adaptive e = adaptive d → NbsInRange e →
      (encodeCalls e calls).1.map adaptive =
        (decodeStates d (encodeCalls e calls).2).map adaptive := by
  induction calls with
  | nil => exact fun _ _ => rfl
  | cons amp calls ih =>
    intro e d h he
    obtain ⟨hstates, hlast, hrange⟩ := adaptive_call e amp h he
    simp only [encodeCalls, List.map_append, decodeStates_append]
    rw [hstates, ih hlast hrange]

/-- **Predictor lockstep**: feed a PCM stream to `g722_encode` in calls of any
lengths and the octets to `g722_decode` in calls of any lengths, both codecs
fresh from `g722_init`. After every octet the adaptive states are equal. -/
theorem g722_lockstep (calls : List (List Int16)) (splits : List (List UInt8))
    (hsplits : splits.flatten = (encodeCalls g722Init calls).2) :
    (encodeCalls g722Init calls).1.length = splits.flatten.length ∧
      (encodeCalls g722Init calls).1.map adaptive =
        (decodeCalls g722Init splits).map adaptive := by
  refine ⟨?_, ?_⟩
  · rw [hsplits]
    exact length_encodeCalls g722Init calls
  · rw [decodeCalls_eq, hsplits]
    exact adaptive_calls calls rfl nbsInRange_init

/-- Three pairs in two calls, three octets in two other calls. -/
theorem g722_lockstep_three_octets :
    (encodeCalls g722Init [[1000, 2000, -3000, 4000], [30000, -30000]]).1.map adaptive =
      (decodeCalls g722Init [[158], [48, 132]]).map adaptive :=
  (g722_lockstep [[1000, 2000, -3000, 4000], [30000, -30000]] [[158], [48, 132]]
    (by decide +kernel)).2

end PipecatVoice
