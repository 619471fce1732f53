import PipecatVoice.G722Lockstep
import PipecatVoice.G722Qmf
import PipecatVoice.G722Ranges

/-!
# How closely the decoder follows the low band

The encoder searches the decision levels `q6` for the first one above its
difference; the decoder reads its value from the separate table `qm6`. The two
agree because every entry of `qm6` lies between the two decision levels around
it (`qm6_pos`, `qm6_neg`), for each index the search can end at; everything else
is floors of the same product.
-/

namespace PipecatVoice

/-! ## The search -/

/-- `T(j)`: the scaled decision level, zero below the first. -/
def decisionLevel (det : Int16) : ℕ → ℤ
  | 0 => 0
  | j + 1 => (entry q6 (j + 1) * det.toInt).shiftRight 12

/-- The difference `el` of the low band. -/
def lowDifference (band : G722Band) (xlow : Int16) : ℤ := (satSub16 xlow band.s).toInt

/-- Its magnitude, in one's complement. -/
def onesMagnitude (el : ℤ) : ℤ := if el ≥ 0 then el else -el - 1

/-- The index `i` that the search of the low band ends at. -/
def lowIndex (band : G722Band) (xlow : Int16) : ℕ :=
  quantl (onesMagnitude (lowDifference band xlow)) band.det 29 1

/-- The code of the low band, from the index. -/
theorem encodeLow_code (band : G722Band) (xlow : Int16) :
    (encodeLow band xlow).2 =
      if lowDifference band xlow < 0 then entry iln (lowIndex band xlow)
      else entry ilp (lowIndex band xlow) := rfl

/-- **Where the search ends**: below the level it stopped at, unless it ran out,
and at or above all levels before. -/
theorem quantl_spec (wd : ℤ) (det : Int16) : ∀ n i, 1 ≤ i →
    i ≤ quantl wd det n i ∧ quantl wd det n i ≤ i + n ∧
      (quantl wd det n i < i + n → wd < decisionLevel det (quantl wd det n i)) ∧
      ∀ j, i ≤ j → j < quantl wd det n i → decisionLevel det j ≤ wd := by
  intro n
  induction n with
  | zero =>
    intro i _
    refine ⟨le_rfl, le_rfl, fun h => absurd h (Nat.lt_irrefl i), ?_⟩
    intro j hij hji
    exact absurd hji (Nat.not_lt.mpr hij)
  | succ n ih =>
    intro i hi
    obtain ⟨k, rfl⟩ : ∃ k, i = k + 1 := Nat.exists_eq_add_of_le' hi
    rw [quantl]
    split
    · rename_i hlt
      refine ⟨le_rfl, Nat.le_add_right _ _, fun _ => hlt, ?_⟩
      intro j hij hji
      exact absurd hji (Nat.not_lt.mpr hij)
    · rename_i hge
      obtain ⟨hlo, hhi, hstop, hbelow⟩ := ih (k + 1 + 1) (by omega)
      refine ⟨by omega, by omega, fun h => hstop (by omega), ?_⟩
      intro j hij hji
      rcases Nat.eq_or_lt_of_le hij with rfl | hlt
      · exact not_lt.mp hge
      · exact hbelow j hlt hji

/-- The magnitude lies in the decision interval of its index. -/
theorem lowIndex_spec (band : G722Band) (xlow : Int16) :
    1 ≤ lowIndex band xlow ∧ lowIndex band xlow ≤ 30 ∧
      (lowIndex band xlow < 30 → onesMagnitude (lowDifference band xlow) <
        decisionLevel band.det (lowIndex band xlow)) ∧
      decisionLevel band.det (lowIndex band xlow - 1) ≤
        onesMagnitude (lowDifference band xlow) := by
  obtain ⟨hlo, hhi, hstop, hbelow⟩ :=
    quantl_spec (onesMagnitude (lowDifference band xlow)) band.det 29 1 le_rfl
  refine ⟨hlo, hhi, hstop, ?_⟩
  rcases Nat.eq_or_lt_of_le hlo with hone | hmore
  · rw [lowIndex, ← hone]
    show 0 ≤ onesMagnitude _
    rw [onesMagnitude]
    split <;> omega
  · exact hbelow _ (by rw [lowIndex]; omega) (by rw [lowIndex]; omega)

/-! ## The tables -/

/-- The codes of the low band are never among the four that share one value. -/
theorem low_codes : ∀ i, 1 ≤ i → i ≤ 30 →
    (4 ≤ entry iln i ∧ entry iln i ≤ 63) ∧ 4 ≤ entry ilp i ∧ entry ilp i ≤ 63 := by
  intro i h1 h30
  interval_cases i <;> decide

/-- A positive reconstruction level lies between its decision levels. -/
theorem qm6_pos : ∀ i, 1 ≤ i → i ≤ 30 →
    8 * entry q6 (i - 1) ≤ entry qm6 (entry ilp i) ∧ 0 ≤ entry qm6 (entry ilp i) ∧
      (i < 30 → entry qm6 (entry ilp i) ≤ 8 * entry q6 i) := by
  intro i h1 h30
  interval_cases i <;> decide

/-- So does a negative one. -/
theorem qm6_neg : ∀ i, 1 ≤ i → i ≤ 30 →
    entry qm6 (entry iln i) ≤ -(8 * entry q6 (i - 1)) ∧ entry qm6 (entry iln i) ≤ 0 ∧
      (i < 30 → -(8 * entry q6 i) ≤ entry qm6 (entry iln i)) := by
  intro i h1 h30
  interval_cases i <;> decide

theorem decisionLevel_eq (det : Int16) (j : ℕ) :
    decisionLevel det j = entry q6 j * det.toInt / 4096 := by
  cases j with
  | zero => simp [decisionLevel, entry, q6]
  | succ j => exact shiftRight_eq_div _ 12

/-! ## One band -/

theorem lowDifference_eq (band : G722Band) (xlow : Int16) :
    lowDifference band xlow = max (-32768) (min 32767 (xlow.toInt - band.s.toInt)) :=
  saturate16_toInt _

/-- The reconstructed sample, from the code. -/
theorem decodeLow_rlow (band : G722Band) (code : ℕ) :
    (decodeLow band code).2 =
      max (-16384) (min 16383
        (band.s.toInt + band.det.toInt * entry qm6 (code &&& 0x3F) / 32768)) := by
  have hshift : (band.det.toInt * entry qm6 (code &&& 0x3F)).shiftRight 15 =
      band.det.toInt * entry qm6 (code &&& 0x3F) / 32768 := shiftRight_eq_div _ 15
  rw [← hshift, ← saturate15_toInt]
  rfl

/-- Neither value is on the other side of `s`. -/
def NotOpposite (u v : ℤ) : Prop := ¬ (u < 0 ∧ 0 < v) ∧ ¬ (0 < u ∧ v < 0)

/-- A decision level that the search compared with. -/
theorem decisionLevel_le {det : Int16} (hdet : 0 ≤ det.toInt ∧ det.toInt ≤ 16384) {i : ℕ}
    (hi : i < 30) : decisionLevel det i ≤ 11676 := by
  obtain ⟨-, hhi⟩ := q6_range i hi
  have hprod : entry q6 i * det.toInt ≤ 2919 * 16384 := mul_le_mul hhi hdet.2 hdet.1 (by decide)
  rw [decisionLevel_eq]
  omega

/-- The difference that the decoder reads from a code of positive sign lies between
the decision levels. -/
theorem level_pos {det : Int16} (hdet : 0 ≤ det.toInt) {i : ℕ} (h1 : 1 ≤ i) (h30 : i ≤ 30) :
    decisionLevel det (i - 1) ≤ det.toInt * entry qm6 (entry ilp i) / 32768 ∧
      0 ≤ det.toInt * entry qm6 (entry ilp i) / 32768 ∧
      (i < 30 → det.toInt * entry qm6 (entry ilp i) / 32768 ≤ decisionLevel det i) := by
  obtain ⟨hlower, hsign, hupper⟩ := qm6_pos i h1 h30
  have hM := mul_le_mul_of_nonneg_right hlower hdet
  have hM0 := mul_le_mul_of_nonneg_right hsign hdet
  rw [mul_assoc] at hM
  rw [zero_mul] at hM0
  rw [mul_comm det.toInt, decisionLevel_eq, decisionLevel_eq]
  refine ⟨by omega, by omega, ?_⟩
  intro hi
  have hM1 := mul_le_mul_of_nonneg_right (hupper hi) hdet
  rw [mul_assoc] at hM1
  omega

/-- Of negative sign: the floor may take it one below. -/
theorem level_neg {det : Int16} (hdet : 0 ≤ det.toInt) {i : ℕ} (h1 : 1 ≤ i) (h30 : i ≤ 30) :
    det.toInt * entry qm6 (entry iln i) / 32768 ≤ -decisionLevel det (i - 1) ∧
      det.toInt * entry qm6 (entry iln i) / 32768 ≤ 0 ∧
      (i < 30 → -decisionLevel det i - 1 ≤ det.toInt * entry qm6 (entry iln i) / 32768) := by
  obtain ⟨hupper, hsign, hlower⟩ := qm6_neg i h1 h30
  have hM := mul_le_mul_of_nonneg_right hupper hdet
  have hM0 := mul_le_mul_of_nonneg_right hsign hdet
  rw [neg_mul, mul_assoc] at hM
  rw [zero_mul] at hM0
  rw [mul_comm det.toInt, decisionLevel_eq, decisionLevel_eq]
  refine ⟨by omega, by omega, ?_⟩
  intro hi
  have hM1 := mul_le_mul_of_nonneg_right (hlower hi) hdet
  rw [neg_mul, mul_assoc] at hM1
  omega

/-- The limiter takes a reconstructed sample no farther from one in its range. -/
theorem limited_sub {s x el q w : ℤ} (hx : -16384 ≤ x ∧ x ≤ 16383)
    (hel : el = max (-32768) (min 32767 (x - s))) (hfits : -32768 < el ∧ el < 32767)
    (hq : |q - el| ≤ w) : |max (-16384) (min 16383 (s + q)) - x| ≤ w := by
  rw [abs_le] at hq ⊢
  omega

/-- Nor to the other side of the predictor's output. -/
theorem limited_side {s x el q : ℤ} (hx : -16384 ≤ x ∧ x ≤ 16383)
    (hel : el = max (-32768) (min 32767 (x - s))) (hside : 0 ≤ q ∧ 0 ≤ el ∨ q ≤ 0 ∧ el ≤ 0) :
    NotOpposite (max (-16384) (min 16383 (s + q)) - s) (x - s) := by
  rw [NotOpposite]
  omega

/-- **One band follows its sample**: the decoder, at the same band, reads the code
that the encoder chose for `xlow`. -/
theorem low_tracking {band : G722Band} (hdet : 0 ≤ band.det.toInt ∧ band.det.toInt ≤ 16384)
    {xlow : Int16} (hx : -16384 ≤ xlow.toInt ∧ xlow.toInt ≤ 16383) {code : ℕ}
    (hcode : code &&& 0x3F = (encodeLow band xlow).2) :
    (lowIndex band xlow < 30 → |(decodeLow band code).2 - xlow.toInt| ≤
        decisionLevel band.det (lowIndex band xlow) -
          decisionLevel band.det (lowIndex band xlow - 1) + 1) ∧
      NotOpposite ((decodeLow band code).2 - band.s.toInt) (xlow.toInt - band.s.toInt) := by
  obtain ⟨h1, h30, hbelow, habove⟩ := lowIndex_spec band xlow
  have hel := lowDifference_eq band xlow
  rw [decodeLow_rlow, hcode, encodeLow_code]
  by_cases hneg : lowDifference band xlow < 0
  · obtain ⟨hupper, hsign, hlower⟩ := level_neg hdet.1 h1 h30
    rw [if_pos hneg]
    rw [onesMagnitude, if_neg (by omega)] at hbelow habove
    refine ⟨?_, limited_side hx hel (.inr ⟨hsign, by omega⟩)⟩
    intro hi
    have hb := hbelow hi
    have hlo := hlower hi
    have hlevel := decisionLevel_le hdet hi
    refine limited_sub hx hel (by omega) ?_
    rw [abs_le]
    omega
  · obtain ⟨hlower, hsign, hupper⟩ := level_pos hdet.1 h1 h30
    rw [if_neg hneg]
    rw [onesMagnitude, if_pos (by omega)] at hbelow habove
    refine ⟨?_, limited_side hx hel (.inl ⟨hsign, by omega⟩)⟩
    intro hi
    have hb := hbelow hi
    have hhi := hupper hi
    have hlevel := decisionLevel_le hdet hi
    refine limited_sub hx hel (by omega) ?_
    rw [abs_le]
    omega

/-! ## Streams -/

/-- A call of even length and one more are one call. -/
theorem g722Encode_append : ∀ (before rest : List Int16) (s : G722Codec),
    before.length % 2 = 0 →
      g722Encode s (before ++ rest) =
        ((g722Encode (g722Encode s before).1 rest).1,
          (g722Encode s before).2 ++ (g722Encode (g722Encode s before).1 rest).2)
  | amp₀ :: amp₁ :: before, rest, s, h => by
    rw [List.length_cons, List.length_cons] at h
    rw [List.cons_append, List.cons_append, g722Encode, g722Encode]
    simp only [g722Encode_append before rest (encodePair s amp₀ amp₁).1 (by omega)]
    rfl
  | [amp₀], _, _, h => absurd (show 1 % 2 = 0 from h) Nat.one_ne_zero
  | [], _, _, _ => rfl

theorem length_g722Encode : ∀ (amp : List Int16) (s : G722Codec),
    (g722Encode s amp).2.length = amp.length / 2
  | amp₀ :: amp₁ :: amp, s => by
    rw [g722Encode, List.length_cons, length_g722Encode amp, List.length_cons, List.length_cons]
    omega
  | [amp₀], s => by rw [g722Encode, List.length_nil, List.length_singleton]
  | [], s => rfl

/-- The codes of an octet. -/
theorem octet_codes (e : G722Codec) (amp₀ amp₁ : Int16) :
    (encodePair e amp₀ amp₁).2.toNat &&& 0x3F =
      (encodeLow e.low (subbands e amp₀ amp₁).1).2 := by
  obtain ⟨-, -, hoctet⟩ := encodePair_subbands e amp₀ amp₁
  rw [hoctet]
  exact (unpack_octet _ (encodeHigh_code_lt e.high _) _ (encodeLow_code_lt e.low _)).1

/-- The codes of the low band stay clear of the first four. -/
theorem low_code_range (band : G722Band) (xlow : Int16) :
    4 ≤ (encodeLow band xlow).2 ∧ (encodeLow band xlow).2 ≤ 63 := by
  obtain ⟨h1, h30, -, -⟩ := lowIndex_spec band xlow
  obtain ⟨hneg, hpos⟩ := low_codes _ h1 h30
  rw [encodeLow_code]
  split
  · exact hneg
  · exact hpos

/-- The decoder `d` follows the encoder `e` over a pair: the octet's low six bits,
how far the reconstructed `rlow` is from `xlow`, and on which side of the
predictor's output. Outside of the limiter's range the last two need not hold, as
the decoder clamps `rlow`. -/
structure LowTracked (e d : G722Codec) (amp₀ amp₁ : Int16) : Prop where
  code : 4 ≤ (encodePair e amp₀ amp₁).2.toNat &&& 0x3F ∧
    (encodePair e amp₀ amp₁).2.toNat &&& 0x3F ≤ 63
  error : -16384 ≤ (subbands e amp₀ amp₁).1.toInt ∧ (subbands e amp₀ amp₁).1.toInt ≤ 16383 →
    lowIndex e.low (subbands e amp₀ amp₁).1 < 30 →
      |(reconstructed d (encodePair e amp₀ amp₁).2).1 - (subbands e amp₀ amp₁).1.toInt| ≤
        decisionLevel e.low.det (lowIndex e.low (subbands e amp₀ amp₁).1) -
          decisionLevel e.low.det (lowIndex e.low (subbands e amp₀ amp₁).1 - 1) + 1
  side : -16384 ≤ (subbands e amp₀ amp₁).1.toInt ∧ (subbands e amp₀ amp₁).1.toInt ≤ 16383 →
    NotOpposite ((reconstructed d (encodePair e amp₀ amp₁).2).1 - d.low.s.toInt)
      ((subbands e amp₀ amp₁).1.toInt - e.low.s.toInt)

theorem lowTracked_of_lockstep {e d : G722Codec} (hlow : d.low = e.low) (he : CodecInRange e)
    (amp₀ amp₁ : Int16) : LowTracked e d amp₀ amp₁ := by
  have hcode := octet_codes e amp₀ amp₁
  have hdet := he.low.det
  have hrlow : reconstructed d (encodePair e amp₀ amp₁).2 =
      ((decodeLow e.low (encodePair e amp₀ amp₁).2.toNat).2,
        (decodeHigh d.high (encodePair e amp₀ amp₁).2.toNat).2) := by
    rw [reconstructed, hlow]
  refine ⟨?_, ?_, ?_⟩
  · rw [hcode]
    exact low_code_range e.low _
  · intro hx hi
    rw [hrlow]
    exact (low_tracking ⟨by omega, hdet.2⟩ hx hcode).1 hi
  · intro hx
    rw [hrlow, hlow]
    exact (low_tracking ⟨by omega, hdet.2⟩ hx hcode).2

/-- **The low band is tracked within its decision interval**: at every pair of a
stream, that is after any even number of samples, encoded and decoded from
`g722_init`. -/
theorem g722_low_tracking (before rest : List Int16) (amp₀ amp₁ : Int16)
    (heven : before.length % 2 = 0) :
    (g722Encode g722Init (before ++ amp₀ :: amp₁ :: rest)).2[before.length / 2]? =
        some (encodePair (g722Encode g722Init before).1 amp₀ amp₁).2 ∧
      LowTracked (g722Encode g722Init before).1
        (g722Decode g722Init (g722Encode g722Init before).2).1 amp₀ amp₁ := by
  obtain ⟨-, hlock, -⟩ := adaptive_call g722Init before (d := g722Init) rfl nbsInRange_init
  refine ⟨?_, lowTracked_of_lockstep (congrArg (·.1) hlock).symm
    (g722Encode?_eq before codecInRange_init).2 amp₀ amp₁⟩
  rw [g722Encode_append before _ _ heven, ← length_g722Encode before g722Init,
    List.getElem?_append_right le_rfl, Nat.sub_self]
  rfl

/-- The third pair of a stream: its low band is in range, and the search does not
run out. -/
theorem g722_low_tracking_third :
    LowTracked (g722Encode g722Init [1000, 2000, 3000, 4000]).1
        (g722Decode g722Init (g722Encode g722Init [1000, 2000, 3000, 4000]).2).1 3000 2000 ∧
      (subbands (g722Encode g722Init [1000, 2000, 3000, 4000]).1 3000 2000).1.toInt = -3 ∧
      lowIndex (g722Encode g722Init [1000, 2000, 3000, 4000]).1.low (-3) = 4 :=
  ⟨(g722_low_tracking [1000, 2000, 3000, 4000] [] 3000 2000 (by decide)).2,
    by decide +kernel, by decide +kernel⟩

end PipecatVoice
