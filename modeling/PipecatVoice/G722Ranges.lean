import Mathlib.Tactic.IntervalCases
import PipecatVoice.G722Checked
import PipecatVoice.G722Lockstep
import PipecatVoice.Lib.Runs

/-!
# The codec stays in its widths

The casts of the codec are unchecked: a value that did not fit would wrap and
become noise. It never happens. The scale factors, the step sizes they are
turned into and the poles of the predictors stay between bounds, and between
these bounds every check of `PipecatVoice.G722Checked` succeeds.

* `BandInRange`, `CodecInRange` — the bounds;
* `block4?_eq`, `scale?_eq` — the two places where the bounds are needed;
* `g722_inRange` — every call on every reachable codec.
-/

namespace PipecatVoice

open Checked

/-! ## Saturation -/

theorem getElem?_entry {α : Type} [Inhabited α] {t : List α} {i : ℕ} (h : i < t.length) :
    t[i]? = some (entry t i) := by
  rw [entry, List.getD_eq_getElem?_getD, List.getElem?_eq_getElem h, Option.getD_some]

theorem entry_toList {n i : ℕ} (v : Vector Int16 n) (h : i < n) : entry v.toList i = v[i] := by
  rw [entry, List.getD_eq_getElem?_getD, List.getElem?_eq_getElem (by simpa using h)]
  rfl

theorem tap_eq {n i : ℕ} (v : Vector Int16 n) (h : i < n) : tap v i = v[i].toInt :=
  congrArg Int16.toInt (entry_toList v h)

@[simp] theorem saturate16?_eq (amp : ℤ) : saturate16? amp = some (saturate16 amp) := by
  unfold saturate16? saturate16
  split_ifs
  · rfl
  · rfl
  · exact int16?_eq (by omega)

@[simp] theorem saturate15?_eq (amp : ℤ) : saturate15? amp = some (saturate15 amp) := by
  unfold saturate15? saturate15
  split_ifs
  · rfl
  · rfl
  · exact int16?_eq (by omega)

@[simp] theorem satAdd16?_eq (a b : Int16) : satAdd16? a b = some (satAdd16 a b) := by
  have ha := toInt_range a
  have hb := toInt_range b
  have hfits : int32? (a.toInt + b.toInt) = some (a.toInt + b.toInt) := int32?_eq (by omega)
  rw [satAdd16?, hfits]
  exact saturate16?_eq _

@[simp] theorem satSub16?_eq (a b : Int16) : satSub16? a b = some (satSub16 a b) := by
  have ha := toInt_range a
  have hb := toInt_range b
  have hfits : int32? (a.toInt - b.toInt) = some (a.toInt - b.toInt) := int32?_eq (by omega)
  rw [satSub16?, hfits]
  exact saturate16?_eq _

/-- A value that is clamped between two others. -/
theorem toInt_clamp {lo hi : Int16} (h : lo.toInt ≤ hi.toInt) (amp : ℤ) :
    (if amp > hi.toInt then hi else if amp < lo.toInt then lo else Int16.ofInt amp).toInt =
      max lo.toInt (min hi.toInt amp) := by
  have hlo := toInt_range lo
  have hhi := toInt_range hi
  split_ifs
  · omega
  · omega
  · rw [toInt_ofInt (by omega)]
    omega

theorem saturate16_toInt (amp : ℤ) :
    (saturate16 amp).toInt = max (-32768) (min 32767 amp) :=
  @toInt_clamp (-32768) 32767 (by decide) amp

theorem saturate15_toInt (amp : ℤ) :
    (saturate15 amp).toInt = max (-16384) (min 16383 amp) :=
  @toInt_clamp (-16384) 16383 (by decide) amp

theorem saturate15_range (amp : ℤ) :
    -16384 ≤ (saturate15 amp).toInt ∧ (saturate15 amp).toInt ≤ 16383 := by
  rw [saturate15_toInt]
  omega

/-- A right shift is a division. -/
theorem shiftRight_eq_div (v : ℤ) (n : ℕ) : v.shiftRight n = v / (2 ^ n : ℕ) := by
  rw [← Int.shiftRight_eq, Int.shiftRight_eq_div_pow]

/-- A product whose upper half fits. -/
theorem mulShr15?_eq {a : Int16} {k : ℤ}
    (h : -1073709056 ≤ a.toInt * k ∧ a.toInt * k ≤ 1073709056) :
    mulShr15? a k = some (Int16.ofInt ((a.toInt * k).shiftRight 15)) := by
  have hfits : int32? (a.toInt * k) = some (a.toInt * k) := int32?_eq (by omega)
  have hupper : -32768 ≤ (a.toInt * k).shiftRight 15 ∧ (a.toInt * k).shiftRight 15 ≤ 32767 := by
    rw [shiftRight_eq_div]
    omega
  rw [mulShr15?, hfits]
  exact int16?_eq hupper

/-! ## Filters -/

/-- The bound of a product of `circ_dot12`. -/
def productBound (coeffs : List ℤ) (k : ℕ) : ℤ := 32768 * |entry coeffs k|

theorem product?_eq (x : Vector Int16 12) {coeffs : List ℤ} {i k : ℕ} (hi : i < 12)
    (hk : k < coeffs.length) (hcoeff : |entry coeffs k| ≤ 32768) :
    product? x coeffs i k = some (tap x i * entry coeffs k) ∧
      -productBound coeffs k ≤ tap x i * entry coeffs k ∧
      tap x i * entry coeffs k ≤ productBound coeffs k := by
  have htap := toInt_range (x.toList.getD i 0)
  have hrange := mul_range (x := tap x i) (y := entry coeffs k) (a := 32768)
    (b := |entry coeffs k|) (by unfold tap; omega) ⟨neg_abs_le _, le_abs_self _⟩
  have hx : x.toList[i]? = some (x.toList.getD i 0) := by
    rw [List.getD_eq_getElem?_getD, List.getElem?_eq_getElem (by simpa using hi),
      Option.getD_some]
  refine ⟨?_, hrange⟩
  rw [product?, hx, getElem?_entry hk]
  simp only [Option.bind_eq_bind, Option.bind_some]
  exact int32?_eq (by unfold tap at hrange; omega)

/-- The products of a whole `circ_dot12` add up to a value in range. -/
def CoeffsFit (coeffs : List ℤ) : Prop :=
  coeffs.length = 12 ∧ (∀ k < 12, |entry coeffs k| ≤ 32768) ∧
    ∀ pos < 12, ((List.range (12 - pos)).map (productBound coeffs)).sum +
      ((List.range pos).map fun k => productBound coeffs (12 - pos + k)).sum = 212402176

theorem coeffsFit_fwd : CoeffsFit qmfCoeffsFwd := by
  refine ⟨rfl, ?_, ?_⟩ <;> decide +kernel

theorem coeffsFit_rev : CoeffsFit qmfCoeffsRev := by
  refine ⟨rfl, ?_, ?_⟩ <;> decide +kernel

/-- **The sums of the QMF**: no partial sum overflows, and the result is bounded
by the mass of the coefficients. -/
theorem circDot12?_eq (x : Vector Int16 12) {coeffs : List ℤ} (h : CoeffsFit coeffs) {pos : ℕ}
    (hpos : pos < 12) :
    circDot12? x coeffs pos = some (circDot12 x coeffs pos) ∧
      -212402176 ≤ circDot12 x coeffs pos ∧ circDot12 x coeffs pos ≤ 212402176 := by
  obtain ⟨hlen, hcoeff, hsum⟩ := h
  have hsum := hsum pos hpos
  have hnonneg : ∀ k, 0 ≤ productBound coeffs k := fun k =>
    mul_nonneg (by decide) (abs_nonneg _)
  have hsecond : 0 ≤ ((List.range pos).map fun k => productBound coeffs (12 - pos + k)).sum := by
    apply List.sum_nonneg
    intro w hw
    obtain ⟨k, -, rfl⟩ := List.mem_map.mp hw
    exact hnonneg _
  obtain ⟨hfold, hrange⟩ := foldlM_int32?
    (fun i => product? x coeffs (pos + i) i)
    (fun i => tap x (pos + i) * entry coeffs i)
    (productBound coeffs) (List.range (12 - pos)) (by
      intro i hi
      have hi := List.mem_range.mp hi
      exact product?_eq x (by omega) (by omega) (hcoeff i (by omega)))
    (z := 0) (b := 0) (by decide) (by omega)
  obtain ⟨hfold', hrange'⟩ := foldlM_int32?
    (fun k => product? x coeffs k (12 - pos + k))
    (fun k => tap x k * entry coeffs (12 - pos + k))
    (fun k => productBound coeffs (12 - pos + k)) (List.range pos) (by
      intro k hk
      have hk := List.mem_range.mp hk
      exact product?_eq x (by omega) (by omega) (hcoeff _ (by omega)))
    hrange (by omega)
  refine ⟨?_, ?_⟩
  · rw [circDot12?, hfold]
    simp only [Option.bind_eq_bind, Option.bind_some]
    exact hfold'
  · unfold circDot12
    simp only
    omega

/-- A product by a constant whose upper half fits. -/
theorem mulShr15?_const (a : Int16) {k : ℤ} (h : -32767 ≤ k ∧ k ≤ 32767) :
    mulShr15? a k = some (Int16.ofInt ((a.toInt * k).shiftRight 15)) := by
  have hrange := mul_range (toInt_range a |>.imp_right fun h => by omega : -32768 ≤ a.toInt ∧
    a.toInt ≤ 32768) h
  exact mulShr15?_eq (by omega)

theorem store?_eq {n i : ℕ} (x : Vector Int16 n) (h : i < n) (v : Int16) :
    store? x i v = some (x.set i v) :=
  dif_pos h

/-- The loop of `block4`: what is left to add is bounded by the turns left. -/
theorem filtez?_eq (dx wd1 : Int16) (hwd1 : wd1 = 0 ∨ wd1 = 128) :
    ∀ (n : ℕ) (hn : n ≤ 6) (b : Vector Int16 6) (d : Vector Int16 7) (sz : ℤ),
      -(32768 * (6 - n : ℤ)) ≤ sz ∧ sz ≤ 32768 * (6 - n : ℤ) →
      filtez? dx wd1 n b d sz = some (filtez dx wd1 n hn b d sz) := by
  intro n
  induction n with
  | zero => exact fun _ _ _ _ _ => rfl
  | succ n ih =>
    intro hn b d sz hsz
    have hneg : int16? (-wd1.toInt) = some (Int16.ofInt (-wd1.toInt)) := by
      obtain rfl | rfl := hwd1 <;> rfl
    have hwd2 : (if signsDiffer d[n + 1] dx then int16? (-wd1.toInt) else some wd1) =
        some (if signsDiffer d[n + 1] dx then Int16.ofInt (-wd1.toInt) else wd1) := by
      rw [hneg]
      split <;> rfl
    have hd : d[n]? = some d[n] := Vector.getElem?_eq_getElem (by omega)
    have hd' : d[n + 1]? = some d[n + 1] := Vector.getElem?_eq_getElem (by omega)
    have hb : b[n]? = some b[n] := Vector.getElem?_eq_getElem (by omega)
    rw [filtez?, filtez]
    simp only [hd, hd', hb, hwd2, Option.bind_eq_bind, Option.bind_some,
      mulShr15?_const _ (k := 32640) (by decide), satAdd16?_eq]
    generalize satAdd16 _ _ = bi
    generalize satAdd16 d[n] d[n] = dd
    have hbi := toInt_range bi
    have hdd := toInt_range dd
    have hprod := mul_range (a := 32768) (b := 32768) (x := bi.toInt) (y := dd.toInt)
      (by omega) (by omega)
    have hshift : -32768 ≤ (bi.toInt * dd.toInt).shiftRight 15 ∧
        (bi.toInt * dd.toInt).shiftRight 15 ≤ 32768 := by
      rw [shiftRight_eq_div]
      omega
    have hb : store? b n bi = some (b.set n bi) := store?_eq b (by omega) bi
    have hd : store? d (n + 1) d[n] = some (d.set (n + 1) d[n]) := store?_eq d (by omega) d[n]
    rw [int32?_eq (by omega), Option.bind_some, int32?_eq (by push_cast at hsz; omega),
      Option.bind_some, hb, Option.bind_some, hd, Option.bind_some]
    exact ih _ _ _ _ (by push_cast at hsz; omega)

/-- **UPPOL2** fits as long as the second pole coefficient is bounded. -/
theorem uppol2?_eq {s : G722Band} (ha : -12288 ≤ tap s.a 1 ∧ tap s.a 1 ≤ 12288)
    (p : Int16) : uppol2? s p = some (uppol2 s p) := by
  rw [tap_eq s.a (by decide)] at ha
  have ha0 := toInt_range s.a[0]
  have hfits : int32? (s.a[0].toInt * 4) = some (s.a[0].toInt * 4) := int32?_eq (by omega)
  have hreads : s.a[0]? = some s.a[0] ∧ s.a[1]? = some s.a[1] ∧ s.p[0]? = some s.p[0] ∧
      s.p[1]? = some s.p[1] := ⟨rfl, rfl, rfl, rfl⟩
  unfold uppol2? uppol2
  simp only [hreads, hfits, Option.bind_eq_bind, Option.bind_some, saturate16?_eq]
  generalize saturate16 (s.a[0].toInt * 4) = wd1
  have hwd1 := toInt_range wd1
  have hsign : (if signsDiffer p s.p[0] then some wd1.toInt else int32? (-wd1.toInt)) =
      some (if signsDiffer p s.p[0] then wd1.toInt else -wd1.toInt) := by
    rw [int32?_eq (by omega)]
    split <;> rfl
  have hwd32 : -32768 ≤ (if signsDiffer p s.p[0] then wd1.toInt else -wd1.toInt) ∧
      (if signsDiffer p s.p[0] then wd1.toInt else -wd1.toInt) ≤ 32768 := by
    split <;> omega
  rw [hsign, Option.bind_some]
  generalize (if signsDiffer p s.p[0] then wd1.toInt else -wd1.toInt) = wd32 at hwd32 ⊢
  have hshift : -256 ≤ (if wd32 > 32767 then 32767 else wd32).shiftRight 7 ∧
      (if wd32 > 32767 then 32767 else wd32).shiftRight 7 ≤ 255 := by
    rw [shiftRight_eq_div]
    split <;> omega
  generalize (if wd32 > 32767 then 32767 else wd32).shiftRight 7 = wd at hshift ⊢
  have hdelta : -128 ≤ (if signsDiffer p s.p[1] then -128 else 128 : ℤ) ∧
      (if signsDiffer p s.p[1] then -128 else 128 : ℤ) ≤ 128 := by
    split <;> decide
  generalize (if signsDiffer p s.p[1] then -128 else 128 : ℤ) = delta at hdelta ⊢
  have hpole : -12192 ≤ (s.a[1].toInt * 32512).shiftRight 15 ∧
      (s.a[1].toInt * 32512).shiftRight 15 ≤ 12192 := by
    rw [shiftRight_eq_div]
    omega
  rw [int32?_eq (by omega), Option.bind_some, int32?_eq (by omega), Option.bind_some,
    int32?_eq (by omega), Option.bind_some]
  exact int16?_eq (by omega)

/-! ## The predictor -/

/-- The poles of a predictor are where they keep it stable. -/
structure PolesInRange (s : G722Band) : Prop where
  /-- `|a[1]| ≤ 12288` -/
  second : -12288 ≤ tap s.a 1 ∧ tap s.a 1 ≤ 12288
  /-- `|a[0]| ≤ 15360 - a[1]` -/
  first : -(15360 - tap s.a 1) ≤ tap s.a 0 ∧ tap s.a 0 ≤ 15360 - tap s.a 1

theorem limit2_range (wd3 : Int16) :
    -12288 ≤ (limit2 wd3).toInt ∧ (limit2 wd3).toInt ≤ 12288 := by
  unfold limit2
  split_ifs
  · decide
  · decide
  · omega

/-- The limiter of UPPOL1, without the check. -/
def limit1 (ap0 wd3 : Int16) : Int16 :=
  if (ap0.toInt.natAbs : ℤ) > wd3.toInt then (if ap0 < 0 then Int16.ofInt (-wd3.toInt) else wd3)
  else ap0

theorem limit1?_eq {wd3 : Int16} (h : 0 ≤ wd3.toInt) (ap0 : Int16) :
    limit1? ap0 wd3 = some (limit1 ap0 wd3) ∧
      -wd3.toInt ≤ (limit1 ap0 wd3).toInt ∧ (limit1 ap0 wd3).toInt ≤ wd3.toInt := by
  have hwd3 := toInt_range wd3
  unfold limit1? limit1
  split_ifs
  · rw [toInt_ofInt (by omega)]
    exact ⟨int16?_eq (by omega), by omega⟩
  · exact ⟨rfl, by omega⟩
  · exact ⟨rfl, by omega⟩

theorem satSub16_pole {ap1 : Int16} (h : -12288 ≤ ap1.toInt ∧ ap1.toInt ≤ 12288) :
    (satSub16 15360 ap1).toInt = 15360 - ap1.toInt := by
  have hconst : (15360 : Int16).toInt = 15360 := rfl
  rw [satSub16, saturate16, hconst, if_neg (by omega), if_neg (by omega), toInt_ofInt (by omega)]

/-- UPPOL1, without the checks. -/
def uppol1 (s : G722Band) (p ap1 : Int16) : Int16 :=
  limit1 (satAdd16 (if signsDiffer p (entry s.p.toList 0) then -192 else 192)
    (Int16.ofInt ((tap s.a 0 * 32640).shiftRight 15))) (satSub16 15360 ap1)

/-- **UPPOL1** keeps the first pole coefficient in reach of the second. -/
theorem uppol1?_eq (s : G722Band) (p : Int16) {ap1 : Int16}
    (h : -12288 ≤ ap1.toInt ∧ ap1.toInt ≤ 12288) :
    uppol1? s p ap1 = some (uppol1 s p ap1) ∧
      -(15360 - ap1.toInt) ≤ (uppol1 s p ap1).toInt ∧
      (uppol1 s p ap1).toInt ≤ 15360 - ap1.toInt := by
  have hsub := satSub16_pole h
  have hpos : 0 ≤ (satSub16 15360 ap1).toInt := by omega
  have hp : s.p[0]? = some s.p[0] := rfl
  have ha : s.a[0]? = some s.a[0] := rfl
  unfold uppol1
  rw [entry_toList s.p (by decide), tap_eq s.a (by decide)]
  obtain ⟨hlimit, hrange⟩ := limit1?_eq hpos (satAdd16 (if signsDiffer p s.p[0] then -192 else 192)
    (Int16.ofInt ((s.a[0].toInt * 32640).shiftRight 15)))
  rw [hsub] at hrange
  refine ⟨?_, hrange⟩
  rw [uppol1?, hp, ha]
  simp only [Option.bind_eq_bind, Option.bind_some, satAdd16?_eq, satSub16?_eq,
    mulShr15?_const _ (k := 32640) (by decide)]
  exact hlimit

theorem mulShr15?_pole {a : Int16} (h : -27648 ≤ a.toInt ∧ a.toInt ≤ 27648) (k : Int16) :
    mulShr15? a k.toInt = some (Int16.ofInt ((a.toInt * k.toInt).shiftRight 15)) := by
  have hk := toInt_range k
  have hrange := mul_range (b := 32768) h (by omega : -32768 ≤ k.toInt ∧ k.toInt ≤ 32768)
  exact mulShr15?_eq (by omega)

/-- FILTEP, without the checks. -/
def filtep (s : G722Band) (r ap0 ap1 : Int16) : Int16 :=
  satAdd16 (Int16.ofInt ((ap0.toInt * (satAdd16 r r).toInt).shiftRight 15))
    (Int16.ofInt ((ap1.toInt * (satAdd16 s.r s.r).toInt).shiftRight 15))

theorem filtep?_eq (s : G722Band) (r : Int16) {ap0 ap1 : Int16}
    (h0 : -27648 ≤ ap0.toInt ∧ ap0.toInt ≤ 27648) (h1 : -27648 ≤ ap1.toInt ∧ ap1.toInt ≤ 27648) :
    filtep? s r ap0 ap1 = some (filtep s r ap0 ap1) := by
  unfold filtep?
  simp only [satAdd16?_eq, Option.bind_eq_bind, Option.bind_some, mulShr15?_pole h0,
    mulShr15?_pole h1]
  rfl

theorem block4_a (s : G722Band) (dx : Int16) :
    (block4 s dx).a = #v[uppol1 s (satAdd16 s.sz dx) (limit2 (uppol2 s (satAdd16 s.sz dx))),
      limit2 (uppol2 s (satAdd16 s.sz dx))] := by
  unfold uppol1
  rw [entry_toList s.p (by decide), tap_eq s.a (by decide)]
  rfl

/-- **The poles are limited** after every update. -/
theorem block4_poles (s : G722Band) (dx : Int16) : PolesInRange (block4 s dx) := by
  have ha := block4_a s dx
  generalize hap1 : limit2 (uppol2 s (satAdd16 s.sz dx)) = ap1 at ha
  have hsecond : -12288 ≤ ap1.toInt ∧ ap1.toInt ≤ 12288 := hap1 ▸ limit2_range _
  obtain ⟨-, hfirst⟩ := uppol1?_eq s (satAdd16 s.sz dx) hsecond
  have ha0 : (block4 s dx).a[0] = uppol1 s (satAdd16 s.sz dx) ap1 := by
    simp only [ha]
    rfl
  have ha1 : (block4 s dx).a[1] = ap1 := by
    simp only [ha]
    rfl
  refine ⟨?_, ?_⟩
  · rw [tap_eq _ (by decide), ha1]
    exact hsecond
  · rw [tap_eq _ (by decide), tap_eq _ (by decide), ha0, ha1]
    exact hfirst

/-- **The predictor update** fits as long as the poles are in range. -/
theorem block4?_eq {s : G722Band} (h : PolesInRange s) (dx : Int16) :
    block4? s dx = some (block4 s dx) := by
  have hsecond := limit2_range (uppol2 s (satAdd16 s.sz dx))
  obtain ⟨huppol1, hfirst⟩ := uppol1?_eq s (satAdd16 s.sz dx) hsecond
  generalize hap1 : limit2 (uppol2 s (satAdd16 s.sz dx)) = ap1 at hsecond huppol1 hfirst
  have hfiltep := filtep?_eq s (satAdd16 s.s dx)
    (by omega : -27648 ≤ (uppol1 s (satAdd16 s.sz dx) ap1).toInt ∧ _)
    (by omega : -27648 ≤ ap1.toInt ∧ _)
  have hwd1 : (if dx = 0 then 0 else 128 : Int16) = 0 ∨
      (if dx = 0 then 0 else 128 : Int16) = 128 := by
    split
    · exact .inl rfl
    · exact .inr rfl
  have hfiltez := filtez?_eq dx _ hwd1 6 (le_refl 6) s.b (s.d.set 0 dx) 0 (by decide)
  have hstore : store? s.d 0 dx = some (s.d.set 0 dx) := store?_eq s.d (by decide) dx
  have hp : s.p[0]? = some s.p[0] := rfl
  have ha := block4_a s dx
  rw [hap1] at ha
  unfold block4?
  simp only [Option.bind_eq_bind, Option.bind_some, satAdd16?_eq, uppol2?_eq h.second, hap1,
    huppol1, hfiltep, hstore, hfiltez, saturate16?_eq, hp]
  rw [← ha]
  subst hap1
  unfold uppol1
  rw [entry_toList s.p (by decide), tap_eq s.a (by decide)]
  rfl

/-! ## The step size -/

theorem ilb_range (i : ℕ) (hi : i < 32) : 2048 ≤ entry ilb i ∧ entry ilb i ≤ 4008 := by
  revert i
  decide

/-- **The step size** of a scale factor in range: the one scale factor for which
the shift goes left is the largest. -/
theorem scale?_eq (shift : ℤ) {lo : ℤ} (hband : shift = 8 ∧ lo = 32 ∨ shift = 10 ∧ lo = 8)
    {nb : Int16} (h : 0 ≤ nb.toInt ∧ nb.toInt ≤ (shift + 1) * 2048) :
    scale? shift nb = some (scale shift nb) ∧
      lo ≤ (scale shift nb).toInt ∧ (scale shift nb).toInt ≤ 16384 := by
  have hwd1 : (nb.toInt.shiftRight 6 % 32).toNat < 32 := by omega
  have hlevel := ilb_range _ hwd1
  have hentry := getElem?_entry (t := ilb) hwd1
  have hq : nb.toInt.shiftRight 11 = nb.toInt / 2048 := shiftRight_eq_div _ 11
  have hidx : nb.toInt.shiftRight 6 = nb.toInt / 64 := shiftRight_eq_div _ 6
  unfold scale? scale
  simp only [hentry, Option.bind_eq_bind, Option.bind_some]
  by_cases hneg : shift - nb.toInt.shiftRight 11 < 0
  · -- the scale factor is at its clamp
    have hnb : nb.toInt = (shift + 1) * 2048 := by omega
    have hzero : (nb.toInt.shiftRight 6 % 32).toNat = 0 := by omega
    have hone : -(shift - nb.toInt.shiftRight 11) = 1 := by omega
    rw [if_pos hneg, if_pos hneg, hone, hzero]
    obtain ⟨-, rfl⟩ | ⟨-, rfl⟩ := hband
    · exact ⟨rfl, by decide, by decide⟩
    · exact ⟨rfl, by decide, by decide⟩
  · rw [if_neg hneg, if_neg hneg, amount?_eq (by omega), Option.map_some, Option.bind_some]
    generalize entry ilb (nb.toInt.shiftRight 6 % 32).toNat = level at hlevel ⊢
    have hn : (shift - nb.toInt.shiftRight 11).toNat ≤ shift.toNat := by omega
    generalize (shift - nb.toInt.shiftRight 11).toNat = n at hn ⊢
    have hwd3 : lo ≤ level.shiftRight n * 4 ∧ level.shiftRight n * 4 ≤ 16032 := by
      rw [shiftRight_eq_div]
      obtain ⟨rfl, rfl⟩ | ⟨rfl, rfl⟩ := hband
      · have hn : n ≤ 8 := hn
        interval_cases n <;> omega
      · have hn : n ≤ 10 := hn
        interval_cases n <;> omega
    have hlo : 8 ≤ lo := by omega
    rw [int32?_eq (by omega), Option.bind_some, int16?_eq (by omega), toInt_ofInt (by omega)]
    exact ⟨rfl, by omega⟩

/-! ## The quantisers -/

theorem q6_range (i : ℕ) (hi : i < 30) : 0 ≤ entry q6 i ∧ entry q6 i ≤ 2919 := by
  revert i
  decide

/-- **The search** stays inside of the decision levels. -/
theorem quantl?_eq (wd : ℤ) {det : Int16} (hdet : 8 ≤ det.toInt ∧ det.toInt ≤ 16384) :
    ∀ n i, 1 ≤ i → i + n ≤ 30 →
      quantl? wd det n i = some (quantl wd det n i) ∧ 1 ≤ quantl wd det n i ∧
        quantl wd det n i ≤ 30 := by
  intro n
  induction n with
  | zero => exact fun i hpos hle => ⟨rfl, hpos, hle⟩
  | succ n ih =>
    intro i hpos hle
    have hq := q6_range i (by omega)
    have hprod := mul_range (x := entry q6 i) (y := det.toInt) (a := 2919) (b := 16384)
      (by omega) (by omega)
    have hlen : i < q6.length := by
      show i < 32
      omega
    unfold quantl? quantl
    rw [getElem?_entry hlen]
    simp only [Option.bind_eq_bind, Option.bind_some, int32?_eq
      (v := entry q6 i * det.toInt) (by omega)]
    split
    · exact ⟨rfl, hpos, by omega⟩
    · exact ih (i + 1) (by omega) (by omega)

/-- A table entry times a step size, halved fifteen times. -/
theorem mulShr15?_det {det : Int16} (hdet : 8 ≤ det.toInt ∧ det.toInt ≤ 16384) {k : ℤ}
    (hk : -32768 ≤ k ∧ k ≤ 32768) :
    mulShr15? det k = some (Int16.ofInt ((det.toInt * k).shiftRight 15)) := by
  have hrange := mul_range (x := det.toInt) (y := k) (a := 16384) (b := 32768) (by omega) hk
  exact mulShr15?_eq (by omega)

/-- The scale factor's update, in both directions. -/
theorem nb_update (top : Int16) {nb : Int16} (htop : 0 ≤ top.toInt ∧ top.toInt ≤ 22528)
    (hnb : 0 ≤ nb.toInt ∧ nb.toInt ≤ top.toInt) {w : ℤ} (hw : -214 ≤ w ∧ w ≤ 3042) :
    (encodeNb? top nb w = some (encodeNb top nb w) ∧
        0 ≤ (encodeNb top nb w).toInt ∧ (encodeNb top nb w).toInt ≤ top.toInt) ∧
      decodeNb? top.toInt nb w = some (decodeNb top.toInt nb w) ∧
        0 ≤ (decodeNb top.toInt nb w).toInt ∧ (decodeNb top.toInt nb w).toInt ≤ top.toInt := by
  obtain ⟨hsame, hrange⟩ := encodeNb_eq_decodeNb top nb htop hnb hw
  have hwd : 0 ≤ (nb.toInt * 127).shiftRight 7 ∧ (nb.toInt * 127).shiftRight 7 ≤ 22528 := by
    rw [shiftRight_eq_div]
    omega
  have hprod : int32? (nb.toInt * 127) = some (nb.toInt * 127) := int32?_eq (by omega)
  have hsum : int32? ((nb.toInt * 127).shiftRight 7 + w) =
      some ((nb.toInt * 127).shiftRight 7 + w) := int32?_eq (by omega)
  refine ⟨⟨?_, hrange⟩, ?_, ?_⟩
  · rw [encodeNb?, hprod]
    simp only [Option.bind_eq_bind, Option.bind_some, hsum,
      int16?_eq (v := (nb.toInt * 127).shiftRight 7 + w) (by omega)]
    rfl
  · rw [decodeNb?, hprod]
    simp only [Option.bind_eq_bind, Option.bind_some, hsum]
    exact int16?_eq (by split_ifs <;> omega)
  · rw [← hsame]
    exact hrange

/-! ## The bands -/

/-- The bounds of a band: `top` is the clamp of its scale factor, and `lo` its
least step size. -/
structure BandInRange (top lo : ℤ) (band : G722Band) : Prop where
  /-- the scale factor -/
  nb : 0 ≤ band.nb.toInt ∧ band.nb.toInt ≤ top
  /-- the step size -/
  det : lo ≤ band.det.toInt ∧ band.det.toInt ≤ 16384
  /-- the poles -/
  poles : PolesInRange band

@[simp] theorem block4_det (s : G722Band) (dx : Int16) : (block4 s dx).det = s.det := by
  simp only [block4]

/-- The update of a band: with a scale factor and a step size in range the band
is in range. -/
theorem block4_inRange {top lo : ℤ} {band : G722Band} (h : PolesInRange band) {nb det : Int16}
    (hnb : 0 ≤ nb.toInt ∧ nb.toInt ≤ top) (hdet : lo ≤ det.toInt ∧ det.toInt ≤ 16384)
    (dx : Int16) :
    block4? { band with nb := nb, det := det } dx =
        some (block4 { band with nb := nb, det := det } dx) ∧
      BandInRange top lo (block4 { band with nb := nb, det := det } dx) := by
  have hpoles : PolesInRange { band with nb := nb, det := det } := ⟨h.second, h.first⟩
  refine ⟨block4?_eq hpoles dx, ?_, ?_, block4_poles _ dx⟩
  · rw [block4_nb]
    exact hnb
  · rw [block4_det]
    exact hdet

theorem qm4_range (i : ℕ) : -32768 ≤ entry qm4 i ∧ entry qm4 i ≤ 32768 :=
  entry_of_forall (P := fun v => -32768 ≤ v ∧ v ≤ 32768) (by decide) (by decide) i

theorem qm2_range (i : ℕ) : -32768 ≤ entry qm2 i ∧ entry qm2 i ≤ 32768 :=
  entry_of_forall (P := fun v => -32768 ≤ v ∧ v ≤ 32768) (by decide) (by decide) i

theorem qm6_range (i : ℕ) : -32768 ≤ entry qm6 i ∧ entry qm6 i ≤ 32768 :=
  entry_of_forall (P := fun v => -32768 ≤ v ∧ v ≤ 32768) (by decide +kernel) (by decide) i

/-- The scale factor of the low band is looked up through two tables. -/
theorem wl_lookup {ril : ℕ} (h : ril < 16) :
    rl42[ril]? = some (entry rl42 ril) ∧
      wl[entry rl42 ril]? = some (entry wl (entry rl42 ril)) ∧
      -214 ≤ entry wl (entry rl42 ril) ∧ entry wl (entry rl42 ril) ≤ 3042 := by
  have hrl : entry rl42 ril < 8 := entry_of_forall (P := (· < 8)) (by decide) (by decide) ril
  exact ⟨getElem?_entry h, getElem?_entry hrl,
    entry_of_forall (P := fun v => -214 ≤ v ∧ v ≤ 3042) (by decide) (by decide) _⟩

/-- That of the high band too. -/
theorem wh_lookup {ihigh : ℕ} (h : ihigh < 4) :
    rh2[ihigh]? = some (entry rh2 ihigh) ∧
      wh[entry rh2 ihigh]? = some (entry wh (entry rh2 ihigh)) ∧
      -214 ≤ entry wh (entry rh2 ihigh) ∧ entry wh (entry rh2 ihigh) ≤ 3042 := by
  have hrh : entry rh2 ihigh < 3 := entry_of_forall (P := (· < 3)) (by decide) (by decide) ihigh
  exact ⟨getElem?_entry h, getElem?_entry hrh,
    entry_of_forall (P := fun v => -214 ≤ v ∧ v ≤ 3042) (by decide) (by decide) _⟩

/-- **The low band of the encoder.** -/
theorem encodeLow?_eq {band : G722Band} (h : BandInRange 18432 32 band) (xlow : Int16) :
    encodeLow? band xlow = some (encodeLow band xlow) ∧
      BandInRange 18432 32 (encodeLow band xlow).1 := by
  have hdet : 8 ≤ band.det.toInt ∧ band.det.toInt ≤ 16384 := by
    have hlo := h.det
    omega
  have hcode := encodeLow_code_lt band xlow
  unfold encodeLow at hcode ⊢
  unfold encodeLow?
  simp only [satSub16?_eq, Option.bind_eq_bind, Option.bind_some] at hcode ⊢
  generalize (satSub16 xlow band.s).toInt = el at hcode ⊢
  generalize (if el ≥ 0 then el else -el - 1) = wd at hcode ⊢
  obtain ⟨hsearch, hpos, hle⟩ := quantl?_eq wd hdet 29 1 (le_refl 1) (le_refl 30)
  rw [hsearch, Option.bind_some]
  generalize quantl wd band.det 29 1 = i at hcode hpos hle ⊢
  have hlookup : (if el < 0 then iln[i]? else ilp[i]?) =
      some (if el < 0 then entry iln i else entry ilp i) := by
    have hi : i < 32 := by omega
    rw [getElem?_entry (t := iln) hi, getElem?_entry (t := ilp) hi]
    split <;> rfl
  rw [hlookup, Option.bind_some]
  generalize (if el < 0 then entry iln i else entry ilp i) = ilow at hcode ⊢
  have hril : ilow >>> 2 < 16 := by
    rw [Nat.shiftRight_eq_div_pow]
    omega
  generalize ilow >>> 2 = ril at hril ⊢
  obtain ⟨hrl, hwl, hw⟩ := wl_lookup hril
  obtain ⟨⟨hnb, hnbRange⟩, -⟩ := nb_update 18432 (by decide) h.nb hw
  obtain ⟨hscale, hdetRange⟩ := scale?_eq 8 (.inl ⟨rfl, rfl⟩) hnbRange
  obtain ⟨hblock, hband⟩ := block4_inRange h.poles hnbRange hdetRange
    (Int16.ofInt ((band.det.toInt * entry qm4 ril).shiftRight 15))
  rw [getElem?_entry (t := qm4) hril, Option.bind_some, mulShr15?_det hdet (qm4_range ril),
    Option.bind_some, hrl, Option.bind_some, hwl, Option.bind_some, hnb, Option.bind_some, hscale,
    Option.bind_some, hblock, Option.bind_some]
  exact ⟨rfl, hband⟩

/-- **The high band of the encoder.** -/
theorem encodeHigh?_eq {band : G722Band} (h : BandInRange 22528 8 band) (xhigh : Int16) :
    encodeHigh? band xhigh = some (encodeHigh band xhigh) ∧
      BandInRange 22528 8 (encodeHigh band xhigh).1 := by
  have hdet := h.det
  have hcode := encodeHigh_code_lt band xhigh
  unfold encodeHigh at hcode ⊢
  unfold encodeHigh?
  simp only [satSub16?_eq, Option.bind_eq_bind, Option.bind_some] at hcode ⊢
  generalize (satSub16 xhigh band.s).toInt = eh at hcode ⊢
  generalize (if eh ≥ 0 then eh else -eh - 1) = wd at hcode ⊢
  rw [int32?_eq (v := 564 * band.det.toInt) (by omega), Option.bind_some]
  have hmih : (if wd ≥ (564 * band.det.toInt).shiftRight 12 then 2 else 1) < 3 := by
    split <;> decide
  generalize (if wd ≥ (564 * band.det.toInt).shiftRight 12 then 2 else 1) = mih at hcode hmih ⊢
  have hlookup : (if eh < 0 then ihn[mih]? else ihp[mih]?) =
      some (if eh < 0 then entry ihn mih else entry ihp mih) := by
    rw [getElem?_entry (t := ihn) hmih, getElem?_entry (t := ihp) hmih]
    split <;> rfl
  rw [hlookup, Option.bind_some]
  generalize (if eh < 0 then entry ihn mih else entry ihp mih) = ihigh at hcode ⊢
  obtain ⟨hrh, hwh, hw⟩ := wh_lookup hcode
  obtain ⟨⟨hnb, hnbRange⟩, -⟩ := nb_update 22528 (by decide) h.nb hw
  obtain ⟨hscale, hdetRange⟩ := scale?_eq 10 (.inr ⟨rfl, rfl⟩) hnbRange
  obtain ⟨hblock, hband⟩ := block4_inRange h.poles hnbRange hdetRange
    (Int16.ofInt ((band.det.toInt * entry qm2 ihigh).shiftRight 15))
  rw [getElem?_entry (t := qm2) hcode, Option.bind_some, mulShr15?_det hdet (qm2_range ihigh),
    Option.bind_some, hrh, Option.bind_some, hwh, Option.bind_some, hnb, Option.bind_some, hscale,
    Option.bind_some, hblock, Option.bind_some]
  exact ⟨rfl, hband⟩

/-- **The low band of the decoder**, for every octet. -/
theorem decodeLow?_eq {band : G722Band} (h : BandInRange 18432 32 band) (code : ℕ) :
    decodeLow? band code = some (decodeLow band code) ∧
      BandInRange 18432 32 (decodeLow band code).1 ∧
      -16384 ≤ (decodeLow band code).2 ∧ (decodeLow band code).2 ≤ 16383 := by
  have hdet : 8 ≤ band.det.toInt ∧ band.det.toInt ≤ 16384 := by
    have hlo := h.det
    omega
  have hs := toInt_range band.s
  have hcode : code &&& 0x3F < 64 := Nat.and_lt_two_pow code (by decide : 0x3F < 2 ^ 6)
  unfold decodeLow? decodeLow
  simp only [Option.bind_eq_bind]
  generalize code &&& 0x3F = wd1 at hcode ⊢
  have hqm6 := mul_range (x := band.det.toInt) (a := 16384) (by omega) (qm6_range wd1)
  have hwd2 : -16384 ≤ (band.det.toInt * entry qm6 wd1).shiftRight 15 ∧
      (band.det.toInt * entry qm6 wd1).shiftRight 15 ≤ 16384 := by
    rw [shiftRight_eq_div]
    omega
  rw [getElem?_entry (t := qm6) hcode, Option.bind_some,
    int32?_eq (v := band.det.toInt * entry qm6 wd1) (by omega), Option.bind_some]
  generalize (band.det.toInt * entry qm6 wd1).shiftRight 15 = wd2 at hwd2 ⊢
  have hril : wd1 >>> 2 < 16 := by
    rw [Nat.shiftRight_eq_div_pow]
    omega
  generalize wd1 >>> 2 = ril at hril ⊢
  obtain ⟨hrl, hwl, hw⟩ := wl_lookup hril
  obtain ⟨-, hnb, hnbRange⟩ := nb_update 18432 (by decide) h.nb hw
  obtain ⟨hscale, hdetRange⟩ := scale?_eq 8 (.inl ⟨rfl, rfl⟩) hnbRange
  obtain ⟨hblock, hband⟩ := block4_inRange h.poles hnbRange hdetRange
    (Int16.ofInt ((band.det.toInt * entry qm4 ril).shiftRight 15))
  have htop : (18432 : Int16).toInt = 18432 := rfl
  rw [htop] at hnb hscale hblock hband
  rw [int32?_eq (v := band.s.toInt + wd2) (by omega), Option.bind_some, saturate15?_eq,
    Option.bind_some, getElem?_entry (t := qm4) hril, Option.bind_some,
    mulShr15?_det hdet (qm4_range ril), Option.bind_some, hrl, Option.bind_some, hwl,
    Option.bind_some, hnb, Option.bind_some, hscale, Option.bind_some, hblock, Option.bind_some]
  exact ⟨rfl, hband, saturate15_range _⟩

/-- **The high band of the decoder**, for every octet. -/
theorem decodeHigh?_eq {band : G722Band} (h : BandInRange 22528 8 band) (code : ℕ) :
    decodeHigh? band code = some (decodeHigh band code) ∧
      BandInRange 22528 8 (decodeHigh band code).1 ∧
      -16384 ≤ (decodeHigh band code).2 ∧ (decodeHigh band code).2 ≤ 16383 := by
  have hdet := h.det
  have hs := toInt_range band.s
  have hcode : (code >>> 6) &&& 0x03 < 4 := Nat.and_lt_two_pow _ (by decide : 0x03 < 2 ^ 2)
  unfold decodeHigh? decodeHigh
  simp only [Option.bind_eq_bind]
  generalize (code >>> 6) &&& 0x03 = ihigh at hcode ⊢
  have hdhigh := toInt_range (Int16.ofInt ((band.det.toInt * entry qm2 ihigh).shiftRight 15))
  obtain ⟨hrh, hwh, hw⟩ := wh_lookup hcode
  obtain ⟨-, hnb, hnbRange⟩ := nb_update 22528 (by decide) h.nb hw
  obtain ⟨hscale, hdetRange⟩ := scale?_eq 10 (.inr ⟨rfl, rfl⟩) hnbRange
  obtain ⟨hblock, hband⟩ := block4_inRange h.poles hnbRange hdetRange
    (Int16.ofInt ((band.det.toInt * entry qm2 ihigh).shiftRight 15))
  have htop : (22528 : Int16).toInt = 22528 := rfl
  rw [htop] at hnb hscale hblock hband
  rw [getElem?_entry (t := qm2) hcode, Option.bind_some, mulShr15?_det hdet (qm2_range ihigh),
    Option.bind_some]
  generalize Int16.ofInt ((band.det.toInt * entry qm2 ihigh).shiftRight 15) = dhigh
    at hdhigh hblock hband ⊢
  rw [int32?_eq (v := dhigh.toInt + band.s.toInt) (by omega), Option.bind_some, saturate15?_eq,
    Option.bind_some, hrh, Option.bind_some, hwh, Option.bind_some, hnb, Option.bind_some, hscale,
    Option.bind_some, hblock, Option.bind_some]
  exact ⟨rfl, hband, saturate15_range _⟩

/-! ## The codec -/

/-- The bounds of a codec. -/
structure CodecInRange (c : G722Codec) : Prop where
  /-- the low band -/
  low : BandInRange 18432 32 c.low
  /-- the high band -/
  high : BandInRange 22528 8 c.high
  /-- the circular index -/
  ptr : c.ptr ≤ 11

theorem codecInRange_init : CodecInRange g722Init := by
  refine ⟨⟨?_, ?_, ?_, ?_⟩, ⟨?_, ?_, ?_, ?_⟩, ?_⟩ <;> decide

theorem nextPtr_le (ptr : ℕ) : nextPtr ptr ≤ 11 := by
  unfold nextPtr
  split <;> omega

theorem store?_ptr (x : Vector Int16 12) {ptr : ℕ} (h : ptr ≤ 11) (v : Int16) :
    store? x ptr v = some (x.setIfInBounds ptr v) := by
  have hlt : ptr < 12 := by omega
  have hsame : x.set ptr v = x.setIfInBounds ptr v := by
    apply Vector.toList_inj.mp
    rw [Vector.toList_set, Vector.toList_setIfInBounds]
  rw [store?_eq x hlt, hsame]

/-- What two sums of the QMF add up to fits after the shift. -/
theorem qmf_fits {w : ℤ} (h : -424804352 ≤ w ∧ w ≤ 424804352) :
    int32? w = some w ∧ int16? (w.shiftRight 14) = some (Int16.ofInt (w.shiftRight 14)) := by
  have hupper : -32768 ≤ w.shiftRight 14 ∧ w.shiftRight 14 ≤ 32767 := by
    rw [shiftRight_eq_div]
    omega
  exact ⟨int32?_eq (by omega), int16?_eq hupper⟩

/-- **One sample pair.** -/
theorem encodePair?_eq {c : G722Codec} (h : CodecInRange c) (amp₀ amp₁ : Int16) :
    encodePair? c amp₀ amp₁ = some (encodePair c amp₀ amp₁) ∧
      CodecInRange (encodePair c amp₀ amp₁).1 := by
  have hptr : nextPtr c.ptr < 12 := Nat.lt_succ_of_le (nextPtr_le c.ptr)
  obtain ⟨hodd, hoddRange⟩ := circDot12?_eq (c.x.setIfInBounds c.ptr amp₀) coeffsFit_fwd hptr
  obtain ⟨heven, hevenRange⟩ := circDot12?_eq (c.y.setIfInBounds c.ptr amp₁) coeffsFit_rev hptr
  unfold encodePair? encodePair
  simp only [store?_ptr _ h.ptr, hodd, heven, Option.bind_eq_bind, Option.bind_some]
  generalize circDot12 (c.x.setIfInBounds c.ptr amp₀) qmfCoeffsFwd (nextPtr c.ptr) = sumodd
    at hoddRange ⊢
  generalize circDot12 (c.y.setIfInBounds c.ptr amp₁) qmfCoeffsRev (nextPtr c.ptr) = sumeven
    at hevenRange ⊢
  obtain ⟨hsum, hxlow⟩ := qmf_fits (w := sumeven + sumodd) (by omega)
  obtain ⟨hdiff, hxhigh⟩ := qmf_fits (w := sumeven - sumodd) (by omega)
  obtain ⟨hlow, hlowRange⟩ := encodeLow?_eq h.low
    (Int16.ofInt ((sumeven + sumodd).shiftRight 14))
  obtain ⟨hhigh, hhighRange⟩ := encodeHigh?_eq h.high
    (Int16.ofInt ((sumeven - sumodd).shiftRight 14))
  simp only [hsum, hxlow, hdiff, hxhigh, hlow, hhigh, Option.bind_some]
  exact ⟨rfl, hlowRange, hhighRange, nextPtr_le c.ptr⟩

/-- **One octet.** -/
theorem decodeOctet?_eq {c : G722Codec} (h : CodecInRange c) (octet : UInt8) :
    decodeOctet? c octet = some (decodeOctet c octet) ∧
      CodecInRange (decodeOctet c octet).1 := by
  have hptr : nextPtr c.ptr < 12 := Nat.lt_succ_of_le (nextPtr_le c.ptr)
  obtain ⟨hlow, hlowRange, hrlow⟩ := decodeLow?_eq h.low octet.toNat
  obtain ⟨hhigh, hhighRange, hrhigh⟩ := decodeHigh?_eq h.high octet.toNat
  unfold decodeOctet? decodeOctet
  simp only [hlow, hhigh, Option.bind_eq_bind, Option.bind_some]
  generalize decodeLow c.low octet.toNat = low at hlowRange hrlow ⊢
  generalize decodeHigh c.high octet.toNat = high at hhighRange hrhigh ⊢
  obtain ⟨low, rlow⟩ := low
  obtain ⟨high, rhigh⟩ := high
  simp only at hrlow hrhigh ⊢
  rw [int32?_eq (v := rlow + rhigh) (by omega), Option.bind_some,
    int16?_eq (v := rlow + rhigh) (by omega), Option.bind_some, store?_ptr _ h.ptr,
    Option.bind_some, int32?_eq (v := rlow - rhigh) (by omega), Option.bind_some,
    int16?_eq (v := rlow - rhigh) (by omega), Option.bind_some, store?_ptr _ h.ptr,
    Option.bind_some]
  obtain ⟨heven, -⟩ := circDot12?_eq (c.y.setIfInBounds c.ptr (Int16.ofInt (rlow - rhigh)))
    coeffsFit_rev hptr
  obtain ⟨hodd, -⟩ := circDot12?_eq (c.x.setIfInBounds c.ptr (Int16.ofInt (rlow + rhigh)))
    coeffsFit_fwd hptr
  simp only [heven, hodd, Option.bind_some, saturate16?_eq]
  exact ⟨rfl, hlowRange, hhighRange, nextPtr_le c.ptr⟩

/-! ## Calls -/

/-- A call of `g722_encode`, two samples at a time. -/
theorem g722Encode?_eq : ∀ (amp : List Int16) {c : G722Codec}, CodecInRange c →
    g722Encode? c amp = some (g722Encode c amp) ∧ CodecInRange (g722Encode c amp).1
  | [], _, h => ⟨rfl, h⟩
  | [_], _, h => ⟨rfl, h⟩
  | amp₀ :: amp₁ :: amp, c, h => by
    obtain ⟨hpair, hnext⟩ := encodePair?_eq h amp₀ amp₁
    obtain ⟨hrest, hrange⟩ := g722Encode?_eq amp hnext
    refine ⟨?_, hrange⟩
    rw [g722Encode?, hpair]
    simp only [Option.bind_eq_bind, Option.bind_some, hrest]
    rfl

/-- A call of `g722_decode`. -/
theorem g722Decode?_eq (octets : List UInt8) : ∀ {c : G722Codec}, CodecInRange c →
    g722Decode? c octets = some (g722Decode c octets) ∧ CodecInRange (g722Decode c octets).1 := by
  induction octets with
  | nil => exact fun h => ⟨rfl, h⟩
  | cons octet octets ih =>
    intro c h
    obtain ⟨hoctet, hnext⟩ := decodeOctet?_eq h octet
    obtain ⟨hrest, hrange⟩ := ih hnext
    refine ⟨?_, hrange⟩
    rw [g722Decode?, hoctet]
    simp only [Option.bind_eq_bind, Option.bind_some, hrest]
    rfl

/-- A call on one codec. -/
inductive Call where
  /-- `g722_encode` -/
  | encode (amp : List Int16)
  /-- `g722_decode` -/
  | decode (octets : List UInt8)

/-- The codec after a call. -/
def Call.after (c : G722Codec) : Call → G722Codec
  | .encode amp => (g722Encode c amp).1
  | .decode octets => (g722Decode c octets).1

/-- **The codec stays in its widths**: after any calls from `g722_init` on, the
scale factors, the step sizes, the poles and the circular index are between
their bounds, and in the next call every check succeeds and its result is that
of the codec without checks. -/
theorem g722_inRange (calls : List Call) :
    let c := Runs.run Call.after g722Init calls
    CodecInRange c ∧ (∀ amp, g722Encode? c amp = some (g722Encode c amp)) ∧
      ∀ octets, g722Decode? c octets = some (g722Decode c octets) := by
  intro c
  have hrange : CodecInRange c := by
    apply Runs.run_induct (I := CodecInRange) ?_ calls codecInRange_init
    intro c call h
    cases call with
    | encode amp => exact (g722Encode?_eq amp h).2
    | decode octets => exact (g722Decode?_eq octets h).2
  exact ⟨hrange, fun amp => (g722Encode?_eq amp hrange).1,
    fun octets => (g722Decode?_eq octets hrange).1⟩

end PipecatVoice
