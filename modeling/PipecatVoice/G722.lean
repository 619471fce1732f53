import Mathlib.Data.Vector.Basic
import Mathlib.Data.List.Basic

/-!
# The G.722 codec

The embedding of `domain/g722.hpp` and `src/g722.cpp`: 16 kHz wideband ADPCM at
64 kbit/s, two sub-bands behind a 24-tap QMF, one octet for each pair of
samples. Both directions are stateful, so an uplink encoder and the decoder at
the far end stay useful only as long as their adaptive states agree
(`PipecatVoice.G722Lockstep`).

A C `int16_t` is an `Int16`. What the source computes in `int` or `int32_t` is
computed in `ℤ`, and every `static_cast<int16_t>` of it is an explicit
`Int16.ofInt`, which wraps. Right shifts of negative numbers are arithmetic.
-/

namespace PipecatVoice

/-! ## Saturation -/

/-- `saturate16`: clamp to the `int16_t` range. -/
def saturate16 (amp : ℤ) : Int16 :=
  if amp > 32767 then 32767
  else if amp < -32768 then -32768
  else Int16.ofInt amp

/-- `saturate15`: clamp to 15 bits. -/
def saturate15 (amp : ℤ) : Int16 :=
  if amp > 16383 then 16383
  else if amp < -16384 then -16384
  else Int16.ofInt amp

/-- `sat_add16`. -/
def satAdd16 (a b : Int16) : Int16 := saturate16 (a.toInt + b.toInt)

/-- `sat_sub16`. -/
def satSub16 (a b : Int16) : Int16 := saturate16 (a.toInt - b.toInt)

/-! ## Reference tables -/

/-- Read a table of the source; the indices the codec uses are all in range. -/
def entry {α : Type} [Inhabited α] (t : List α) (i : ℕ) : α := t.getD i default

/-- `qmf_coeffs_fwd`. -/
def qmfCoeffsFwd : List ℤ := [3, -11, 12, 32, -210, 951, 3876, -805, 362, -156, 53, -11]

/-- `qmf_coeffs_rev`. -/
def qmfCoeffsRev : List ℤ := [-11, 53, -156, 362, -805, 3876, 951, -210, 32, 12, -11, 3]

/-- `qm2`. -/
def qm2 : List ℤ := [-7408, -1616, 7408, 1616]

/-- `qm4`. -/
def qm4 : List ℤ :=
  [0, -20456, -12896, -8968, -6288, -4240, -2584, -1200,
   20456, 12896, 8968, 6288, 4240, 2584, 1200, 0]

/-- `qm6`. -/
def qm6 : List ℤ :=
  [-136, -136, -136, -136, -24808, -21904, -19008, -16704,
   -14984, -13512, -12280, -11192, -10232, -9360, -8576, -7856,
   -7192, -6576, -6000, -5456, -4944, -4464, -4008, -3576,
   -3168, -2776, -2400, -2032, -1688, -1360, -1040, -728,
   24808, 21904, 19008, 16704, 14984, 13512, 12280, 11192,
   10232, 9360, 8576, 7856, 7192, 6576, 6000, 5456,
   4944, 4464, 4008, 3576, 3168, 2776, 2400, 2032,
   1688, 1360, 1040, 728, 432, 136, -432, -136]

/-- `q6`: the decision levels of the low-band quantiser. -/
def q6 : List ℤ :=
  [0, 35, 72, 110, 150, 190, 233, 276,
   323, 370, 422, 473, 530, 587, 650, 714,
   786, 858, 940, 1023, 1121, 1219, 1339, 1458,
   1612, 1765, 1980, 2195, 2557, 2919, 0, 0]

/-- `ilb`. -/
def ilb : List ℤ :=
  [2048, 2093, 2139, 2186, 2233, 2282, 2332, 2383,
   2435, 2489, 2543, 2599, 2656, 2714, 2774, 2834,
   2896, 2960, 3025, 3091, 3158, 3228, 3298, 3371,
   3444, 3520, 3597, 3676, 3756, 3838, 3922, 4008]

/-- `iln`: low-band codes of negative differences. -/
def iln : List ℕ :=
  [0, 63, 62, 31, 30, 29, 28, 27, 26, 25, 24, 23, 22, 21, 20, 19,
   18, 17, 16, 15, 14, 13, 12, 11, 10, 9, 8, 7, 6, 5, 4, 0]

/-- `ilp`: low-band codes of the other differences. -/
def ilp : List ℕ :=
  [0, 61, 60, 59, 58, 57, 56, 55, 54, 53, 52, 51, 50, 49, 48, 47,
   46, 45, 44, 43, 42, 41, 40, 39, 38, 37, 36, 35, 34, 33, 32, 0]

/-- `ihn`. -/
def ihn : List ℕ := [0, 1, 0]

/-- `ihp`. -/
def ihp : List ℕ := [0, 3, 2]

/-- `wl`. -/
def wl : List ℤ := [-60, -30, 58, 172, 334, 538, 1198, 3042]

/-- `rl42`. -/
def rl42 : List ℕ := [0, 7, 6, 5, 4, 3, 2, 1, 7, 6, 5, 4, 3, 2, 1, 0]

/-- `wh`. -/
def wh : List ℤ := [0, -214, 798]

/-- `rh2`. -/
def rh2 : List ℕ := [2, 1, 2, 1]

/-! ## Codec state -/

/-- `G722Band`: the adaptive predictor state of one sub-band. -/
structure G722Band where
  /-- logarithmic scale factor -/
  nb : Int16
  /-- quantiser step size -/
  det : Int16
  /-- predictor output -/
  s : Int16
  /-- zero-section predictor output -/
  sz : Int16
  /-- reconstructed signal -/
  r : Int16
  /-- partially reconstructed signal, newest first -/
  p : Vector Int16 2
  /-- pole-section coefficients -/
  a : Vector Int16 2
  /-- zero-section coefficients -/
  b : Vector Int16 6
  /-- quantised differences, newest first -/
  d : Vector Int16 7
  deriving DecidableEq

/-- `G722Codec`: one direction of one connection. -/
structure G722Codec where
  /-- QMF history, first of each sample pair -/
  x : Vector Int16 12
  /-- QMF history, second of each sample pair -/
  y : Vector Int16 12
  /-- circular index into `x` and `y` -/
  ptr : ℕ
  /-- `band[0]` -/
  low : G722Band
  /-- `band[1]` -/
  high : G722Band
  deriving DecidableEq

/-- A `G722Band` with its default member initialisers. -/
def G722Band.default : G722Band :=
  ⟨0, 0, 0, 0, 0, Vector.replicate 2 0, Vector.replicate 2 0, Vector.replicate 6 0,
    Vector.replicate 7 0⟩

/-- A `G722Codec` with its default member initialisers; not yet usable, the step
sizes are zero. -/
def G722Codec.default : G722Codec :=
  ⟨Vector.replicate 12 0, Vector.replicate 12 0, 0, .default, .default⟩

/-- `g722_init`: the standard initial state. -/
def g722Init : G722Codec :=
  { G722Codec.default with
    low := { G722Band.default with det := 32 }
    high := { G722Band.default with det := 8 } }

/-! ## Filters -/

/-- Read a delay line; the codec only reads indices inside it. -/
def tap {n : ℕ} (v : Vector Int16 n) (i : ℕ) : ℤ := (v.toList.getD i 0).toInt

/-- `circ_dot12`: the dot product of a 12-tap circular history, read from `pos`,
with the coefficients. The two folds are the two loops of the source. -/
def circDot12 (x : Vector Int16 12) (coeffs : List ℤ) (pos : ℕ) : ℤ :=
  let z := (List.range (12 - pos)).foldl (fun z i => z + tap x (pos + i) * entry coeffs i) 0
  (List.range pos).foldl (fun z k => z + tap x k * entry coeffs (12 - pos + k)) z

/-- `(u ^ v) & 0x8000`: the two sign bits differ. -/
def signsDiffer (u v : Int16) : Bool := (u ^^^ v) &&& 0x8000 != 0

/-- The UPZERO/DELAYA/FILTEZ loop of `block4`, which runs `i` from `n - 1` down
to `0` and shifts the delay line as it goes. -/
def filtez (dx wd1 : Int16) :
    (n : ℕ) → n ≤ 6 → Vector Int16 6 → Vector Int16 7 → ℤ →
      Vector Int16 6 × Vector Int16 7 × ℤ
  | 0, _, b, d, sz => (b, d, sz)
  | i + 1, hi, b, d, sz =>
    let wd2 := if signsDiffer d[i + 1] dx then Int16.ofInt (-wd1.toInt) else wd1
    let wd3 := Int16.ofInt ((b[i].toInt * 32640).shiftRight 15)
    let bi := satAdd16 wd2 wd3
    let wd3 := satAdd16 d[i] d[i]
    filtez dx wd1 i (by omega) (b.set i bi) (d.set (i + 1) d[i])
      (sz + (bi.toInt * wd3.toInt).shiftRight 15)

/-- The UPPOL2 limiter's argument: the updated second pole coefficient before
it is clamped. -/
def uppol2 (s : G722Band) (p : Int16) : Int16 :=
  let wd1 := saturate16 (s.a[0].toInt * 4)
  let wd32 : ℤ := if signsDiffer p s.p[0] then wd1.toInt else -wd1.toInt
  let wd32 := if wd32 > 32767 then 32767 else wd32
  Int16.ofInt ((if signsDiffer p s.p[1] then -128 else 128) + wd32.shiftRight 7
    + (s.a[1].toInt * 32512).shiftRight 15)

/-- `block4`: the adaptive predictor update shared by both directions. -/
def block4 (s : G722Band) (dx : Int16) : G722Band :=
  let r := satAdd16 s.s dx     -- RECONS
  let p := satAdd16 s.sz dx    -- PARREC
  -- UPPOL2
  let wd3 := uppol2 s p
  let ap1 : Int16 := if wd3.toInt.natAbs > 12288 then (if wd3 < 0 then -12288 else 12288) else wd3
  -- UPPOL1
  let wd1 : Int16 := if signsDiffer p s.p[0] then -192 else 192
  let wd2 := Int16.ofInt ((s.a[0].toInt * 32640).shiftRight 15)
  let ap0 := satAdd16 wd1 wd2
  let wd3 := satSub16 15360 ap1
  let ap0 := if (ap0.toInt.natAbs : ℤ) > wd3.toInt then
      (if ap0 < 0 then Int16.ofInt (-wd3.toInt) else wd3)
    else ap0
  -- FILTEP
  let wd1 := satAdd16 r r
  let wd1 := Int16.ofInt ((ap0.toInt * wd1.toInt).shiftRight 15)
  let wd2 := satAdd16 s.r s.r
  let wd2 := Int16.ofInt ((ap1.toInt * wd2.toInt).shiftRight 15)
  let sp := satAdd16 wd1 wd2
  -- UPZERO, DELAYA, FILTEZ
  let wd1 : Int16 := if dx = 0 then 0 else 128
  let (b, d, sz) := filtez dx wd1 6 (le_refl 6) s.b (s.d.set 0 dx) 0
  let sz := saturate16 sz
  { nb := s.nb
    det := s.det
    s := satAdd16 sp sz        -- PREDIC
    sz := sz
    r := r
    p := #v[p, s.p[0]]
    a := #v[ap0, ap1]
    b := b
    d := d }

/-- SCALEL and SCALEH: the step size for a scale factor; `shift` is 8 in the low
band and 10 in the high band. -/
def scale (shift : ℤ) (nb : Int16) : Int16 :=
  let wd1 := (nb.toInt.shiftRight 6 % 32).toNat      -- & 31
  let wd2 := shift - nb.toInt.shiftRight 11
  let wd3 := if wd2 < 0 then entry ilb wd1 * 2 ^ (-wd2).toNat
    else (entry ilb wd1).shiftRight wd2.toNat
  Int16.ofInt (wd3 * 4)

/-! ## Encoder -/

/-- The quantiser search of the low band, `for (i = 1; i < 30; ++i)`: `n` is the
number of comparisons left. -/
def quantl (wd : ℤ) (det : Int16) : (n i : ℕ) → ℕ
  | 0, i => i
  | n + 1, i =>
    if wd < (entry q6 i * det.toInt).shiftRight 12 then i else quantl wd det n (i + 1)

/-- The scale factor update of the encoder: the sum is cast to `int16_t` first
and clamped to `0 … top` afterwards. -/
def encodeNb (top : Int16) (nb : Int16) (w : ℤ) : Int16 :=
  let nb := Int16.ofInt ((nb.toInt * 127).shiftRight 7 + w)
  if nb < 0 then 0 else if nb > top then top else nb

/-- The low band of `g722_encode`: the band after the update and the six-bit code
`ilow`. -/
def encodeLow (band : G722Band) (xlow : Int16) : G722Band × ℕ :=
  let el := (satSub16 xlow band.s).toInt
  let wd := if el ≥ 0 then el else -el - 1      -- ~el
  let i := quantl wd band.det 29 1
  let ilow := if el < 0 then entry iln i else entry ilp i
  let ril := ilow >>> 2
  let dlow := Int16.ofInt ((band.det.toInt * entry qm4 ril).shiftRight 15)
  let nb := encodeNb 18432 band.nb (entry wl (entry rl42 ril))
  (block4 { band with nb := nb, det := scale 8 nb } dlow, ilow)

/-- The high band of `g722_encode`: the band after the update and the two-bit
code `ihigh`. -/
def encodeHigh (band : G722Band) (xhigh : Int16) : G722Band × ℕ :=
  let eh := (satSub16 xhigh band.s).toInt
  let wd := if eh ≥ 0 then eh else -eh - 1      -- ~eh
  let wd1h := (564 * band.det.toInt).shiftRight 12
  let mih := if wd ≥ wd1h then 2 else 1
  let ihigh := if eh < 0 then entry ihn mih else entry ihp mih
  let dhigh := Int16.ofInt ((band.det.toInt * entry qm2 ihigh).shiftRight 15)
  let nb := encodeNb 22528 band.nb (entry wh (entry rh2 ihigh))
  (block4 { band with nb := nb, det := scale 10 nb } dhigh, ihigh)

/-- Advance the circular index, `if (++s.ptr >= 12) s.ptr = 0`. -/
def nextPtr (ptr : ℕ) : ℕ := if ptr + 1 ≥ 12 then 0 else ptr + 1

/-- One iteration of `g722_encode`: a pair of samples becomes an octet. -/
def encodePair (s : G722Codec) (amp₀ amp₁ : Int16) : G722Codec × UInt8 :=
  let x := s.x.setIfInBounds s.ptr amp₀
  let y := s.y.setIfInBounds s.ptr amp₁
  let ptr := nextPtr s.ptr
  let sumodd := circDot12 x qmfCoeffsFwd ptr
  let sumeven := circDot12 y qmfCoeffsRev ptr
  let xlow := Int16.ofInt ((sumeven + sumodd).shiftRight 14)
  let xhigh := Int16.ofInt ((sumeven - sumodd).shiftRight 14)
  let (low, ilow) := encodeLow s.low xlow
  let (high, ihigh) := encodeHigh s.high xhigh
  (⟨x, y, ptr, low, high⟩, UInt8.ofNat (ihigh <<< 6 ||| ilow))

/-- `g722_encode`: two samples an octet; a last sample without a partner is left
out. -/
def g722Encode (s : G722Codec) : List Int16 → G722Codec × List UInt8
  | amp₀ :: amp₁ :: amp =>
    let (s, octet) := encodePair s amp₀ amp₁
    let (s, out) := g722Encode s amp
    (s, octet :: out)
  | [_] => (s, [])
  | [] => (s, [])

/-! ## Decoder -/

/-- The scale factor update of the decoder: clamped as an `int`, then cast. -/
def decodeNb (top : ℤ) (nb : Int16) (w : ℤ) : Int16 :=
  let nb := (nb.toInt * 127).shiftRight 7 + w
  Int16.ofInt (if nb < 0 then 0 else if nb > top then top else nb)

/-- The low band of `g722_decode`: the band after the update and the
reconstructed sub-band sample `rlow`. -/
def decodeLow (band : G722Band) (code : ℕ) : G722Band × ℤ :=
  let wd1 := code &&& 0x3F
  let wd2 := (band.det.toInt * entry qm6 wd1).shiftRight 15
  let wd1 := wd1 >>> 2
  let rlow := saturate15 (band.s.toInt + wd2)
  let dlow := Int16.ofInt ((band.det.toInt * entry qm4 wd1).shiftRight 15)
  let nb := decodeNb 18432 band.nb (entry wl (entry rl42 wd1))
  (block4 { band with nb := nb, det := scale 8 nb } dlow, rlow.toInt)

/-- The high band of `g722_decode`. -/
def decodeHigh (band : G722Band) (code : ℕ) : G722Band × ℤ :=
  let ihigh := (code >>> 6) &&& 0x03
  let dhigh := Int16.ofInt ((band.det.toInt * entry qm2 ihigh).shiftRight 15)
  let rhigh := saturate15 (dhigh.toInt + band.s.toInt)
  let nb := decodeNb 22528 band.nb (entry wh (entry rh2 ihigh))
  (block4 { band with nb := nb, det := scale 10 nb } dhigh, rhigh.toInt)

/-- One iteration of `g722_decode`: an octet becomes a pair of samples. -/
def decodeOctet (s : G722Codec) (octet : UInt8) : G722Codec × Int16 × Int16 :=
  let code := octet.toNat
  let (low, rlow) := decodeLow s.low code
  let (high, rhigh) := decodeHigh s.high code
  let x := s.x.setIfInBounds s.ptr (Int16.ofInt (rlow + rhigh))
  let y := s.y.setIfInBounds s.ptr (Int16.ofInt (rlow - rhigh))
  let ptr := nextPtr s.ptr
  (⟨x, y, ptr, low, high⟩, saturate16 ((circDot12 y qmfCoeffsRev ptr).shiftRight 11),
    saturate16 ((circDot12 x qmfCoeffsFwd ptr).shiftRight 11))

/-- `g722_decode`: one octet, two samples. -/
def g722Decode (s : G722Codec) : List UInt8 → G722Codec × List Int16
  | [] => (s, [])
  | octet :: octets =>
    let (s, amp₀, amp₁) := decodeOctet s octet
    let (s, amp) := g722Decode s octets
    (s, amp₀ :: amp₁ :: amp)

end PipecatVoice
