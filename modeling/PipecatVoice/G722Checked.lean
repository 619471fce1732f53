import PipecatVoice.G722
import PipecatVoice.Lib.Checked

/-!
# The G.722 codec, with checks

The codec of `PipecatVoice.G722` once more, where every value that the source
keeps in a fixed width is checked to fit it: a sum or product to fit `int32_t`,
a value that is stored as `int16_t` to be in its range before the cast, an index
to be inside of its table, and a computed shift amount to be at most ten. A
function here has a result only if all of its checks succeed. That they do is
shown in `PipecatVoice.G722Ranges`.
-/

namespace PipecatVoice

open Checked

/-! ## Saturation -/

/-- `saturate16` -/
def saturate16? (amp : ℤ) : Option Int16 :=
  if amp > 32767 then some 32767
  else if amp < -32768 then some (-32768)
  else int16? amp

/-- `saturate15` -/
def saturate15? (amp : ℤ) : Option Int16 :=
  if amp > 16383 then some 16383
  else if amp < -16384 then some (-16384)
  else int16? amp

/-- `sat_add16` -/
def satAdd16? (a b : Int16) : Option Int16 := do saturate16? (← int32? (a.toInt + b.toInt))

/-- `sat_sub16` -/
def satSub16? (a b : Int16) : Option Int16 := do saturate16? (← int32? (a.toInt - b.toInt))

/-- `static_cast<int16_t>((static_cast<int32_t>(a) * k) >> 15)` -/
def mulShr15? (a : Int16) (k : ℤ) : Option Int16 := do
  int16? ((← int32? (a.toInt * k)).shiftRight 15)

/-! ## Filters -/

/-- A product of `circ_dot12`. -/
def product? (x : Vector Int16 12) (coeffs : List ℤ) (i k : ℕ) : Option ℤ := do
  int32? ((← x.toList[i]?).toInt * (← coeffs[k]?))

/-- `circ_dot12` -/
def circDot12? (x : Vector Int16 12) (coeffs : List ℤ) (pos : ℕ) : Option ℤ := do
  let z ← (List.range (12 - pos)).foldlM
    (fun z i => do int32? (z + (← product? x coeffs (pos + i) i))) 0
  (List.range pos).foldlM
    (fun z k => do int32? (z + (← product? x coeffs k (12 - pos + k)))) z

/-- A value is stored at an index inside of the array. -/
def store? {n : ℕ} (x : Vector Int16 n) (i : ℕ) (v : Int16) : Option (Vector Int16 n) :=
  if h : i < n then some (x.set i v) else none

/-- The UPZERO/DELAYA/FILTEZ loop of `block4`. -/
def filtez? (dx wd1 : Int16) :
    ℕ → Vector Int16 6 → Vector Int16 7 → ℤ → Option (Vector Int16 6 × Vector Int16 7 × ℤ)
  | 0, b, d, sz => some (b, d, sz)
  | i + 1, b, d, sz => do
    let wd2 ← (if signsDiffer (← d[i + 1]?) dx then int16? (-wd1.toInt) else some wd1)
    let wd3 ← mulShr15? (← b[i]?) 32640
    let bi ← satAdd16? wd2 wd3
    let di ← d[i]?
    let wd3 ← satAdd16? di di
    let sz ← int32? (sz + (← int32? (bi.toInt * wd3.toInt)).shiftRight 15)
    filtez? dx wd1 i (← store? b i bi) (← store? d (i + 1) di) sz

/-- The UPPOL2 limiter's argument. -/
def uppol2? (s : G722Band) (p : Int16) : Option Int16 := do
  let wd1 ← saturate16? (← int32? ((← s.a[0]?).toInt * 4))
  let wd32 ← (if signsDiffer p (← s.p[0]?) then some wd1.toInt else int32? (-wd1.toInt))
  let wd32 := if wd32 > 32767 then 32767 else wd32
  let sum ← int32? ((if signsDiffer p (← s.p[1]?) then -128 else 128) + wd32.shiftRight 7)
  int16? (← int32? (sum + (← int32? ((← s.a[1]?).toInt * 32512)).shiftRight 15))

/-- The limiter of UPPOL2. -/
def limit2 (wd3 : Int16) : Int16 :=
  if wd3.toInt.natAbs > 12288 then (if wd3 < 0 then -12288 else 12288) else wd3

/-- The limiter of UPPOL1. -/
def limit1? (ap0 wd3 : Int16) : Option Int16 :=
  if (ap0.toInt.natAbs : ℤ) > wd3.toInt then (if ap0 < 0 then int16? (-wd3.toInt) else some wd3)
  else some ap0

/-- UPPOL1 -/
def uppol1? (s : G722Band) (p ap1 : Int16) : Option Int16 := do
  let wd1 : Int16 := if signsDiffer p (← s.p[0]?) then -192 else 192
  let wd2 ← mulShr15? (← s.a[0]?) 32640
  let ap0 ← satAdd16? wd1 wd2
  let wd3 ← satSub16? 15360 ap1
  limit1? ap0 wd3

/-- FILTEP -/
def filtep? (s : G722Band) (r ap0 ap1 : Int16) : Option Int16 := do
  let wd1 ← satAdd16? r r
  let wd1 ← mulShr15? ap0 wd1.toInt
  let wd2 ← satAdd16? s.r s.r
  let wd2 ← mulShr15? ap1 wd2.toInt
  satAdd16? wd1 wd2

/-- `block4` -/
def block4? (s : G722Band) (dx : Int16) : Option G722Band := do
  let r ← satAdd16? s.s dx
  let p ← satAdd16? s.sz dx
  let ap1 := limit2 (← uppol2? s p)
  let ap0 ← uppol1? s p ap1
  let sp ← filtep? s r ap0 ap1
  let wd1 : Int16 := if dx = 0 then 0 else 128
  let (b, d, sz) ← filtez? dx wd1 6 s.b (← store? s.d 0 dx) 0
  let sz ← saturate16? sz
  let next ← satAdd16? sp sz
  pure
    { nb := s.nb
      det := s.det
      s := next
      sz := sz
      r := r
      p := #v[p, ← s.p[0]?]
      a := #v[ap0, ap1]
      b := b
      d := d }

/-- SCALEL and SCALEH. -/
def scale? (shift : ℤ) (nb : Int16) : Option Int16 := do
  let wd1 := (nb.toInt.shiftRight 6 % 32).toNat
  let wd2 := shift - nb.toInt.shiftRight 11
  let level ← ilb[wd1]?
  let wd3 ← (if wd2 < 0 then (amount? 10 (-wd2)).bind fun n => int32? (level * 2 ^ n)
    else (amount? 10 wd2).map level.shiftRight)
  int16? (← int32? (wd3 * 4))

/-! ## Encoder -/

/-- The quantiser search of the low band. -/
def quantl? (wd : ℤ) (det : Int16) : (n i : ℕ) → Option ℕ
  | 0, i => some i
  | n + 1, i => do
    let wd1 ← int32? ((← q6[i]?) * det.toInt)
    if wd < wd1.shiftRight 12 then some i else quantl? wd det n (i + 1)

/-- The scale factor update of the encoder. -/
def encodeNb? (top : Int16) (nb : Int16) (w : ℤ) : Option Int16 := do
  let wd ← int32? (nb.toInt * 127)
  let nb ← int16? (← int32? (wd.shiftRight 7 + w))
  some (if nb < 0 then 0 else if nb > top then top else nb)

/-- The low band of `g722_encode`. -/
def encodeLow? (band : G722Band) (xlow : Int16) : Option (G722Band × ℕ) := do
  let el := (← satSub16? xlow band.s).toInt
  let wd := if el ≥ 0 then el else -el - 1
  let i ← quantl? wd band.det 29 1
  let ilow ← (if el < 0 then iln[i]? else ilp[i]?)
  let ril := ilow >>> 2
  let dlow ← mulShr15? band.det (← qm4[ril]?)
  let nb ← encodeNb? 18432 band.nb (← wl[← rl42[ril]?]?)
  let det ← scale? 8 nb
  let band ← block4? { band with nb := nb, det := det } dlow
  pure (band, ilow)

/-- The high band of `g722_encode`. -/
def encodeHigh? (band : G722Band) (xhigh : Int16) : Option (G722Band × ℕ) := do
  let eh := (← satSub16? xhigh band.s).toInt
  let wd := if eh ≥ 0 then eh else -eh - 1
  let wd1h := (← int32? (564 * band.det.toInt)).shiftRight 12
  let mih := if wd ≥ wd1h then 2 else 1
  let ihigh ← (if eh < 0 then ihn[mih]? else ihp[mih]?)
  let dhigh ← mulShr15? band.det (← qm2[ihigh]?)
  let nb ← encodeNb? 22528 band.nb (← wh[← rh2[ihigh]?]?)
  let det ← scale? 10 nb
  let band ← block4? { band with nb := nb, det := det } dhigh
  pure (band, ihigh)

/-- One iteration of `g722_encode`. -/
def encodePair? (s : G722Codec) (amp₀ amp₁ : Int16) : Option (G722Codec × UInt8) := do
  let x ← store? s.x s.ptr amp₀
  let y ← store? s.y s.ptr amp₁
  let ptr := nextPtr s.ptr
  let sumodd ← circDot12? x qmfCoeffsFwd ptr
  let sumeven ← circDot12? y qmfCoeffsRev ptr
  let xlow ← int16? ((← int32? (sumeven + sumodd)).shiftRight 14)
  let xhigh ← int16? ((← int32? (sumeven - sumodd)).shiftRight 14)
  let (low, ilow) ← encodeLow? s.low xlow
  let (high, ihigh) ← encodeHigh? s.high xhigh
  pure (⟨x, y, ptr, low, high⟩, UInt8.ofNat (ihigh <<< 6 ||| ilow))

/-- `g722_encode` -/
def g722Encode? (s : G722Codec) : List Int16 → Option (G722Codec × List UInt8)
  | amp₀ :: amp₁ :: amp => do
    let (s, octet) ← encodePair? s amp₀ amp₁
    let (s, out) ← g722Encode? s amp
    pure (s, octet :: out)
  | [_] => some (s, [])
  | [] => some (s, [])

/-! ## Decoder -/

/-- The scale factor update of the decoder. -/
def decodeNb? (top : ℤ) (nb : Int16) (w : ℤ) : Option Int16 := do
  let nb ← int32? ((← int32? (nb.toInt * 127)).shiftRight 7 + w)
  int16? (if nb < 0 then 0 else if nb > top then top else nb)

/-- The low band of `g722_decode`. -/
def decodeLow? (band : G722Band) (code : ℕ) : Option (G722Band × ℤ) := do
  let wd1 := code &&& 0x3F
  let wd2 := (← int32? (band.det.toInt * (← qm6[wd1]?))).shiftRight 15
  let wd1 := wd1 >>> 2
  let rlow ← saturate15? (← int32? (band.s.toInt + wd2))
  let dlow ← mulShr15? band.det (← qm4[wd1]?)
  let nb ← decodeNb? 18432 band.nb (← wl[← rl42[wd1]?]?)
  let det ← scale? 8 nb
  let band ← block4? { band with nb := nb, det := det } dlow
  pure (band, rlow.toInt)

/-- The high band of `g722_decode`. -/
def decodeHigh? (band : G722Band) (code : ℕ) : Option (G722Band × ℤ) := do
  let ihigh := (code >>> 6) &&& 0x03
  let dhigh ← mulShr15? band.det (← qm2[ihigh]?)
  let rhigh ← saturate15? (← int32? (dhigh.toInt + band.s.toInt))
  let nb ← decodeNb? 22528 band.nb (← wh[← rh2[ihigh]?]?)
  let det ← scale? 10 nb
  let band ← block4? { band with nb := nb, det := det } dhigh
  pure (band, rhigh.toInt)

/-- One iteration of `g722_decode`. -/
def decodeOctet? (s : G722Codec) (octet : UInt8) : Option (G722Codec × Int16 × Int16) := do
  let code := octet.toNat
  let (low, rlow) ← decodeLow? s.low code
  let (high, rhigh) ← decodeHigh? s.high code
  let x ← store? s.x s.ptr (← int16? (← int32? (rlow + rhigh)))
  let y ← store? s.y s.ptr (← int16? (← int32? (rlow - rhigh)))
  let ptr := nextPtr s.ptr
  let amp₀ ← saturate16? ((← circDot12? y qmfCoeffsRev ptr).shiftRight 11)
  let amp₁ ← saturate16? ((← circDot12? x qmfCoeffsFwd ptr).shiftRight 11)
  pure (⟨x, y, ptr, low, high⟩, amp₀, amp₁)

/-- `g722_decode` -/
def g722Decode? (s : G722Codec) : List UInt8 → Option (G722Codec × List Int16)
  | [] => some (s, [])
  | octet :: octets => do
    let (s, amp₀, amp₁) ← decodeOctet? s octet
    let (s, amp) ← g722Decode? s octets
    pure (s, amp₀ :: amp₁ :: amp)

end PipecatVoice
