import Mathlib.Data.Int.Notation
import Mathlib.Data.Nat.Notation

/-!
# The energy gate

`energy_gate.cpp`: the two loudness measures of a frame of PCM. The root mean
square is an integer Newton iteration of eight rounds on the 32-bit mean square.
-/

namespace PipecatVoice

/-- The sum of the squares of a frame, in 64 bits. -/
def sumSq (samples : List Int16) : UInt64 :=
  samples.foldl (fun sumsq s => sumsq + UInt64.ofNat (s.toInt * s.toInt).toNat) 0

/-- One Newton step towards the square root of `meansq`. -/
def newtonStep (meansq guess : UInt32) : UInt32 := (guess + meansq / guess) / 2

/-- `rms_i16` -/
def rmsI16 (samples : List Int16) : UInt32 :=
  if samples.length = 0 then 0
  else
    let meansq := (sumSq samples / UInt64.ofNat samples.length).toUInt32
    if meansq = 0 then 0
    else
      let guess : UInt32 := if meansq > 65536 then 256 else 16
      (List.range 8).foldl (fun guess _ => newtonStep meansq guess) guess

/-- `peak_abs_i16` -/
def peakAbsI16 (samples : List Int16) : ℕ :=
  samples.foldl (fun peak s => if s.toInt.natAbs > peak then s.toInt.natAbs else peak) 0

end PipecatVoice
