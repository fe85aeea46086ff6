/-!
# Floating-point numbers

Numbers of the IEEE 754 format binary64, held as their 64 bits: two are the same exactly when their
bits are, and a NaN keeps its sign and its payload. What a finite number stands for is read off the
bits as an exact `significand * 2 ^ exponent`, and a ratio becomes the number nearest to it.
Arithmetic is that of `Float`, which knows one NaN only and so is asked about other numbers alone.
-/

namespace Formulary

/-- A number of binary64, by its bits. -/
structure Binary64 where
  bits : UInt64
deriving DecidableEq, Repr, Inhabited

namespace Binary64

/-- The weight of the exponent field, `2 ^ 52`. It is also the leading bit of a normal significand,
which is not stored. -/
def hiddenBit : Nat := 0x10000000000000

/-- The weight of the sign, `2 ^ 63`. -/
def signBit : UInt64 := 0x8000000000000000

/-- The bits of positive infinity. Finite magnitudes are below, and those of NaN above. -/
def infiniteMagnitude : Nat := 0x7FF0000000000000

/-- Whether the sign is a minus. -/
def isNegative (x : Binary64) : Bool := signBit ≤ x.bits

/-- The bits without the sign. On numbers other than NaN they grow with the absolute value. -/
def magnitude (x : Binary64) : Nat := (x.bits % signBit).toNat

/-- The number with this sign and these other bits. -/
def ofMagnitude (negative : Bool) (magnitude : Nat) : Binary64 :=
  ⟨if negative then signBit + UInt64.ofNat magnitude else UInt64.ofNat magnitude⟩

/-- Positive zero. -/
def zero : Binary64 := ⟨0⟩

/-- Positive infinity. -/
def infinity : Binary64 := ⟨0x7FF0000000000000⟩

/-- The positive quiet NaN without a payload. -/
def nan : Binary64 := ⟨0x7FF8000000000000⟩

/-- Whether this is no number. -/
def isNaN (x : Binary64) : Bool := infinity.bits < x.bits % signBit

/-- Whether this is an infinity. -/
def isInfinite (x : Binary64) : Bool := x.magnitude = infiniteMagnitude

/-- Whether this is a number other than an infinity. -/
def isFinite (x : Binary64) : Bool := x.magnitude < infiniteMagnitude

/-- Whether this is one of the two zeros. -/
def isZero (x : Binary64) : Bool := x.magnitude = 0

/-- The absolute value of a finite number, in units of `2 ^ exponent`. -/
def significand (x : Binary64) : Nat :=
  if x.magnitude < hiddenBit then x.magnitude else hiddenBit + x.magnitude % hiddenBit

/-- The exponent of the unit in the last place of a finite number. -/
def exponent (x : Binary64) : Int := (max (x.magnitude / hiddenBit) 1 : Nat) - 1075

/-- Numerator and denominator of the absolute value of a finite number. -/
def fraction (x : Binary64) : Nat × Nat :=
  (x.significand <<< x.exponent.toNat, 1 <<< (-x.exponent).toNat)

/-- The binary logarithm of `num / den`, rounded down, for positive arguments. -/
def ratioLog (num den : Nat) : Int :=
  let log : Int := num.log2 - den.log2
  if den <<< log.toNat ≤ num <<< (-log).toNat then log else log - 1

/-- The magnitude nearest to `num / den`, and the even one of two that are as near. The unit in the
last place leaves 53 bits for the quotient, or fewer at the lower end of the range; a quotient that
is rounded up to a power of two carries into the exponent field. -/
def nearestMagnitude (num den : Nat) : Nat :=
  if num = 0 then 0
  else
    let unit := max (ratioLog num den - 52) (-1074)
    let num := num <<< (-unit).toNat
    let den := den <<< unit.toNat
    let quotient := num / den
    let twice := 2 * (num % den)
    let down := twice < den || (twice == den && quotient % 2 == 0)
    let rounded := if down then quotient else quotient + 1
    min ((unit + 1074).toNat * hiddenBit + rounded) infiniteMagnitude

/-- The number nearest to `num / den` with the given sign; `den` is positive. -/
def ofRatio (negative : Bool) (num den : Nat) : Binary64 :=
  ofMagnitude negative (nearestMagnitude num den)

/-- The number nearest to an integer. -/
def ofInt (n : Int64) : Binary64 :=
  if n < 0 then ⟨(0 - n.toUInt64).toFloat.toBits ||| signBit⟩ else ⟨n.toUInt64.toFloat.toBits⟩

end Binary64

end Formulary
