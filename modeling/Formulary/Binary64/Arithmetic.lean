import Formulary.Binary64

/-!
# Arithmetic of floating-point numbers

The four operations, rounding to whole numbers, and the order. An operand that is NaN is the result,
made quiet, the left one before the right one; operations without a meaningful result give a NaN of
their own. All other results are the exact ones, rounded once.
-/

namespace Formulary.Binary64

/-- The NaN of an operation without a meaningful result, such as zero divided by zero. -/
def invalid : Binary64 := ⟨0xFFF8000000000000⟩

/-- A NaN with the bit set that keeps it from being signalled. -/
def quiet (x : Binary64) : Binary64 := ⟨x.bits ||| 0x8000000000000⟩

/-- The number with the other sign, also of zeros and NaN. -/
def neg (x : Binary64) : Binary64 := ⟨x.bits ^^^ signBit⟩

/-- The number without its sign, also of NaN. -/
def abs (x : Binary64) : Binary64 := ⟨x.bits % signBit⟩

/-- The first operand that is NaN, and otherwise what `operation` makes of two numbers. -/
@[inline] def arithmetic (operation : Float → Float → Float) (x y : Binary64) : Binary64 :=
  if x.isNaN then x.quiet
  else if y.isNaN then y.quiet
  else
    let result := operation (.ofBits x.bits) (.ofBits y.bits)
    if result.isNaN then invalid else ⟨result.toBits⟩

/-- Sum. -/
def add (x y : Binary64) : Binary64 := arithmetic (· + ·) x y

/-- Difference. -/
def sub (x y : Binary64) : Binary64 := arithmetic (· - ·) x y

/-- Product. -/
def mul (x y : Binary64) : Binary64 := arithmetic (· * ·) x y

/-- Quotient. -/
def div (x y : Binary64) : Binary64 := arithmetic (· / ·) x y

instance : Neg Binary64 := ⟨neg⟩

instance : Add Binary64 := ⟨add⟩

instance : Sub Binary64 := ⟨sub⟩

instance : Mul Binary64 := ⟨mul⟩

instance : Div Binary64 := ⟨div⟩

/-- What an absolute value has after the point: nothing, less than a half, or a half and more. -/
inductive Excess where
  | none
  | minor
  | major
deriving DecidableEq, Repr

/-- The excess `part / unit`. -/
def Excess.of (part unit : Nat) : Excess :=
  if part = 0 then none else if 2 * part < unit then minor else major

/-- The magnitude of one, and of one half. -/
def oneMagnitude : Nat := 0x3FF0000000000000

@[inherit_doc oneMagnitude] def halfMagnitude : Nat := 0x3FE0000000000000

/-- The whole number next to this one, of the same sign: towards zero, or away from it where the
excess says so. From one on, whole numbers stand a power of two apart among the magnitudes, which
grow with the absolute value, also from one exponent to the next. -/
def toWhole (x : Binary64) (away : Excess → Bool) : Binary64 :=
  if x.isNaN then x.quiet
  else if 0 ≤ x.exponent then x
  else if x.magnitude < oneMagnitude then
    let excess :=
      if x.magnitude = 0 then .none else if x.magnitude < halfMagnitude then .minor else .major
    ofMagnitude x.isNegative (if away excess then oneMagnitude else 0)
  else
    let unit := 1 <<< (-x.exponent).toNat
    let part := x.magnitude % unit
    let whole := x.magnitude - part
    ofMagnitude x.isNegative (if away (.of part unit) then whole + unit else whole)

/-- The greatest whole number that is not greater. -/
def floor (x : Binary64) : Binary64 := x.toWhole fun excess ↦ x.isNegative && excess ≠ .none

/-- The least whole number that is not less. -/
def ceil (x : Binary64) : Binary64 := x.toWhole fun excess ↦ !x.isNegative && excess ≠ .none

/-- The nearest whole number, halves away from zero. -/
def round (x : Binary64) : Binary64 := x.toWhole fun excess ↦ excess = .major

/-- A finite number with the digits after the point dropped. -/
def truncate (x : Binary64) : Int :=
  let whole : Int := ((x.significand <<< x.exponent.toNat) >>> (-x.exponent).toNat : Nat)
  if x.isNegative then -whole else whole

/-- A word that orders numbers as they are ordered themselves; the two zeros share theirs. -/
def rank (x : Binary64) : UInt64 :=
  if x.isNegative then signBit - x.bits % signBit else signBit + x.bits % signBit

/-- The order of two numbers; NaN has no place in it. -/
def compare? (x y : Binary64) : Option Ordering :=
  if x.isNaN || y.isNaN then none else some (compare x.rank y.rank)

/-- Whether two are the same number: zeros are whatever their sign, and NaN never is. -/
def sameNumber (x y : Binary64) : Bool := !x.isNaN && !y.isNaN && x.rank == y.rank

end Formulary.Binary64
