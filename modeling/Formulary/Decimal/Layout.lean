import Formulary.Decimal.Shortest

/-!
# Text of floating-point numbers

Two layouts of a number, both without an exponent. The plain one writes the shortest digits that
read back and no point after a whole number; the marked one keeps `.0` on whole numbers of moderate
size, so that they can be told from integers.
-/

namespace Formulary.Decimal

/-- The digits of a number, in decimal. -/
def decimalDigits (n : Nat) : List Char := Nat.toDigits 10 n

/-- Positional text of a decimal: zeros fill the places between its digits and the point. -/
def layout (d : Decimal) : List Char :=
  let digits := decimalDigits d.digits
  let places := (-d.exponent).toNat
  if places = 0 then digits ++ List.replicate d.exponent.toNat '0'
  else
    let padded := List.replicate (places + 1 - digits.length) '0' ++ digits
    let whole := padded.take (padded.length - places)
    whole ++ '.' :: padded.drop (padded.length - places)

/-- Whole numbers below this bound keep a final `.0` in the marked layout. -/
def markedBound : Nat := 10000000000000000

/-- Puts the sign of `x` before the text of its absolute value; infinities and NaN have names. -/
def signed (x : Binary64) (text : Binary64 → List Char) : String :=
  if x.isNaN then "NaN"
  else
    let sign := if x.isNegative then ['-'] else []
    String.ofList (sign ++ if x.isInfinite then ['i', 'n', 'f'] else text x)

/-- The shortest digits that read back, in positional notation. -/
def plainMagnitude (x : Binary64) : List Char :=
  if x.isZero then ['0'] else x.shortest.layout

/-- Like the plain layout, but whole numbers of moderate size end in `.0`. -/
def markedMagnitude (x : Binary64) : List Char :=
  match x.integer? with
  | some n => if n < markedBound then decimalDigits n ++ ['.', '0'] else plainMagnitude x
  | none => plainMagnitude x

/-- Plain text of a number: `1`, `0.5`, `-0`. -/
def plainText (x : Binary64) : String := signed x plainMagnitude

/-- Marked text of a number: `1.0`, `0.5`, `-0.0`. -/
def markedText (x : Binary64) : String := signed x markedMagnitude

end Formulary.Decimal
