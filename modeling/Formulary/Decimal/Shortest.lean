import Formulary.Binary64
import Formulary.Decimal.Power

/-!
# Shortest decimals

The fewest decimal digits that read back as a given finite floating-point number, sign aside. All
arithmetic is exact, on natural numbers: a decimal reads back when it lies between the midpoints to
the two neighbouring numbers, ends included exactly when the significand is even. The decimals that
read back are first found on a grid of seventeen digits or more, which are always enough, and the
grid is then made coarser for as long as one of its points is left among them.
-/

namespace Formulary

/-- The decimal number `digits * 10 ^ exponent`. -/
structure Decimal where
  digits : Nat
  exponent : Int
deriving DecidableEq, Repr

/-- A number on a grid of decimals, with the grid points that read back as it. -/
structure GridSpan where
  /-- The grid is made of the multiples of `10 ^ place`. -/
  place : Int
  /-- The last grid point that is not above the number. -/
  below : Nat
  /-- Whether the number is nearer to this point than to the next. -/
  nearBelow : Bool
  /-- The first and the last grid point that read back. -/
  first : Nat
  last : Nat
deriving DecidableEq, Repr

namespace GridSpan

/-- The same number on the grid of every tenth point. -/
def coarser (g : GridSpan) : GridSpan where
  place := g.place + 1
  below := g.below / 10
  nearBelow := g.below % 10 < 5
  first := (g.first + 9) / 10
  last := g.last / 10

/-- The coarsest of the next `n` grids that has a point among those that read back. -/
def coarsest : Nat → GridSpan → GridSpan
  | 0, g => g
  | n + 1, g =>
    let next := g.coarser
    if next.first ≤ next.last then coarsest n next else g

/-- The grid point that reads back and is nearest to the number. Only the two on either side of it
come into question; of two at the same distance it is the upper one. -/
def nearest (g : GridSpan) : Decimal :=
  if g.first ≤ g.below && (g.nearBelow || g.last < g.below + 1) then ⟨g.below, g.place⟩
  else ⟨g.below + 1, g.place⟩

end GridSpan

namespace Binary64

/-- Whether the finite number below this one is half as far away as the one above, as it is after a
power of two. -/
def narrowBelow (x : Binary64) : Bool :=
  x.magnitude % hiddenBit = 0 && hiddenBit < x.magnitude

/-- A finite number other than zero on the multiples of `10 ^ place`. It and the midpoints to its
neighbours are multiples of a quarter of its unit. What reads back lies no further from it than the
midpoints are, or less far if they do not read back themselves; both are measured from the last grid
point below it. -/
def onGrid (x : Binary64) (place : Int) : GridSpan :=
  let quarter := x.exponent - 2
  let scale := Decimal.tenTo (-place).toNat <<< quarter.toNat
  let unit := Decimal.tenTo place.toNat <<< (-quarter).toNat
  let number := 4 * x.significand * scale
  let below := number / unit
  let rest := number - below * unit
  let edge := x.significand % 2
  let down := if x.narrowBelow then scale else 2 * scale
  let up := 2 * scale
  { place := place
    below := below
    nearBelow := 2 * rest < unit
    first := if rest + edge ≤ down then below - (down - rest - edge) / unit else below + 1
    last := below + (rest + up - edge) / unit }

/-- A place that leaves seventeen to nineteen digits before it: `30103 / 100000` is the decimal
logarithm of two. -/
def finePlace (x : Binary64) : Int :=
  ((x.significand.log2 : Int) + x.exponent) * 30103 / 100000 - 17

/-- The shortest decimal that reads back as a finite number other than zero. -/
def shortest (x : Binary64) : Decimal := ((x.onGrid x.finePlace).coarsest 20).nearest

/-- The whole number that the absolute value is, if it is one. -/
def integer? (x : Binary64) : Option Nat :=
  let (num, den) := x.fraction
  if num % den = 0 then some (num / den) else none

end Binary64

end Formulary
