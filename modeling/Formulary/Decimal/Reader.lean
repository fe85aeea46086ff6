import Formulary.Binary64
import Formulary.Decimal.Power

/-!
# Reading numbers

Integers of 64 bits and floating-point numbers as they may be written. A floating-point text is a
sign, then digits with at most one point among them, then an exponent; or one of the names of
infinity and NaN in any case. The value is the nearest number.
-/

namespace Formulary.Decimal

/-- Splits off an optional sign; the flag says whether it was a minus. -/
def readSign : List Char → Bool × List Char
  | '-' :: cs => (true, cs)
  | '+' :: cs => (false, cs)
  | cs => (false, cs)

/-- Splits off the leading decimal digits. -/
def readDigits (cs : List Char) : List Char × List Char :=
  (cs.takeWhile Char.isDigit, cs.dropWhile Char.isDigit)

/-- The number that a run of decimal digits denotes. -/
def digitsValue (cs : List Char) : Nat := cs.foldl (fun n c ↦ 10 * n + (c.toNat - '0'.toNat)) 0

/-- The least and the greatest integer of 64 bits. -/
def minInt : Int := -9223372036854775808

@[inherit_doc minInt] def maxInt : Int := 9223372036854775807

/-- An integer of 64 bits, if the value is in range. -/
def toInt64? (n : Int) : Option Int64 :=
  if minInt ≤ n ∧ n ≤ maxInt then some (Int64.ofInt n) else none

/-- A signed decimal integer of 64 bits that takes up the whole text. None has more than 19 digits
after leading zeros. -/
def readInt (cs : List Char) : Option Int64 :=
  let (negative, cs) := readSign cs
  let digits := cs.dropWhile (· = '0')
  if cs.isEmpty || !cs.all Char.isDigit || 19 < digits.length then none
  else
    let n : Int := digitsValue digits
    toInt64? (if negative then -n else n)

/-- The most significant digits that are taken into account one by one. No number of binary64, nor
the midpoint of two neighbours, has more than 767 of them, so of the digits beyond it only matters
whether one is not zero. -/
def digitLimit : Nat := 800

/-- The weight from which on a group of digits is full, so that a group stays below `2 ^ 64`. -/
def groupWeight : UInt64 := 100000000000000000

/-- Decimal digits as far as they have been read, leading zeros aside. They are collected in groups,
since a long number grows slowly that way. -/
structure Digits where
  /-- The number that the digits of full groups denote. -/
  total : Nat := 0
  /-- The number that the digits of the last group denote, and the weight of that group. -/
  group : UInt64 := 0
  weight : UInt64 := 1
  /-- How many digits these are. -/
  count : Nat := 0
  /-- How many further digits there are. -/
  beyond : Nat := 0
  /-- Whether one of those is not zero. -/
  sticky : Bool := false
deriving DecidableEq, Repr

namespace Digits

/-- The number that the digits denote, without those beyond the limit. -/
def value (d : Digits) : Nat := d.total * d.weight.toNat + d.group.toNat

/-- One more digit. -/
def push (d : Digits) (c : Char) : Digits :=
  if d.count = 0 && c = '0' then d
  else if d.count < digitLimit then
    let group := 10 * d.group + (c.val - '0'.val).toUInt64
    let weight := 10 * d.weight
    if weight < groupWeight then { d with group := group, weight := weight, count := d.count + 1 }
    else
      { d with
        total := d.total * weight.toNat + group.toNat, group := 0, weight := 1,
        count := d.count + 1 }
  else { d with beyond := d.beyond + 1, sticky := d.sticky || c ≠ '0' }

/-- Reads the digits that a text starts with, and counts them, leading zeros included. -/
def scan (d : Digits) (read : Nat) : List Char → Digits × Nat × List Char
  | [] => (d, read, [])
  | c :: cs => if c.isDigit then scan (d.push c) (read + 1) cs else (d, read, c :: cs)

end Digits

/-- The number nearest to `digits * 10 ^ exponent`. Decimals far beyond either end of the range
never reach the arithmetic on powers of ten. -/
def nearest (negative : Bool) (d : Digits) (exponent : Int) : Binary64 :=
  let exponent := exponent + d.beyond
  let size := d.count + exponent
  if d.count = 0 || size < -400 then .ofMagnitude negative 0
  else if 400 < size then .ofMagnitude negative Binary64.infiniteMagnitude
  else
    let sticky := if d.sticky then 1 else 0
    .ofRatio negative ((10 * d.value + sticky) * tenTo exponent.toNat)
      (10 * tenTo (-exponent).toNat)

/-- The value of an exponent's digits. Once it has reached 65536, which is far beyond every number,
further digits leave it as it is. -/
def exponentValue (digits : List Char) : Nat :=
  digits.foldl (fun n c ↦ if n < 65536 then 10 * n + (c.toNat - '0'.toNat) else n) 0

/-- Splits off an exponent, or nothing where none is complete. -/
def scanExponent : List Char → Int × List Char
  | [] => (0, [])
  | c :: cs =>
    if c = 'e' || c = 'E' then
      let (negative, digits) := readSign cs
      match readDigits digits with
      | ([], _) => (0, c :: cs)
      | (digits, rest) =>
        let n : Int := exponentValue digits
        (if negative then -n else n, rest)
    else (0, c :: cs)

/-- Splits off digits with an optional point and exponent, the longest that there are. -/
def scanUnsigned (negative : Bool) (cs : List Char) : Option (Binary64 × List Char) :=
  let (digits, whole, rest) := Digits.scan {} 0 cs
  let (digits, fraction, rest) := match rest with
    | '.' :: rest => digits.scan 0 rest
    | rest => (digits, 0, rest)
  if whole + fraction = 0 then none
  else
    let (exponent, rest) := scanExponent rest
    some (nearest negative digits (exponent - fraction), rest)

/-- What follows a name that the text starts with, in any case. -/
def afterName? : (name : List Char) → List Char → Option (List Char)
  | [], cs => some cs
  | _ :: _, [] => none
  | n :: name, c :: cs => if c.toLower = n then afterName? name cs else none

/-- The names of infinity and NaN, a longer one before its own start. -/
def namedNumbers : List (List Char × Binary64) :=
  [("infinity".toList, .infinity), ("inf".toList, .infinity), ("nan".toList, .nan)]

/-- Splits off the name of an infinity or of NaN. -/
def scanNamed (negative : Bool) (cs : List Char) : Option (Binary64 × List Char) :=
  namedNumbers.findSome? fun (name, x) ↦
    (afterName? name cs).map fun rest ↦ (.ofMagnitude negative x.magnitude, rest)

/-- Splits off the longest floating-point number that a text starts with. -/
def scanFloat (cs : List Char) : Option (Binary64 × List Char) :=
  let (negative, cs) := readSign cs
  match scanNamed negative cs with
  | some found => some found
  | none => scanUnsigned negative cs

/-- A floating-point number that takes up the whole text. -/
def readFloat (cs : List Char) : Option Binary64 :=
  match scanFloat cs with
  | some (x, []) => some x
  | _ => none

end Formulary.Decimal
