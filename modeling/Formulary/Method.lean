import Formulary.Arithmetic
import Formulary.Decimal.Layout
import Formulary.Selection
import Formulary.Sorting.Noting
import Formulary.Text.Blank
import Formulary.Text.Case
import Formulary.Text.Expand
import Formulary.Value.Text

/-!
# Built-in methods

The methods of numbers, strings and collections. Each is total: on arguments that it was not made
for it fails or falls back to a default, and where a type lacks the method it says so.
-/

namespace Formulary

open Fault (fail mismatch)

/-- The built-in methods. -/
inductive Method where
  | length | isEmpty | toS | toI | toF | round | floor | ceil | abs | upcase | downcase | strip
  | split | startsWith | endsWith | contains | keys | values | merge | fetch | first | last
  | reverse | sort | uniq | flatten | compact | join | sum | min | max | toA
deriving DecidableEq, Repr

namespace Method

/-- Every built-in method. -/
def all : List Method :=
  [length, isEmpty, toS, toI, toF, round, floor, ceil, abs, upcase, downcase, strip, split,
    startsWith, endsWith, contains, keys, values, merge, fetch, first, last, reverse, sort, uniq,
    flatten, compact, join, sum, min, max, toA]

/-- The name by which scripts call a method. -/
def name : Method → String
  | length => "length"
  | isEmpty => "is_empty"
  | toS => "to_s"
  | toI => "to_i"
  | toF => "to_f"
  | round => "round"
  | floor => "floor"
  | ceil => "ceil"
  | abs => "abs"
  | upcase => "upcase"
  | downcase => "downcase"
  | strip => "strip"
  | split => "split"
  | startsWith => "starts_with"
  | endsWith => "ends_with"
  | contains => "contains"
  | keys => "keys"
  | values => "values"
  | merge => "merge"
  | fetch => "fetch"
  | first => "first"
  | last => "last"
  | reverse => "reverse"
  | sort => "sort"
  | uniq => "uniq"
  | flatten => "flatten"
  | compact => "compact"
  | join => "join"
  | sum => "sum"
  | min => "min"
  | max => "max"
  | toA => "to_a"

/-- The method with a given name. -/
def ofName? (s : String) : Option Method := all.find? fun m ↦ m.name = s

/-- The result of a method on a receiver of one type, or nothing where the type lacks it. -/
abbrev Result := Option (Except Stop Value)

/-- A result that cannot fail. -/
def give (v : Value) : Result := some (.ok v)

/-- A result that may be a fault. -/
def attempt (x : Except Fault Value) : Result := some (x.mapError .fault)

/-- The argument at a place; missing ones are `nil`. -/
def argument (args : List Value) (i : Nat) : Value := args.getD i .nil

/-- A number of items as a value. -/
def count (n : Nat) : Value := .int (Int64.ofNat n)

/-! ### Numbers -/

/-- The integer nearest to zero from a floating-point number, if 64 bits hold it. -/
def integerOf (x : Binary64) : Except Fault Value :=
  if !x.isFinite then
    fail (.host s!"cannot convert {Decimal.plainText x} to an integer")
  else
    match Decimal.toInt64? x.truncate with
    | some n => .ok (.int n)
    | none => fail (.host s!"float {Decimal.plainText x} out of range for an integer")

/-- The product `base ^ n * acc` by repeated squaring, for `n` below `2 ^ bits`. -/
def powerInto (acc base : Binary64) (n : Nat) : (bits : Nat) → Binary64
  | 0 => acc
  | bits + 1 =>
    let acc := if n % 2 = 1 then acc * base else acc
    if n / 2 = 0 then acc else powerInto acc (base * base) (n / 2) bits

/-- The power of ten with an exponent between -300 and 300. -/
def powerOfTen (n : Int) : Binary64 :=
  let p := powerInto (.ofInt 1) (.ofInt 10) n.natAbs 9
  if n < 0 then .ofInt 1 / p else p

/-- A number rounded to a number of decimal places, halves away from zero. -/
def roundTo (x : Binary64) (places : Int64) : Binary64 :=
  let scale := powerOfTen (Max.max (-300) (Min.min 300 places.toInt))
  (x * scale).round / scale

/-- Methods of integers. -/
def onInt (n : Int64) : Method → Result
  | toI | round | floor | ceil => give (.int n)
  | toF => give (.float (.ofInt n))
  | abs => attempt (Value.exact "abs" n.toInt.natAbs)
  | _ => none

/-- Methods of floating-point numbers. -/
def onFloat (x : Binary64) (args : List Value) : Method → Result
  | toI => attempt (integerOf x)
  | toF => give (.float x)
  | round =>
    match args with
    | .int places :: _ => give (.float (roundTo x places))
    | _ => attempt (integerOf x.round)
  | floor => attempt (integerOf x.floor)
  | ceil => attempt (integerOf x.ceil)
  | abs => give (.float x.abs)
  | _ => none

/-! ### Strings -/

/-- The integer at the start of a text, after white space; zero if there is none or it is too
large. -/
def leadingInt (s : String) : Int64 :=
  let cs := Text.lead (fun c ↦ c.isDigit || c = '-' || c = '+') s
  let (sign, rest) := match cs with
    | c :: rest => if c = '-' || c = '+' then ([c], rest) else ([], cs)
    | [] => ([], [])
  (Decimal.readInt (sign ++ rest.takeWhile Char.isDigit)).getD 0

/-- The characters that occur in floating-point numbers, the names of infinity and NaN included. -/
def isNumeral (c : Char) : Bool :=
  c.isDigit || c = '-' || c = '+' || c = '.' || "aefintyAEFINTY".contains c

/-- The floating-point number at the start of a text, white space aside; zero if there is none. -/
def leadingFloat (s : String) : Binary64 :=
  match Decimal.scanFloat (Text.lead isNumeral s) with
  | some (x, _) => x
  | none => .zero

/-- Pieces of a text: its characters, what stands between occurrences of a separator, found from the
left without overlap, or its words. -/
def splitText (s : String) (separator : Value) : List Value :=
  match separator with
  | .str sep =>
    if sep.isEmpty then s.toList.map fun c ↦ .str (String.singleton c)
    else (s.split sep).toList.map fun piece ↦ .str piece.copy
  | _ => (Text.words s).map .str

/-- A test of a text against an argument that is a text. -/
def testText (arg : Value) (holds : String → Bool) : Result :=
  match arg with
  | .str s => give (.bool (holds s))
  | _ => give (.bool false)

/-- Methods of strings. -/
def onText (s : String) (args : List Value) : Method → Result
  | length => give (count s.length)
  | isEmpty => give (.bool s.isEmpty)
  | toI => give (.int (leadingInt s))
  | toF => give (.float (leadingFloat s))
  | upcase => give (.str (Text.upcase s))
  | downcase => give (.str (Text.downcase s))
  | strip => give (.str (Text.strip s))
  | split => give (.list (splitText s (argument args 0)))
  | startsWith => testText (argument args 0) fun part ↦ s.startsWith part
  | endsWith => testText (argument args 0) fun part ↦ s.endsWith part
  | contains => testText (argument args 0) fun part ↦ s.contains part
  | reverse => give (.str (Text.backwards s))
  | _ => none

/-! ### Collections -/

/-- Whether one of the given items is less than another. If the two cannot be compared it is not,
and the fault is noted. -/
def isLess {n : Nat} (item : Fin n → Value) (i j : Fin n) : Sorting.Noting Fault Bool :=
  .ofExcept false ((Value.order "sort" (item i) (item j)).map (· == .lt))

/-- The given items in ascending order; equal ones stay in their order. Only their places are
sorted. If that breaks off, a fault that was noted before is lost. -/
def arrange {n : Nat} (item : Fin n → Value) : Except Stop (List Value) :=
  match (Sorting.stableSort (isLess item) (List.finRange n)).run none with
  | (none, _) => .error .disorder
  | (some _, some fault) => .error (.fault fault)
  | (some places, none) => .ok (places.map item)

/-- A stable sort in ascending order. -/
def sortItems (items : List Value) : Except Stop (List Value) :=
  let placed := items.toArray
  arrange fun i : Fin placed.size ↦ placed[i]

/-- The first item that no other one beats; `nil` if there are none. -/
def extreme (operation : String) (beats : Ordering) : List Value → Except Fault Value
  | [] => .ok .nil
  | x :: xs => xs.foldlM (fun best y ↦ do
      return if (← Value.order operation y best) == beats then y else best) x

/-- Items added up from zero. -/
def total (items : List Value) : Except Fault Value :=
  items.foldlM (Value.binary .add) (.int 0)

mutual

/-- The value, or the items of nested lists that it holds. -/
def flattenValue : Value → List Value
  | .list items => flattenItems items
  | v => [v]

/-- The items with nested lists opened up. -/
def flattenItems : List Value → List Value
  | [] => []
  | v :: vs => flattenValue v ++ flattenItems vs

end

/-- The item of a list at an index, or the fallback if one is given. -/
def fetchItem (list : Value) (args : List Value) : Except Fault Value :=
  let found := (argument args 0).asInt?.bind fun i ↦
    (Selection.position? i list.size).bind list.item?
  match found, args with
  | some v, _ => .ok v
  | none, _ :: fallback :: _ => .ok fallback
  | none, _ => fail (.invalidIndex "List" s!"index {(argument args 0).text} out of range")

/-- The value of a map under a key, or the fallback if one is given. -/
def fetchEntry (map : Value) (args : List Value) : Except Fault Value :=
  match map.lookup? (argument args 0), args with
  | some v, _ => .ok v
  | none, _ :: fallback :: _ => .ok fallback
  | none, _ => fail (.invalidIndex "Map" s!"key not found: {(argument args 0).inspect}")

/-- The texts of the items with a separator between them. -/
def joinItems (items : List Value) (separator : Value) : Value :=
  .str (String.intercalate (separator.asStr?.getD "") (items.map Value.text))

/-- Methods of lists. -/
def onList (receiver : Value) (items args : List Value) : Method → Result
  | length => give (count receiver.size)
  | isEmpty => give (.bool items.isEmpty)
  | contains => give (.bool (items.any fun v ↦ Value.looselyEqual v (argument args 0)))
  | fetch => attempt (fetchItem receiver args)
  | first => give (items.headD .nil)
  | last => give receiver.last
  | reverse => give (.list items.reverse)
  | sort => some ((sortItems items).map .list)
  | uniq => give (.list (Indexed.ofElements items))
  | flatten => give (.list (flattenItems items))
  | compact => give (.list (items.filter fun v ↦ !v.isNil))
  | join => give (joinItems items (argument args 0))
  | sum => attempt (total items)
  | min => attempt (extreme "min" .lt items)
  | max => attempt (extreme "max" .gt items)
  | toA => give receiver
  | _ => none

/-- Methods of sets. -/
def onSet (receiver : Value) (items args : List Value) : Method → Result
  | length => give (count receiver.size)
  | isEmpty => give (.bool items.isEmpty)
  | contains => give (.bool (receiver.hasMember (argument args 0)))
  | sum => attempt (total items)
  | min => attempt (extreme "min" .lt items)
  | max => attempt (extreme "max" .gt items)
  | toA => give (.list items)
  | _ => none

/-- Methods of maps. -/
def onMap (receiver : Value) (entries : List (Value × Value)) (args : List Value) :
    Method → Result
  | length => give (count receiver.size)
  | isEmpty => give (.bool entries.isEmpty)
  | contains => give (.bool (receiver.hasKey (argument args 0)))
  | keys => give (.list (entries.map Prod.fst))
  | values => give (.list (entries.map Prod.snd))
  | merge =>
    match argument args 0 with
    | .map extra => give (.map (Indexed.merge entries extra))
    | other => attempt (fail (.host s!"cannot merge {other.typeName}"))
  | fetch => attempt (fetchEntry receiver args)
  | compact => give (.map (entries.filter fun e ↦ !e.2.isNil))
  | toA => give (.list (entries.map Value.ofEntry))
  | _ => none

/-- Methods of `nil`. -/
def onNil : Method → Result
  | toI => give (.int 0)
  | toF => give (.float .zero)
  | _ => none

/-- Methods that belong to the receiver's type. -/
def onReceiver (m : Method) (receiver : Value) (args : List Value) : Result :=
  match receiver with
  | .nil => onNil m
  | .int n => onInt n m
  | .float x => onFloat x args m
  | .str s => onText s args m
  | .list items => onList receiver items args m
  | .set items => onSet receiver items args m
  | .map entries => onMap receiver entries args m
  | _ => none

/-- A built-in method on a value; every value has a text. -/
def call (m : Method) (receiver : Value) (args : List Value) : Except Stop Value :=
  if m = toS then .ok (.str receiver.text)
  else
    match m.onReceiver receiver args with
    | some result => result
    | none => Stop.fail (.noSuchMethod m.name (some receiver.typeName))

end Method

/-- The built-in method with a given name on a value. -/
def Value.send (receiver : Value) (method : String) (args : List Value) : Except Stop Value :=
  match Method.ofName? method with
  | some m => m.call receiver args
  | none => Stop.fail (.noSuchMethod method (some receiver.typeName))

end Formulary
