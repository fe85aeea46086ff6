import Formulary.Decimal.Reader
import Formulary.Fault
import Formulary.Value.Parts

/-!
# Positions in sequences

`[i]` selects an item and `[start, count]` a part of a list or of a string's characters. Negative
positions count from the end, and a position outside the sequence selects nothing.
-/

namespace Formulary

/-- What an index selects. -/
inductive Selection where
  | nothing
  | item (position : Nat)
  /-- The items from `start` on, up to but not at `stop`. -/
  | part (start stop : Nat)
deriving DecidableEq, Repr

namespace Selection

/-- An index counted from the start of a sequence of `length` items. -/
def fromStart (i length : Int64) : Int64 := if i < 0 then i + length else i

/-- An integer as a position, if it is not negative. -/
def offset? (n : Int64) : Option Nat := if 0 ≤ n then some n.toNatClampNeg else none

/-- The position that an index denotes. -/
def position? (i : Int64) (length : Nat) : Option Nat := do
  let length ← Decimal.toInt64? length
  let p := fromStart i length
  if 0 ≤ p ∧ p < length then offset? p else none

/-- The sum of two integers, or the integer that is nearest to it. -/
def addClamped (a b : Int64) : Int64 := Int64.ofIntClamp (a.toInt + b.toInt)

/-- The part of a sequence that starts at an index; it may start at the very end. -/
def partFrom (start count : Int64) (length : Nat) : Selection :=
  let length := (Decimal.toInt64? length).getD Int64.maxValue
  let start := fromStart start length
  if start < 0 ∨ length < start ∨ count < 0 then nothing
  else
    match offset? start, offset? (min (addClamped start count) length) with
    | some start, some stop => part start stop
    | _, _ => nothing

/-- What the arguments select from a sequence of `length` items, which is of the named type. -/
def ofArgs (type : String) (args : List Value) (length : Nat) : Except Fault Selection :=
  match args with
  | [.int i] =>
    .ok (match position? i length with
      | some p => item p
      | none => nothing)
  | [.int start, .int count] => .ok (partFrom start count length)
  | _ => Fault.fail (.invalidIndex type "expected 1 or 2 Integer arguments")

/-- What is selected from a list. -/
def ofList (list : Value) : Selection → Value
  | nothing => .nil
  | item p => (list.item? p).getD .nil
  | part start stop => .list (list.part start (stop - start))

/-- What is selected from the characters of a text. -/
def ofText (text : Value) : Selection → Value
  | nothing => .nil
  | item p => .str (text.textPart p 1)
  | part start stop => .str (text.textPart start (stop - start))

end Selection

/-- The selection `list[args]` from a list. -/
def selectItems (list : Value) (args : List Value) : Except Fault Value :=
  (Selection.ofArgs "List" args list.size).map (Selection.ofList list)

/-- The selection `text[args]` from a text, by characters. -/
def selectChars (text : Value) (args : List Value) : Except Fault Value :=
  (Selection.ofArgs "String" args text.size).map (Selection.ofText text)

end Formulary
