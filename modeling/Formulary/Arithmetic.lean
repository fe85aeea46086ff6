import Formulary.Decimal.Reader
import Formulary.Fault
import Formulary.Operator
import Formulary.Ordered.Indexed
import Formulary.Text.Expand
import Formulary.Value.Lookup

/-!
# Operators on values

Integer arithmetic is exact or fails; division and remainder round towards negative infinity. An
integer meets a floating-point number as one. Strings and lists can be joined and repeated, lists
and sets subtracted. Numbers and strings are ordered, and nothing else.
-/

namespace Formulary.Value

open Fault (fail mismatch)

/-- An exact integer result, if 64 bits hold it. -/
def exact (operation : String) (n : Int) : Except Fault Value :=
  match Decimal.toInt64? n with
  | some k => .ok (.int k)
  | none => fail (.overflow operation)

/-- Whether the quotient of two integers is beyond 64 bits: only the least one has no opposite. -/
def divisionOverflows (a b : Int64) : Bool := a = Int64.minValue && b = -1

/-- Whether just one of two integers is negative. -/
def opposed (a b : Int64) : Bool := decide (a < 0) != decide (b < 0)

/-- Quotient rounded towards negative infinity: the truncated one, less one if that leaves something
and the signs differ. -/
def quotient (a b : Int64) : Except Fault Value :=
  if b = 0 then fail .divisionByZero
  else if divisionOverflows a b then fail (.overflow "division")
  else if a % b ≠ 0 ∧ opposed a b then .ok (.int (a / b - 1))
  else .ok (.int (a / b))

/-- What the rounded quotient leaves: what the truncated one leaves, plus the divisor if that is
something of the other sign. -/
def remainder (a b : Int64) : Except Fault Value :=
  if b = 0 then fail .divisionByZero
  else if divisionOverflows a b then fail (.overflow "remainder")
  else if a % b ≠ 0 ∧ opposed (a % b) b then .ok (.int (a % b + b))
  else .ok (.int (a % b))

/-- Arithmetic on integers. -/
def intBinary (op : BinaryOp) (a b : Int64) : Except Fault Value :=
  match op with
  | .add => exact "addition" (a.toInt + b.toInt)
  | .sub => exact "subtraction" (a.toInt - b.toInt)
  | .mul => exact "multiplication" (a.toInt * b.toInt)
  | .div => quotient a b
  | .mod => remainder a b
  | op => mismatch op.symbol (.int a) (some (.int b))

/-- Arithmetic on floating-point numbers, for operands given as `left` and `right`. -/
def floatBinary (op : BinaryOp) (a b : Binary64) (left right : Value) : Except Fault Value :=
  match op with
  | .add => .ok (.float (a + b))
  | .sub => .ok (.float (a - b))
  | .mul => .ok (.float (a * b))
  | .div => .ok (.float (a / b))
  | .mod => .ok (.float (a - b * (a / b).floor))
  | op => mismatch op.symbol left (some right)

/-- The most bytes of text, or items of a list, that repetition may produce. -/
def repetitionLimit : Nat := 16777216

/-- How often to repeat something of the given size. -/
def repetitions (n : Int64) (size : Nat) (left right : Value) : Except Fault Nat :=
  if n < 0 then mismatch "*" left (some right)
  else
    let count := n.toInt.toNat
    if size * count = 0 then .ok 0
    else if size * count ≤ repetitionLimit then .ok count
    else fail (.overflow "repetition")

/-- Operators on two lists. -/
def listBinary (op : BinaryOp) (as bs : List Value) : Except Fault Value :=
  match op with
  | .add => .ok (.list (as ++ bs))
  | .sub => .ok (.list (as.filter fun a ↦ !bs.any fun b ↦ looselyEqual a b))
  | op => mismatch op.symbol (.list as) (some (.list bs))

/-- Operators on two sets. -/
def setBinary (op : BinaryOp) (as bs : List Value) : Except Fault Value :=
  match op with
  | .add => .ok (.set (Indexed.union as bs))
  | .sub => .ok (.set (Indexed.difference as bs))
  | op => mismatch op.symbol (.set as) (some (.set bs))

/-- The order of two numbers or two strings. -/
def order (operation : String) (left right : Value) : Except Fault Ordering :=
  match left, right with
  | .int a, .int b => .ok (compare a.toInt b.toInt)
  | .str a, .str b => .ok (compare a b)
  | _, _ =>
    match left.asFloat?, right.asFloat? with
    | some a, some b =>
      match a.compare? b with
      | some o => .ok o
      | none => mismatch operation left (some right)
    | _, _ => mismatch operation left (some right)

/-- A comparison by the order of its operands. -/
def comparison (op : BinaryOp) (left right : Value) (holds : Ordering → Bool) :
    Except Fault Value :=
  (order op.symbol left right).map fun o ↦ .bool (holds o)

/-- Operators that compute something new from two values of these types. -/
def combine (op : BinaryOp) (left right : Value) : Except Fault Value :=
  match left, right with
  | .int a, .int b => intBinary op a b
  | .str a, .str b =>
    if op = .add then .ok (.str (a ++ b)) else mismatch op.symbol left (some right)
  | .str a, .int n =>
    if op = .mul then
      (repetitions n a.utf8ByteSize left right).map fun count ↦ .str (Text.repeated a count)
    else mismatch op.symbol left (some right)
  | .list as, .list bs => listBinary op as bs
  | .list as, .int n =>
    if op = .mul then
      (repetitions n as.length left right).map fun count ↦
        .list (List.replicate count as).flatten
    else mismatch op.symbol left (some right)
  | .set as, .set bs => setBinary op as bs
  | _, _ =>
    match left.asFloat?, right.asFloat? with
    | some a, some b => floatBinary op a b left right
    | _, _ => mismatch op.symbol left (some right)

/-- A binary operator applied to two values. -/
def binary (op : BinaryOp) (left right : Value) : Except Fault Value :=
  match op with
  | .eq => .ok (.bool (looselyEqual left right))
  | .ne => .ok (.bool (!looselyEqual left right))
  | .lt => comparison op left right (· == .lt)
  | .le => comparison op left right (· != .gt)
  | .gt => comparison op left right (· == .gt)
  | .ge => comparison op left right (· != .lt)
  | op => combine op left right

/-- A unary operator applied to a value. -/
def unary (op : UnaryOp) (v : Value) : Except Fault Value :=
  match op, v with
  | .not, v => .ok (.bool (!v.truthy))
  | .neg, .int n => exact "negation" (-n.toInt)
  | .neg, .float x => .ok (.float (-x))
  | .neg, v => mismatch op.symbol v none

end Formulary.Value
