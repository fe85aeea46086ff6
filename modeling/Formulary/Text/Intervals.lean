/-!
# Intervals of code points

Disjoint intervals of numbers, each with something attached, in a search tree. A number is found, or
found missing, by comparing it with the intervals on one way down. Tables of ranges list the lengths
of these and of the stretches between them.
-/

namespace Formulary.Text

/-- A search tree of intervals, ends included. -/
inductive Intervals (α : Type) where
  | empty
  | node (left : Intervals α) (lo hi : Nat) (content : α) (right : Intervals α)

namespace Intervals

variable {α : Type}

/-- What is attached to the interval that holds `n`. -/
def find? (n : Nat) : Intervals α → Option α
  | empty => none
  | node left lo hi content right =>
    if n < lo then left.find? n else if n ≤ hi then some content else right.find? n

/-- Whether some interval holds `n`. -/
def holds (n : Nat) (t : Intervals α) : Bool := (t.find? n).isSome

/-- The tree of ascending intervals with the middle one at its root, no deeper than `depth`. -/
def balance : (depth : Nat) → List (Nat × Nat × α) → Intervals α
  | 0, _ => empty
  | depth + 1, intervals =>
    let half := intervals.length / 2
    match intervals.drop half with
    | [] => empty
    | (lo, hi, content) :: rest =>
      node (balance depth (intervals.take half)) lo hi content (balance depth rest)

/-- The tree of ascending intervals. It is less deep than the list is long. -/
def ofList (intervals : List (Nat × Nat × α)) : Intervals α := balance intervals.length intervals

/-- The tree of ascending ranges with nothing attached. -/
def ofRanges (ranges : List (Nat × Nat)) : Intervals Unit :=
  ofList (ranges.map fun (lo, hi) ↦ (lo, hi, ()))

end Intervals

/-- The numbers from `start` on lie outside and inside of ranges in turn. From the lengths of these
stretches, the ranges. -/
def everySecond (start : Nat) : List Nat → List (Nat × Nat)
  | outside :: inside :: rest =>
    let lo := start + outside
    (lo, lo + inside - 1) :: everySecond (lo + inside) rest
  | _ => []

end Formulary.Text
