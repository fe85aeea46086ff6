/-!
# Stable sorting, comparison by comparison

A stable sort whose comparisons are made in a fixed sequence. That sequence shows wherever the
comparison is no order: what a comparison does besides answering is done in that sequence, and one
under which equality does not carry over from pair to pair leaves items where the sequence puts
them. Where its answers contradict each other in plain sight, sorting breaks off.

Short lists are sorted by insertion. Longer ones are cut into runs, which are stretches in order or
pieces that are sorted on their own, and the runs are merged along a balanced tree. Pieces that are
not worth merging are joined and divided around a pivot instead.
-/

namespace Formulary.Sorting

/-- Computations that can break off without a result. -/
class BreaksOff (m : Type → Type) where
  breakOff : {β : Type} → m β

export BreaksOff (breakOff)

variable {α : Type} {m : Type → Type} [Monad m]

/-! ### Insertion -/

/-- Moves `x` left past the items that it is less than; `sorted` holds them in reverse. -/
@[specialize] def insertLast (less : α → α → m Bool) (x : α) : (sorted : List α) → m (List α)
  | [] => pure [x]
  | y :: rest => do
    if ← less x y then return y :: (← insertLast less x rest) else return x :: y :: rest

/-- Inserts items from the left into those that are sorted already, in reverse. -/
@[specialize] def insertAll (less : α → α → m Bool) (sorted items : List α) : m (List α) :=
  items.foldlM (fun sorted x ↦ insertLast less x sorted) sorted

/-- Sorts by inserting each item among those before it. -/
@[specialize] def insertionSort (less : α → α → m Bool) (items : List α) : m (List α) :=
  return (← insertAll less [] items).reverse

/-! ### Small pieces -/

/-- Sorts four items by five comparisons. -/
@[specialize] def sortFour (less : α → α → m Bool) (a b c d : α) : m (List α) := do
  let swapFirst ← less b a
  let swapSecond ← less d c
  let (a, b) := if swapFirst then (b, a) else (a, b)
  let (c, d) := if swapSecond then (d, c) else (c, d)
  let leastSecond ← less c a
  let greatestFirst ← less d b
  let least := if leastSecond then c else a
  let greatest := if greatestFirst then b else d
  let left := if leastSecond then a else if greatestFirst then c else b
  let right := if greatestFirst then d else if leastSecond then b else c
  if ← less right left then return [least, right, left, greatest]
  else return [least, left, right, greatest]

/-- The start of a piece, sorted and in reverse, and the rest: four items if asked for, and
otherwise one. -/
@[specialize] def sortStart (less : α → α → m Bool) (four : Bool) :
    List α → m (List α × List α)
  | [] => pure ([], [])
  | x :: rest =>
    match four, rest with
    | true, b :: c :: d :: rest => do return ((← sortFour less x b c d).reverse, rest)
    | _, rest => pure ([x], rest)

/-- Merges two sorted halves from both ends at once, by as many steps as the left half has items.
The halves are given forwards and in reverse, `half` is the size of the left one, and `taken` counts
what either end has taken from it. If the right half is longer, which `odd` says, one item is left
over. Under an order the two ends meet. -/
@[specialize] def mergeInward [BreaksOff m] (less : α → α → m Bool) (odd : Bool) (half : Nat)
    (front back : List α) (taken : Nat) :
    (steps : Nat) → (left right leftBack rightBack : List α) → m (List α)
  | steps + 1, l :: left, r :: right, y :: leftBack, z :: rightBack => do
    let upRight ← less r l
    let downLeft ← less z y
    let front := if upRight then r :: front else l :: front
    let back := if downLeft then y :: back else z :: back
    let (left, right) := if upRight then (l :: left, right) else (left, r :: right)
    let (leftBack, rightBack) :=
      if downLeft then (leftBack, z :: rightBack) else (y :: leftBack, rightBack)
    let taken := taken + (if upRight then 0 else 1) + (if downLeft then 1 else 0)
    mergeInward less odd half front back taken steps left right leftBack rightBack
  | _, left, right, _, _ =>
    if taken = half then
      return front.reverse ++ (if odd then right.take 1 else []) ++ back
    else if odd && taken + 1 = half then
      return front.reverse ++ left.take 1 ++ back
    else breakOff

/-- The most items of a piece that is sorted as a whole. -/
def smallLimit : Nat := 32

/-- Sorts a small piece: its halves by insertion, and then both together. -/
@[specialize] def smallSort [BreaksOff m] (less : α → α → m Bool) (items : List α) :
    m (List α) := do
  let size := items.length
  if size < 2 then return items
  let (left, right) := items.splitAt (size / 2)
  let (leftStart, left) ← sortStart less (8 ≤ size) left
  let (rightStart, right) ← sortStart less (8 ≤ size) right
  let leftBack ← insertAll less leftStart left
  let rightBack ← insertAll less rightStart right
  mergeInward less (size % 2 = 1) (size / 2) [] [] 0 (size / 2) leftBack.reverse
    rightBack.reverse leftBack rightBack

/-! ### Merging -/

/-- Merges two sorted lists from the start; `merged` is in reverse. -/
@[specialize] def mergeUp (less : α → α → m Bool) (merged : List α) :
    (left right : List α) → m (List α)
  | [], right => return merged.reverse ++ right
  | left, [] => return merged.reverse ++ left
  | l :: left, r :: right => do
    if ← less r l then mergeUp less (r :: merged) (l :: left) right
    else mergeUp less (l :: merged) left (r :: right)
termination_by left right => left.length + right.length

/-- Merges two sorted lists from the end; they are given in reverse. -/
@[specialize] def mergeDown (less : α → α → m Bool) (merged : List α) :
    (left right : List α) → m (List α)
  | [], right => return right.reverse ++ merged
  | left, [] => return left.reverse ++ merged
  | l :: left, r :: right => do
    if ← less r l then mergeDown less (l :: merged) left (r :: right)
    else mergeDown less (r :: merged) (l :: left) right
termination_by left right => left.length + right.length

/-- Merges two sorted lists from the end where the shorter one stands. -/
@[specialize] def mergeSorted (less : α → α → m Bool) (left right : List α) : m (List α) :=
  if left.length ≤ right.length then mergeUp less [] left right
  else mergeDown less [] left.reverse right.reverse

/-! ### Runs -/

/-- A stretch of the list: in order, or still to be sorted. -/
structure Run (α : Type) where
  sorted : Bool
  size : Nat
  items : List α

/-- The items of a run in order, by `sort` if they are still to be sorted. -/
@[specialize] def Run.inOrder (sort : List α → m (List α)) (run : Run α) : m (List α) :=
  if run.sorted then pure run.items else sort run.items

/-- How many more items continue a stretch after `previous`, which is descending or is not. -/
@[specialize] def stretch (less : α → α → m Bool) (descending : Bool) (count : Nat)
    (previous : α) : List α → m Nat
  | [] => pure count
  | x :: rest => do
    if (← less x previous) == descending then stretch less descending (count + 1) x rest
    else return count

/-- The length of the stretch in order that a list starts with, and whether it is descending. -/
@[specialize] def findRun (less : α → α → m Bool) : List α → m (Nat × Bool)
  | first :: second :: rest => do
    let descending ← less second first
    return (← stretch less descending 2 second rest, descending)
  | items => return (items.length, false)

/-- Looks for a stretch of at least `minRun` items in a list of `size` items. -/
@[specialize] def runAhead (less : α → α → m Bool) (minRun size : Nat) (items : List α) :
    m (Nat × Bool) :=
  if minRun ≤ size then findRun less items else pure (0, false)

/-- The next run of a list of `size` items, and the rest. A stretch in order counts from `minRun`
items on. Otherwise the run is a small piece, which is sorted now if `eager` says so. -/
@[specialize] def nextRun [BreaksOff m] (less : α → α → m Bool) (eager : Bool)
    (minRun size : Nat) (items : List α) : m (Run α × List α) := do
  let (found, descending) ← runAhead less minRun size items
  if minRun ≤ found then
    let (run, rest) := items.splitAt found
    return (⟨true, found, if descending then run.reverse else run⟩, rest)
  else if eager then
    let (run, rest) := items.splitAt smallLimit
    return (⟨true, min smallLimit size, ← smallSort less run⟩, rest)
  else
    let (run, rest) := items.splitAt minRun
    return (⟨false, min minRun size, run⟩, rest)

/-- Joins two neighbouring runs. Two that are still to be sorted stay so, if there is room to sort
them together. -/
@[specialize] def joinRuns (less : α → α → m Bool) (sort : List α → m (List α)) (room : Nat)
    (left right : Run α) : m (Run α) := do
  let size := left.size + right.size
  if size ≤ room && !left.sorted && !right.sorted then
    return ⟨false, size, left.items ++ right.items⟩
  else
    let first ← left.inOrder sort
    let second ← right.inOrder sort
    return ⟨true, size, ← mergeSorted less first second⟩

/-- Joins the last run with those before it that lie at least as deep in the tree as `depth`. -/
@[specialize] def collapse (less : α → α → m Bool) (sort : List α → m (List α)) (room depth : Nat) :
    (before : List (Run α × Nat)) → (last : Run α) → m (List (Run α × Nat) × Run α)
  | [], last => pure ([], last)
  | (run, level) :: before, last =>
    if depth ≤ level then do
      collapse less sort room depth before (← joinRuns less sort room run last)
    else pure ((run, level) :: before, last)

/-- How deep the boundary between two neighbouring runs lies in the tree: the number of leading bits
that the middles of the two have in common, as fractions of the whole. -/
def boundaryDepth (size left middle right : Nat) : Nat :=
  let scale := (4611686018427387904 + size - 1) / size
  let differing := Nat.xor (scale * (left + middle)) (scale * (middle + right))
  if differing = 0 then 64 else 63 - differing.log2

/-- The fewest items of a stretch that is kept as a run: half the list or 64 items, and about the
square root of the size in long lists. -/
def minRunOf (size : Nat) : Nat :=
  if size ≤ 4096 then min (size - size / 2) 64
  else
    let power := Nat.pow 2 ((1 + size.log2) / 2)
    (power + size / power) / 2

/-- Cuts a list into runs and joins them as they come. `start` is where the rest starts, `last` the
run before it, and `before` holds the earlier ones, the nearest first. -/
@[specialize] def joinAll [BreaksOff m] (less : α → α → m Bool) (eager : Bool)
    (sort : List α → m (List α)) (room size : Nat) : (fuel : Nat) →
    (before : List (Run α × Nat)) → (last : Run α) → (start : Nat) → (rest : List α) → m (Run α)
  | 0, _, last, _, _ => pure last
  | fuel + 1, before, last, start, rest => do
    if rest.isEmpty then return (← collapse less sort room 0 before last).2
    else
      let (next, rest) ← nextRun less eager (minRunOf size) (size - start) rest
      if start = 0 then joinAll less eager sort room size fuel [] next next.size rest
      else
        let stop := start + next.size
        let depth := boundaryDepth size (start - last.size) start stop
        let (before, last) ← collapse less sort room depth before last
        joinAll less eager sort room size fuel ((last, depth) :: before) next stop rest

/-- Sorts by runs; pieces that are still to be sorted in the end are given to `sort`. -/
@[specialize] def runSort [BreaksOff m] (less : α → α → m Bool) (eager : Bool)
    (sort : List α → m (List α)) (room : Nat) (items : List α) : m (List α) := do
  let size := items.length
  (← joinAll less eager sort room size (size + 1) [] ⟨true, 0, []⟩ 0 items).inOrder sort

/-! ### Pivots -/

/-- Of three places the one whose item lies between the other two. -/
@[specialize] def median (less : α → α → m Bool) (get : Nat → α) (a b c : Nat) : m Nat := do
  let first ← less (get a) (get b)
  let second ← less (get a) (get c)
  if first == second then
    let third ← less (get b) (get c)
    return if third == first then b else c
  else return a

/-- A place near the middle of the order: the median of three, each of which stands for the `n`
places from it on. -/
@[specialize] def medianNear (less : α → α → m Bool) (get : Nat → α) (a b c n : Nat) : m Nat :=
  if 8 ≤ n then do
    let k := n / 8
    let a ← medianNear less get a (a + 4 * k) (a + 7 * k) k
    let b ← medianNear less get b (b + 4 * k) (b + 7 * k) k
    let c ← medianNear less get c (c + 4 * k) (c + 7 * k) k
    median less get a b c
  else median less get a b c
termination_by n

/-- The place of a pivot among `size` items. -/
@[specialize] def pivotPlace (less : α → α → m Bool) (get : Nat → α) (size : Nat) : m Nat :=
  let k := size / 8
  if size < 64 then median less get 0 (4 * k) (7 * k) else medianNear less get 0 (4 * k) (7 * k) k

/-- Whether a pivot is no greater than the one before it. -/
@[specialize] def repeatsPivot (less : α → α → m Bool) (ancestor : Option α) (pivot : α) : m Bool :=
  match ancestor with
  | some p => do return !(← less p pivot)
  | none => pure false

/-- Divides a list, of which the next item has place `i`, after what is divided already, in reverse.
-/
@[specialize] def divideFrom (place : Nat) (placeFirst : Bool) (goesFirst : α → m Bool)
    (first second : List α) : (i : Nat) → List α → m (List α × List α)
  | _, [] => return (first.reverse, second.reverse)
  | i, x :: rest => do
    if ← (if i = place then pure placeFirst else goesFirst x) then
      divideFrom place placeFirst goesFirst (x :: first) second (i + 1) rest
    else divideFrom place placeFirst goesFirst first (x :: second) (i + 1) rest

/-- Divides a list in two, keeping the order within both parts. The item at `place` is not asked
about. -/
@[specialize] def divide (place : Nat) (placeFirst : Bool) (goesFirst : α → m Bool)
    (items : List α) : m (List α × List α) :=
  divideFrom place placeFirst goesFirst [] [] 0 items

/-- The items that are less than a pivot, and the others. Nothing is less than a pivot that repeats
an earlier one. -/
@[specialize] def divideAround (less : α → α → m Bool) (ancestor : Option α) (place : Nat)
    (pivot : α) (items : List α) : m (List α × List α) := do
  if ← repeatsPivot less ancestor pivot then return ([], items)
  else divide place false (fun x ↦ less x pivot) items

/-- Sets apart the items that equal a pivot that nothing is less than, and sorts the others. -/
@[specialize] def setApart (less : α → α → m Bool) (sort : List α → m (List α)) (place : Nat)
    (pivot : α) (items : List α) : m (List α) := do
  let (equal, larger) ← divide place true (fun x ↦ do return !(← less pivot x)) items
  return equal ++ (← sort larger)

/-- Sorts by dividing around pivots. `ancestor` is the pivot that everything here is known not to be
less than: a pivot equal to it is followed by no smaller items, so the items equal to it are set
apart at once. After `limit` divisions the rest is sorted by runs. -/
@[specialize] def pivotSort [BreaksOff m] (less : α → α → m Bool) :
    (limit : Nat) → (ancestor : Option α) → List α → m (List α)
  | _, _, [] => pure []
  | limit, ancestor, first :: others => do
    let items := first :: others
    let size := items.length
    if size ≤ smallLimit then smallSort less items
    else
      match limit with
      | 0 => runSort less true (smallSort less) size items
      | limit + 1 =>
        let array := items.toArray
        let get := fun i ↦ array.getD i first
        let place ← pivotPlace less get size
        let pivot := get place
        let (smaller, larger) ← divideAround less ancestor place pivot items
        if smaller.isEmpty then setApart less (pivotSort less limit none) place pivot items
        else
          let larger ← pivotSort less limit (some pivot) larger
          let smaller ← pivotSort less limit ancestor smaller
          return smaller ++ larger

/-! ### Lists of any length -/

/-- The most items that are sorted by insertion. -/
def insertionLimit : Nat := 20

/-- The most items that runs can be joined to without being sorted, in any list. -/
def roomLimit : Nat := 333333

/-- Sorts a list so that items of which neither is less stay in their order. -/
@[specialize] def stableSort [BreaksOff m] (less : α → α → m Bool) (items : List α) :
    m (List α) :=
  let size := items.length
  if size ≤ insertionLimit then insertionSort less items
  else
    let sort := fun piece : List α ↦ pivotSort less (2 * piece.length.log2) none piece
    runSort less (size ≤ 2 * smallLimit) sort (max (size - size / 2) (min size roomLimit)) items

end Formulary.Sorting
