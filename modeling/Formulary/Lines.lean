/-!
# Line and column lookup

Lines are numbered from 1 and columns count bytes from 0. Every offset has a line, also one past
the end of the text, which lies on the last line. The line of an offset is found by halving.
-/

namespace Formulary

/-- The byte offsets at which the lines of a text start. The first line starts with the text. -/
structure Lines where
  starts : Array Nat
  ascending : starts.toList.Pairwise (· < ·)
  first : starts[0]? = some 0

namespace Lines

/-- Offsets just after each newline of `cs`, which itself starts at `offset`. -/
def startsAfter (offset : Nat) : List Char → List Nat
  | [] => []
  | c :: cs =>
    if c = '\n' then (offset + 1) :: startsAfter (offset + 1) cs
    else startsAfter (offset + c.utf8Size) cs

/-- The lines after a place start after it. -/
theorem lt_of_mem_startsAfter {offset start : Nat} {cs : List Char}
    (h : start ∈ startsAfter offset cs) : offset < start := by
  induction cs generalizing offset with
  | nil => cases h
  | cons c cs ih =>
    rw [startsAfter] at h
    split at h
    · rcases List.mem_cons.mp h with rfl | h
      · omega
      · have := ih h
        omega
    · have := ih h
      omega

/-- Each line starts after the one before. -/
theorem pairwise_startsAfter (offset : Nat) (cs : List Char) :
    (startsAfter offset cs).Pairwise (· < ·) := by
  induction cs generalizing offset with
  | nil => exact .nil
  | cons c cs ih =>
    rw [startsAfter]
    split
    · exact .cons (fun _ h ↦ lt_of_mem_startsAfter h) (ih (offset + 1))
    · exact ih (offset + c.utf8Size)

/-- The lines of a text; there is always a first one. -/
def ofText (source : String) : Lines where
  starts := (0 :: startsAfter 0 source.toList).toArray
  ascending := .cons (fun _ h ↦ lt_of_mem_startsAfter h) (pairwise_startsAfter 0 source.toList)
  first := rfl

/-- The outcome of looking for an offset among starts of lines. -/
inductive Found where
  /-- The offset is the start with this number. -/
  | at (index : Nat)
  /-- The offset is none of them, and would come before the start with this number. -/
  | before (index : Nat)
deriving DecidableEq, Repr

/-- Looks for an offset among the starts with numbers from `left` to below `right`. -/
@[semireducible] def search (starts : Array Nat) (offset left right : Nat)
    (bound : right ≤ starts.size) : Found :=
  if more : left < right then
    let middle := left + (right - left) / 2
    if starts[middle] = offset then .at middle
    else if starts[middle] < offset then search starts offset (middle + 1) right bound
    else search starts offset left middle (by omega)
  else .before left
termination_by right - left

/-- Line number, from 1, of a byte offset. -/
def lineOf (l : Lines) (offset : Nat) : Nat :=
  match search l.starts offset 0 l.starts.size (Nat.le_refl _) with
  | .at index => index + 1
  | .before index => index - 1 + 1

/-- Start of the line that holds a byte offset. -/
def startOf (l : Lines) (offset : Nat) : Nat := l.starts.getD (l.lineOf offset - 1) 0

/-- Distance of a byte offset from the start of its line. -/
def columnOf (l : Lines) (offset : Nat) : Nat := offset - l.startOf offset

/-- Number of lines. -/
def count (l : Lines) : Nat := l.starts.size

end Lines

end Formulary
