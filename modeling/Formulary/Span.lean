/-!
# Source spans

A span is a range of byte offsets into a script's text. Spans are plain data: one may lie outside
the text or run backwards, and then covers nothing.
-/

namespace Formulary

/-- The bytes from `start` up to, but not including, `stop`. -/
structure Span where
  start : Nat
  stop : Nat
deriving DecidableEq, Repr, Inhabited

namespace Span

/-- Number of bytes covered. -/
def length (s : Span) : Nat := s.stop - s.start

/-- A span that covers no byte. -/
def isEmpty (s : Span) : Bool := decide (s.stop ≤ s.start)

/-- The least span that covers both. -/
def merge (a b : Span) : Span := ⟨min a.start b.start, max a.stop b.stop⟩

/-- Written `start..stop`. -/
def text (s : Span) : String := s!"{s.start}..{s.stop}"

/-- Splits off the characters that fill exactly `n` bytes, if the cut falls between two of them. -/
def splitBytes : Nat → List Char → Option (List Char × List Char)
  | 0, cs => some ([], cs)
  | _ + 1, [] => none
  | n + 1, c :: cs =>
    if c.utf8Size ≤ n + 1 then
      (splitBytes (n + 1 - c.utf8Size) cs).map fun (taken, rest) ↦ (c :: taken, rest)
    else none

/-- The covered text, or nothing when the span leaves the source or cuts a character. -/
def slice (s : Span) (source : String) : String :=
  if s.start ≤ s.stop then
    match splitBytes s.start source.toList with
    | some (_, rest) =>
      match splitBytes s.length rest with
      | some (taken, _) => String.ofList taken
      | none => ""
    | none => ""
  else ""

end Span

end Formulary
