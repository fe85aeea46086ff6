/-!
# White space

The characters with the Unicode property White_Space, and the operations that strip them or split
at them.
-/

namespace Formulary.Text

/-- Code point ranges of the White_Space property. -/
def blankRanges : List (Nat × Nat) :=
  [(0x9, 0xD), (0x20, 0x20), (0x85, 0x85), (0xA0, 0xA0), (0x1680, 0x1680), (0x2000, 0x200A),
    (0x2028, 0x2029), (0x202F, 0x202F), (0x205F, 0x205F), (0x3000, 0x3000)]

/-- Whether a code point lies in one of the ranges, ends included. The ranges ascend, so none after
the first that starts beyond `n` is looked at. -/
def inRanges : List (Nat × Nat) → Nat → Bool
  | [], _ => false
  | (lo, hi) :: ranges, n => if n < lo then false else n ≤ hi || inRanges ranges n

/-- A white space character. -/
def isBlank (c : Char) : Bool := inRanges blankRanges c.toNat

/-- Drops leading white space. -/
def trimStart (cs : List Char) : List Char := cs.dropWhile isBlank

/-- Drops white space at both ends. -/
def trim (cs : List Char) : List Char := (trimStart (trimStart cs).reverse).reverse

/-- The text without white space at both ends. -/
def strip (s : String) : String := ((s.dropWhile isBlank).dropEndWhile isBlank).copy

/-- The characters that a text starts with, white space aside, as long as they pass a test. -/
def lead (p : Char → Bool) (s : String) : List Char :=
  ((s.dropWhile isBlank).takeWhile p).copy.toList

/-- The runs of characters between white space, without empty ones. -/
def words (s : String) : List String :=
  ((s.split isBlank).toList.map String.Slice.copy).filter fun w ↦ !w.isEmpty

/-! ### What these are in characters -/

theorem dropWhile_of_append {as bs cs : List Char} (p : Char → Bool) (h : as ++ bs = cs)
    (ha : as.all p = true) (hb : bs.head?.any p = false) :
    cs.takeWhile p = as ∧ cs.dropWhile p = bs := by
  subst h
  have ha' : ∀ a ∈ as, p a = true := by simpa using ha
  rw [List.takeWhile_append_of_pos ha', List.dropWhile_append_of_pos ha']
  cases bs with
  | nil => simp
  | cons b bs => simp_all

theorem toList_takeWhile_dropWhile (p : Char → Bool) (s : String.Slice) :
    s.copy.toList.takeWhile p = (s.takeWhile p).copy.toList ∧
      s.copy.toList.dropWhile p = (s.dropWhile p).copy.toList := by
  have whole : (s.takeWhile p).copy ++ (s.dropWhile p).copy = s.copy :=
    String.Slice.takeWhile_append_dropWhile
  refine dropWhile_of_append p (by rw [← String.toList_append, whole]) ?_ ?_
  · rw [← String.Slice.all_bool_eq, String.Slice.all_takeWhile]
  · rw [← String.Slice.startsWith_bool_eq_head?, String.Slice.startsWith_dropWhile]

theorem toList_dropEndWhile (p : Char → Bool) (s : String.Slice) :
    (s.dropEndWhile p).copy.toList = (s.copy.toList.reverse.dropWhile p).reverse := by
  have whole : (s.dropEndWhile p).copy ++ (s.takeEndWhile p).copy = s.copy :=
    String.Slice.dropEndWhile_append_takeEndWhile
  have parts : (s.takeEndWhile p).copy.toList.reverse ++ (s.dropEndWhile p).copy.toList.reverse =
      s.copy.toList.reverse := by
    rw [← List.reverse_append, ← String.toList_append, whole]
  rw [(dropWhile_of_append p parts ?_ ?_).2, List.reverse_reverse]
  · rw [List.all_reverse, ← String.Slice.revAll_bool_eq, String.Slice.revAll_takeEndWhile]
  · rw [List.head?_reverse, ← String.Slice.endsWith_bool_eq_getLast?,
      String.Slice.endsWith_dropEndWhile]

theorem toList_dropWhile (p : Char → Bool) (s : String) :
    (s.dropWhile p).copy.toList = s.toList.dropWhile p := by
  have := (toList_takeWhile_dropWhile p s.toSlice).2
  simpa using this.symm

@[simp] theorem toList_strip (s : String) : (strip s).toList = trim s.toList := by
  rw [strip, toList_dropEndWhile, toList_dropWhile]
  rfl

theorem lead_eq (p : Char → Bool) (s : String) : lead p s = (trimStart s.toList).takeWhile p := by
  rw [lead, ← (toList_takeWhile_dropWhile p _).1, toList_dropWhile]
  rfl

theorem words_eq (s : String) :
    words s = ((s.toList.splitOnP isBlank).map String.ofList).filter fun w ↦ !w.isEmpty := by
  rw [words, String.toList_split_bool]

end Formulary.Text
