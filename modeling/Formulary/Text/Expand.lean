/-!
# Texts made character by character

A text in which every character is replaced by some characters, a text repeated, and a text
backwards. Each is put together as it is read; what it consists of is said by a lemma about its
characters.
-/

namespace Formulary.Text

/-- The text with these characters added at its end. -/
def pushAll (s : String) (cs : List Char) : String := cs.foldl String.push s

@[simp] theorem toList_pushAll (s : String) (cs : List Char) :
    (pushAll s cs).toList = s.toList ++ cs := by
  induction cs generalizing s with
  | nil => simp [pushAll]
  | cons c cs ih =>
    have step : pushAll s (c :: cs) = pushAll (s.push c) cs := rfl
    rw [step, ih]
    simp

/-- The text with every character replaced by what it expands to. -/
@[specialize] def expand (f : Char → List Char) (s : String) : String :=
  s.foldl (fun done c ↦ pushAll done (f c)) ""

theorem toList_foldl_pushAll (f : Char → List Char) (cs : List Char) (done : String) :
    (cs.foldl (fun done c ↦ pushAll done (f c)) done).toList = done.toList ++ cs.flatMap f := by
  induction cs generalizing done with
  | nil => simp
  | cons c cs ih => simp [ih]

@[simp] theorem toList_expand (f : Char → List Char) (s : String) :
    (expand f s).toList = s.toList.flatMap f := by
  rw [expand, String.foldl_eq_foldl_toList, toList_foldl_pushAll]
  simp

/-- The text backwards. -/
def backwards (s : String) : String := s.foldr (fun c done ↦ done.push c) ""

@[simp] theorem toList_backwards (s : String) : (backwards s).toList = s.toList.reverse := by
  rw [backwards, String.foldr_eq_foldr_toList]
  induction s.toList with
  | nil => simp
  | cons c cs ih => simp [ih]

/-- The text `n` times in a row, put together from halves. -/
def repeated (s : String) (n : Nat) : String :=
  if n = 0 then ""
  else
    let half := repeated s (n / 2)
    if n % 2 = 0 then half ++ half else half ++ half ++ s

/-- A repeated text has its characters as often. -/
theorem toList_repeated (s : String) (n : Nat) :
    (repeated s n).toList = (List.replicate n s.toList).flatten := by
  induction n using Nat.strongRecOn with
  | ind n ih =>
    unfold repeated
    split
    · simp [*]
    · have half := ih (n / 2) (by omega)
      have twice : (List.replicate (n / 2) s.toList).flatten ++
          (List.replicate (n / 2) s.toList).flatten =
            (List.replicate (n / 2 + n / 2) s.toList).flatten := by
        rw [← List.flatten_append, List.replicate_append_replicate]
      split
      · simp only [String.toList_append, half, twice]
        rw [show n / 2 + n / 2 = n by omega]
      · simp only [String.toList_append, half, twice]
        rw [← List.flatten_concat, ← List.replicate_succ', show n / 2 + n / 2 + 1 = n by omega]

end Formulary.Text
