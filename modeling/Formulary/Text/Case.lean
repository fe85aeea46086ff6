import Formulary.Text.CaseTable
import Formulary.Text.Expand

/-!
# Upper and lower case

Full Unicode case mapping of texts. A capital sigma at the end of a word becomes the final form:
before it, past characters that do not affect case, stands a cased character, and after it none.
-/

namespace Formulary.Text

/-- A case mapping: characters that expand to several, and runs of the others. -/
structure CaseMapping where
  expansions : Intervals (List Nat)
  runs : Intervals CaseRun

/-- The mapping with these tables. -/
def CaseMapping.ofTables (runs : List CaseRun) (expansions : List (Nat × List Nat)) :
    CaseMapping where
  expansions := .ofList ((expansions.mergeSort (·.1 ≤ ·.1)).map fun (n, codes) ↦ (n, n, codes))
  runs := .ofList ((runs.mergeSort (·.lo ≤ ·.lo)).map fun r ↦ (r.lo, r.hi, r))

/-- The characters that `c` maps to. -/
def CaseMapping.apply (m : CaseMapping) (c : Char) : List Char :=
  match m.expansions.find? c.toNat with
  | some codes => codes.map Char.ofNat
  | none =>
    match m.runs.find? c.toNat with
    | some r =>
      if (c.toNat - r.lo) % r.step = 0 then [Char.ofNat (c.toNat + r.shift).toNat] else [c]
    | none => [c]

/-- The mapping to upper case. -/
def upperMapping : CaseMapping := .ofTables upperRuns upperExpansions

/-- The mapping to lower case, apart from its context. -/
def lowerMapping : CaseMapping := .ofTables lowerRuns lowerExpansions

/-- Upper-case form of one character. -/
def upperChar (c : Char) : List Char := if c.toNat < 0x80 then [c.toUpper] else upperMapping.apply c

/-- Lower-case form of one character, wherever it stands. -/
def lowerChar (c : Char) : List Char := if c.toNat < 0x80 then [c.toLower] else lowerMapping.apply c

@[inherit_doc casedRanges] def cased : Intervals Unit := .ofRanges casedRanges

@[inherit_doc caseIgnorableRanges] def caseIgnorable : Intervals Unit :=
  .ofRanges caseIgnorableRanges

/-- A letter with upper, lower or title case. -/
def isCased (c : Char) : Bool := cased.holds c.toNat

/-- A character that does not separate a letter from the rest of its word. -/
def isCaseIgnorable (c : Char) : Bool := caseIgnorable.holds c.toNat

/-- Whether the first character that affects case is a cased one. -/
def reachesCased (cs : List Char) : Bool :=
  match cs.dropWhile isCaseIgnorable with
  | [] => false
  | c :: _ => isCased c

/-- Upper-case form of a text. -/
def upcase (s : String) : String := expand upperChar s

/-- Lower-case form of a character between what stands `before` it, in reverse, and `after` it. -/
def lowerBetween (before : List Char) (c : Char) (after : List Char) : List Char :=
  if c = 'Σ' then if reachesCased before && !reachesCased after then ['ς'] else ['σ']
  else lowerChar c

/-- Lower-case form of a text whose start `before`, in reverse, has become `lowered`, in reverse. -/
def downcaseFrom (lowered before : List Char) : List Char → List Char
  | [] => lowered.reverse
  | c :: cs => downcaseFrom ((lowerBetween before c cs).reverse ++ lowered) (c :: before) cs

/-- Lower-case form of a text. Without a capital sigma it is that of each character alone. -/
def downcase (s : String) : String :=
  if s.contains 'Σ' then String.ofList (downcaseFrom [] [] s.toList) else expand lowerChar s

theorem downcaseFrom_of_not_mem (lowered before cs : List Char) (h : 'Σ' ∉ cs) :
    downcaseFrom lowered before cs = lowered.reverse ++ cs.flatMap lowerChar := by
  induction cs generalizing lowered before with
  | nil => simp [downcaseFrom]
  | cons c cs ih =>
    rw [List.mem_cons, not_or] at h
    rw [downcaseFrom, ih _ _ h.2, lowerBetween, if_neg (Ne.symm h.1)]
    simp

@[simp] theorem toList_downcase (s : String) :
    (downcase s).toList = downcaseFrom [] [] s.toList := by
  unfold downcase
  split
  · simp
  · rename_i h
    rw [String.contains_char_eq, decide_eq_true_eq] at h
    rw [downcaseFrom_of_not_mem _ _ _ h, toList_expand]
    simp

end Formulary.Text
