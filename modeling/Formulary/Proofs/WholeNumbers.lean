import Formulary.Decimal.Reader
import Mathlib.Algebra.Ring.Nat
import Mathlib.Data.List.TakeWhile
import Mathlib.Data.Nat.Digits.Defs

/-!
# Whole numbers in digits

Digits denote a number by the weights of their places, whatever its size, and a sign before them its
opposite. They are read as the integer that they denote if that is in range, and otherwise not at
all (`Decimal.readInt_append`). Integers are written in digits that denote them
(`Decimal.denoted_toDigits`).
-/

namespace Formulary.Decimal

variable {c : Char} {sign w : List Char} {n : Nat}

/-- A run of decimal digits. -/
def IsDigits (w : List Char) : Prop := w ≠ [] ∧ ∀ c ∈ w, c.isDigit = true

/-- A sign, or nothing. -/
def IsSign (w : List Char) : Prop := w = [] ∨ w = ['+'] ∨ w = ['-']

/-- The integer that digits denote after a sign. The last digit has the least weight. -/
def denoted (sign digits : List Char) : Int :=
  let magnitude : Nat := Nat.ofDigits 10 (digits.reverse.map fun c ↦ c.toNat - '0'.toNat)
  if sign = ['-'] then -magnitude else magnitude

/-! ### Values -/

theorem ofDigits_eq_digitsValue (w : List Char) :
    Nat.ofDigits 10 (w.reverse.map fun c ↦ c.toNat - '0'.toNat) = digitsValue w := by
  rw [Nat.ofDigits_eq_foldr, List.foldr_map, digitsValue, List.foldl_eq_foldr_reverse]
  simp only [Nat.cast_id, Nat.add_comm]

theorem denoted_eq (sign w : List Char) :
    denoted sign w = if sign = ['-'] then -(digitsValue w : Int) else digitsValue w := by
  rw [denoted, ofDigits_eq_digitsValue]

theorem mul_pow_le_foldl (cs : List Char) (n : Nat) :
    n * 10 ^ cs.length ≤ cs.foldl (fun n c ↦ 10 * n + (c.toNat - '0'.toNat)) n := by
  induction cs generalizing n with
  | nil => simp
  | cons c cs ih =>
    calc n * 10 ^ (c :: cs).length
        = 10 * n * 10 ^ cs.length := by
          rw [List.length_cons, Nat.pow_succ', ← Nat.mul_assoc, Nat.mul_comm n 10]
      _ ≤ (10 * n + (c.toNat - '0'.toNat)) * 10 ^ cs.length :=
          Nat.mul_le_mul_right _ (Nat.le_add_right _ _)
      _ ≤ _ := ih _

/-- A number with so many digits is so large. -/
theorem pow_le_digitsValue (digit : c.isDigit = true) (nonzero : c ≠ '0') (cs : List Char) :
    10 ^ cs.length ≤ digitsValue (c :: cs) := by
  have first : 1 ≤ c.toNat - '0'.toNat := by
    have above : '0'.toNat ≤ c.toNat := by
      simp only [Char.isDigit, Bool.and_eq_true, decide_eq_true_eq] at digit
      exact digit.1
    have other : c.toNat ≠ '0'.toNat := fun h ↦ nonzero (Char.ext (UInt32.toNat_inj.mp h))
    omega
  calc 10 ^ cs.length
      ≤ (10 * 0 + (c.toNat - '0'.toNat)) * 10 ^ cs.length :=
        Nat.le_mul_of_pos_left _ (by omega)
    _ ≤ digitsValue (c :: cs) := mul_pow_le_foldl cs _

/-- Leading zeros do not matter. -/
theorem digitsValue_dropWhile (cs : List Char) :
    digitsValue (cs.dropWhile (· = '0')) = digitsValue cs := by
  induction cs with
  | nil => rfl
  | cons c cs ih =>
    by_cases zero : c = '0'
    · subst zero
      rw [List.dropWhile_cons_of_pos (by simp), ih]
      rfl
    · rw [List.dropWhile_cons_of_neg (by simpa using zero)]

/-- No integer of 64 bits has more than 19 digits after leading zeros. -/
theorem maxInt_succ_lt_of_long (digit : ∀ c ∈ w, c.isDigit = true)
    (long : 19 < (w.dropWhile (· = '0')).length) : maxInt + 1 < digitsValue w := by
  rw [← digitsValue_dropWhile w]
  cases hd : w.dropWhile (· = '0') with
  | nil =>
    rw [hd] at long
    cases long
  | cons c cs =>
    have nonzero : c ≠ '0' := by
      have first := List.head_dropWhile_not (p := (· = '0')) (l := w) (by simp [hd])
      simpa [hd] using first
    have member : c ∈ w := (List.dropWhile_suffix (· = '0')).mem (hd ▸ List.mem_cons_self)
    have least := pow_le_digitsValue (digit c member) nonzero cs
    rw [hd, List.length_cons] at long
    have power : 10 ^ 19 ≤ 10 ^ cs.length := Nat.pow_le_pow_right (by omega) (by omega)
    unfold maxInt
    omega

/-! ### Reading -/

theorem readSign_of_isDigit (digit : ∀ c ∈ w, c.isDigit = true) : readSign w = (false, w) := by
  unfold readSign
  split
  · exact absurd (digit '-' List.mem_cons_self) (by decide)
  · exact absurd (digit '+' List.mem_cons_self) (by decide)
  · rfl

theorem readSign_append (hs : IsSign sign) (digit : ∀ c ∈ w, c.isDigit = true) :
    readSign (sign ++ w) = (decide (sign = ['-']), w) := by
  rcases hs with rfl | rfl | rfl
  · exact readSign_of_isDigit digit
  · rfl
  · rfl

/-- A sign and digits are read as the integer that they denote, unless it is out of range. -/
theorem readInt_append (hs : IsSign sign) (h : IsDigits w) :
    readInt (sign ++ w) = toInt64? (denoted sign w) := by
  obtain ⟨nonempty, digit⟩ := h
  have all : w.all Char.isDigit = true := List.all_eq_true.mpr digit
  rw [readInt, readSign_append hs digit, denoted_eq]
  simp only [List.isEmpty_eq_false_iff.mpr nonempty, all, Bool.not_true, Bool.or_self,
    Bool.false_or, decide_eq_true_eq, digitsValue_dropWhile]
  split
  case isTrue long =>
    -- The opposite of so large a number is out of range too.
    have large := maxInt_succ_lt_of_long digit long
    rw [toInt64?, if_neg]
    unfold minInt maxInt at *
    split <;> omega
  case isFalse => rfl

/-- Without a sign only the upper end of the range matters. -/
theorem readInt_of_isDigits (h : IsDigits w) :
    readInt w = if maxInt < digitsValue w then none else some (Int64.ofInt (digitsValue w)) := by
  have read := readInt_append (.inl rfl) h
  rw [List.nil_append, denoted_eq, if_neg (by simp), toInt64?] at read
  rw [read]
  by_cases large : maxInt < digitsValue w
  · rw [if_pos large, if_neg]
    omega
  · rw [if_neg large, if_pos]
    unfold minInt
    omega

/-! ### Writing -/

theorem isDigits_toDigits (n : Nat) : IsDigits (Nat.toDigits 10 n) :=
  ⟨Nat.toDigits_ne_nil, fun _ ↦ Nat.isDigit_of_mem_toDigits (by omega) (by omega)⟩

theorem digitsValue_toDigits (n : Nat) : digitsValue (Nat.toDigits 10 n) = n := by
  rw [digitsValue, ← Nat.ofDigitChars_eq_foldl]
  exact Nat.ofDigitChars_ten_toDigits

/-- The digits of a number are read as that number. -/
theorem readInt_toDigits (h : (n : Int) ≤ maxInt) :
    readInt (Nat.toDigits 10 n) = some (Int64.ofInt n) := by
  rw [readInt_of_isDigits (isDigits_toDigits n), digitsValue_toDigits, if_neg (by omega)]

/-- The sign that an integer is written with. -/
def signOf (z : Int) : List Char := if z < 0 then ['-'] else []

theorem isSign_signOf (z : Int) : IsSign (signOf z) := by
  unfold signOf IsSign
  split <;> simp

/-- An integer is written as a minus sign where it is negative, and the digits of its absolute
value. -/
theorem toList_toString (z : Int) : (toString z).toList = signOf z ++ Nat.toDigits 10 z.natAbs := by
  rw [Int.toString_eq_repr, Int.repr_eq_if, signOf]
  by_cases negative : z < 0
  · have magnitude : (-z).toNat = z.natAbs := by omega
    rw [if_neg (by omega), if_pos negative, magnitude, String.toList_append, Nat.toList_repr]
    rfl
  · have magnitude : z.toNat = z.natAbs := by omega
    rw [if_pos (by omega), if_neg negative, magnitude, Nat.toList_repr]
    rfl

theorem denoted_toDigits (z : Int) : denoted (signOf z) (Nat.toDigits 10 z.natAbs) = z := by
  rw [denoted_eq, digitsValue_toDigits, signOf]
  by_cases negative : z < 0
  · rw [if_pos negative, if_pos rfl]
    omega
  · rw [if_neg negative, if_neg (by simp)]
    omega

end Formulary.Decimal
