import Formulary.Proofs.ExactIntegers
import Formulary.Proofs.Numerals
import Formulary.Proofs.StandardMethods

/-!
# Texts as integers

The conversion of a text to an integer passes over white space, takes the sign and the digits that
stand there, and is zero where there are none or where they denote no integer of 64 bits. So it
gives the number of a numeral that has one, to the last digit, and it inverts the conversion of
integers to texts, whatever white space stands before and whatever but a digit after
(`Value.integers_from_text`).
-/

namespace Formulary

namespace Decimal

/-- A text that has a numeral right after its leading white space: a sign, or none, and digits. What
is left after it does not go on with another digit. -/
structure Leading (s : String) where
  blank : List Char
  sign : List Char
  digits : List Char
  rest : List Char
  parts : s.toList = blank ++ (sign ++ (digits ++ rest))
  isBlank : ∀ c ∈ blank, Text.isBlank c = true
  isSign : IsSign sign
  isDigits : IsDigits digits
  ends : ∀ c ∈ rest.head?, c.isDigit = false

namespace Leading

variable {s w t : String} {z : Int}

/-- The integer that the numeral denotes, of whatever size. -/
def value (d : Leading s) : Int := denoted d.sign d.digits

/-- An integer as it is written, between white space and something that is no digit. -/
def ofInt (z : Int) (isBlank : ∀ c ∈ w.toList, Text.isBlank c = true)
    (ends : ∀ c ∈ t.toList.head?, c.isDigit = false) : Leading (w ++ toString z ++ t) where
  blank := w.toList
  sign := signOf z
  digits := Nat.toDigits 10 z.natAbs
  rest := t.toList
  parts := by simp only [String.toList_append, toList_toString, List.append_assoc]
  isBlank := isBlank
  isSign := isSign_signOf z
  isDigits := isDigits_toDigits z.natAbs
  ends := ends

theorem value_ofInt (isBlank : ∀ c ∈ w.toList, Text.isBlank c = true)
    (ends : ∀ c ∈ t.toList.head?, c.isDigit = false) : (ofInt z isBlank ends).value = z :=
  denoted_toDigits z

theorem isDigit_head? (d : Leading s) : ∀ c ∈ (d.digits ++ d.rest).head?, c.isDigit = true := by
  obtain ⟨nonempty, digit⟩ := d.isDigits
  intro c hc
  rw [List.head?_append_of_ne_nil _ nonempty] at hc
  exact digit c (List.mem_of_mem_head? hc)

/-- Neither signs nor digits are white space. -/
theorem isBlank_head? (d : Leading s) :
    ∀ c ∈ (d.sign ++ (d.digits ++ d.rest)).head?, Text.isBlank c = false := by
  rcases d.isSign with none | plus | minus
  · intro c hc
    rw [none] at hc
    have digit := Char.isDigit_iff_toNat.mp (d.isDigit_head? c hc)
    simp only [Text.isBlank, Text.blankRanges, Text.inRanges]
    grind
  · rw [plus]
    rintro c ⟨⟩
    decide
  · rw [minus]
    rintro c ⟨⟩
    decide

theorem trimStart_eq (d : Leading s) :
    Text.trimStart s.toList = d.sign ++ (d.digits ++ d.rest) := by
  rw [d.parts]
  exact (Token.takeWhile_append_of d.isBlank d.isBlank_head?).2

end Leading

theorem exists_sign (cs : List Char) :
    ∃ sign rest, cs = sign ++ rest ∧ IsSign sign ∧
      (sign = [] → ∀ c ∈ rest.head?, c ≠ '+' ∧ c ≠ '-') := by
  by_cases signed : ∃ c ∈ cs.head?, c = '+' ∨ c = '-'
  · obtain ⟨c, first, sign⟩ := signed
    obtain ⟨rest, rfl⟩ := List.head?_eq_some_iff.mp first
    refine ⟨[c], rest, rfl, .inr ?_, by simp⟩
    simpa using sign
  · exact ⟨[], cs, rfl, .inl rfl, fun _ ↦ by simpa using signed⟩

end Decimal

namespace Method

open Decimal (IsSign Leading readInt toInt64?)

variable {s : String} {sign cs : List Char}

theorem takeWhile_digits (cs : List Char) :
    (cs.takeWhile fun c ↦ c.isDigit || c = '-' || c = '+').takeWhile Char.isDigit =
      cs.takeWhile Char.isDigit := by
  rw [List.takeWhile_takeWhile]
  congr 1
  funext c
  cases c.isDigit <;> simp

/-- A sign counts only before everything else, and then the digits that follow it. -/
theorem leadingInt_of_trimStart (h : Text.trimStart s.toList = sign ++ cs) (hs : IsSign sign)
    (unsigned : sign = [] → ∀ c ∈ cs.head?, c ≠ '+' ∧ c ≠ '-') :
    leadingInt s = (readInt (sign ++ cs.takeWhile Char.isDigit)).getD 0 := by
  rw [leadingInt, Text.lead_eq, h]
  rcases hs with rfl | rfl | rfl
  · cases cs with
    | nil => rfl
    | cons c cs =>
      -- Signs are let through at any place, but none stands first, so only digits are kept.
      obtain ⟨plus, minus⟩ := unsigned rfl c rfl
      by_cases digit : c.isDigit = true
      · simp [digit, plus, minus, takeWhile_digits]
      · simp [digit, plus, minus]
  · simp [takeWhile_digits]
  · simp [takeWhile_digits]

/-- The leading numeral is what is read. -/
theorem leadingInt_eq (d : Leading s) : leadingInt s = (toInt64? d.value).getD 0 := by
  have unsigned : d.sign = [] → ∀ c ∈ (d.digits ++ d.rest).head?, c ≠ '+' ∧ c ≠ '-' := by
    intro _ c hc
    have digit := d.isDigit_head? c hc
    constructor <;> rintro rfl <;> cases digit
  rw [leadingInt_of_trimStart d.trimStart_eq d.isSign unsigned,
    (Token.takeWhile_append_of d.isDigits.2 d.ends).1, Decimal.readInt_append d.isSign d.isDigits]
  rfl

/-- A text without a leading numeral counts as zero. -/
theorem leadingInt_eq_zero_or (s : String) : leadingInt s = 0 ∨ Nonempty (Leading s) := by
  obtain ⟨sign, cs, split, isSign, unsigned⟩ := Decimal.exists_sign (Text.trimStart s.toList)
  by_cases none : cs.takeWhile Char.isDigit = []
  · left
    rw [leadingInt_of_trimStart split isSign unsigned, none, List.append_nil]
    rcases isSign with rfl | rfl | rfl <;> rfl
  · right
    refine ⟨{ blank := s.toList.takeWhile Text.isBlank
              sign := sign
              digits := cs.takeWhile Char.isDigit
              rest := cs.dropWhile Char.isDigit
              parts := ?_
              isBlank := fun c ↦ List.mem_takeWhile_imp
              isSign := isSign
              isDigits := ⟨none, fun c ↦ List.mem_takeWhile_imp⟩
              ends := Token.head?_dropWhile Char.isDigit cs }⟩
    rw [List.takeWhile_append_dropWhile, ← split]
    exact List.takeWhile_append_dropWhile.symm

theorem toInt_leadingInt (d : Leading s) (fits : Value.Fits d.value) :
    (leadingInt s).toInt = d.value := by
  rw [leadingInt_eq d, toInt64?, if_pos (Value.bounds_iff_fits.mpr fits)]
  exact Int64.toInt_ofInt_of_le fits.1 fits.2

theorem leadingInt_of_not_fits (d : Leading s) (large : ¬ Value.Fits d.value) :
    leadingInt s = 0 := by
  rw [leadingInt_eq d, toInt64?, if_neg (large ∘ Value.bounds_iff_fits.mp)]
  rfl

end Method

namespace Value

open Decimal (Leading)

/-- Integers are converted to texts and back without loss, and texts to integers exactly.

An integer comes back from its text, also with white space before it and with anything after it that
does not start with a digit. Every text is converted, to zero or to the integer that the numeral
after its leading white space denotes. If it has such a numeral then the result is what that
denotes, provided that 64 bits hold it, and otherwise zero. -/
theorem integers_from_text :
    (∀ (n : Int64) (args : List Value),
      ∃ shown, (int n).send "to_s" args = .ok (.str shown) ∧
        ∀ (w t : String) (args : List Value), (∀ c ∈ w.toList, Text.isBlank c = true) →
          (∀ c ∈ t.toList.head?, c.isDigit = false) →
          (str (w ++ shown ++ t)).send "to_i" args = .ok (.int n)) ∧
    ∀ (s : String) (args : List Value),
      ∃ n : Int64, (str s).send "to_i" args = .ok (.int n) ∧
        (n = 0 ∨ ∃ d : Leading s, n.toInt = d.value) ∧
        ∀ d : Leading s, (Fits d.value → n.toInt = d.value) ∧ (¬ Fits d.value → n = 0) := by
  have toI (s : String) (args : List Value) :
      (str s).send "to_i" args = .ok (.int (Method.leadingInt s)) :=
    send_name (str s) .toI args
  constructor
  · intro n args
    refine ⟨toString n.toInt, ?_, fun w t args isBlank ends ↦ ?_⟩
    · refine (send_name (int n) .toS args).trans ?_
      simp [Method.call, text, render]
    · have exact := Method.toInt_leadingInt (Leading.ofInt n.toInt isBlank ends)
      rw [Leading.value_ofInt] at exact
      rw [toI, Int64.toInt_inj.mp (exact (fits_toInt n))]
  · intro s args
    refine ⟨_, toI s args, ?_, fun d ↦
      ⟨Method.toInt_leadingInt d, Method.leadingInt_of_not_fits d⟩⟩
    rcases Method.leadingInt_eq_zero_or s with zero | ⟨⟨d⟩⟩
    · exact .inl zero
    · by_cases fits : Fits d.value
      · exact .inr ⟨d, Method.toInt_leadingInt d fits⟩
      · exact .inl (Method.leadingInt_of_not_fits d fits)

/-- The least integer, after an ideographic space and before a digit of another script. -/
theorem least_from_text :
    (int Int64.minValue).send "to_s" [] = .ok (.str "-9223372036854775808") ∧
      (str "\u3000\t-9223372036854775808\u0663").send "to_i" [] = .ok (.int Int64.minValue) := by
  obtain ⟨shown, text, back⟩ := integers_from_text.1 Int64.minValue []
  have digits : (int Int64.minValue).send "to_s" [] = .ok (.str "-9223372036854775808") := rfl
  obtain rfl : "-9223372036854775808" = shown := by
    rw [digits] at text
    injection text with same
    injection same
  refine ⟨digits, back "\u3000\t" "\u0663" [] (List.all_eq_true.mp rfl) ?_⟩
  rintro c ⟨⟩
  rfl

end Value

end Formulary
