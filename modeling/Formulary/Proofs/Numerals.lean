import Formulary.Proofs.Lexing
import Mathlib.Data.List.TakeWhile

/-!
# Numerals

Which texts are numbers, and what the scanner does with an input that starts with a digit. It takes
the longest number there (`Token.scanNumber_spec`). Every text of the form of a floating-point
number has a value (`Decimal.readFloat_of_isFloat`).
-/

namespace Formulary

namespace Decimal

variable {c : Char} {cs rest w : List Char}

/-- An exponent, or nothing. -/
def IsExponent (w : List Char) : Prop :=
  w = [] ∨ ∃ e sign ds, w = e :: (sign ++ ds) ∧ (e = 'e' ∨ e = 'E') ∧
    (sign = [] ∨ sign = ['+'] ∨ sign = ['-']) ∧ IsDigits ds

/-- A floating-point number as it is written in a script. -/
def IsFloat (w : List Char) : Prop :=
  ∃ whole fraction exponent, w = whole ++ '.' :: (fraction ++ exponent) ∧
    IsDigits whole ∧ IsDigits fraction ∧ IsExponent exponent

/-! ### Reading floating-point numbers -/

theorem Digits.scan_append (d : Digits) (read : Nat) (digit : ∀ c ∈ cs, c.isDigit = true)
    (ends : ∀ c ∈ rest.head?, c.isDigit = false) :
    d.scan read (cs ++ rest) = (cs.foldl push d, read + cs.length, rest) := by
  induction cs generalizing d read with
  | nil =>
    cases rest with
    | nil => rfl
    | cons c rest => simp [scan, ends c rfl]
  | cons c cs ih =>
    obtain ⟨first, others⟩ := List.forall_mem_cons.mp digit
    rw [List.cons_append, scan, if_pos first, ih _ _ others, List.length_cons]
    simp only [List.foldl_cons, Prod.mk.injEq, true_and, and_true]
    omega

theorem isDigit_head?_of_isExponent (h : IsExponent w) : ∀ c ∈ w.head?, c.isDigit = false := by
  rcases h with rfl | ⟨e, sign, ds, rfl, rfl | rfl, -, -⟩ <;> simp

/-- An exponent is read to its end. -/
theorem scanExponent_of_isExponent (h : IsExponent w) : (scanExponent w).2 = [] := by
  rcases h with rfl | ⟨e, sign, ds, rfl, he, hs, nonempty, digit⟩
  · rfl
  · have signed := readSign_append hs digit
    have taken : ds.takeWhile Char.isDigit = ds := List.takeWhile_eq_self_iff.mpr digit
    have left : ds.dropWhile Char.isDigit = [] := List.dropWhile_eq_nil_iff.mpr digit
    simp only [scanExponent, signed, readDigits, taken, left]
    rw [if_pos (by simpa using he)]

/-- A digit starts no name. -/
theorem scanNamed_of_isDigit (digit : c.isDigit = true) (negative : Bool) (cs : List Char) :
    scanNamed negative (c :: cs) = none := by
  have lower : c.toLower = c := by
    refine dif_neg fun upper ↦ ?_
    rw [Char.isDigit, Bool.and_eq_true, decide_eq_true_eq, decide_eq_true_eq] at digit
    exact absurd (UInt32.le_trans upper.1 digit.2) (by decide)
  have i : c ≠ 'i' := by
    rintro rfl
    exact absurd digit (by decide)
  have n : c ≠ 'n' := by
    rintro rfl
    exact absurd digit (by decide)
  simp [scanNamed, namedNumbers, afterName?, lower, i, n]

/-- A text of the form of a floating-point number has a value. -/
theorem readFloat_of_isFloat (h : IsFloat w) : ∃ x, readFloat w = some x := by
  obtain ⟨whole, fraction, exponent, rfl, ⟨nonempty, hw⟩, ⟨-, hf⟩, he⟩ := h
  obtain ⟨c, cs, rfl⟩ := List.exists_cons_of_ne_nil nonempty
  have first : c.isDigit = true := hw c List.mem_cons_self
  have signed : ∀ cs, readSign (c :: cs) = (false, c :: cs) := by
    intro cs
    unfold readSign
    split
    · exact absurd first (by simp_all)
    · exact absurd first (by simp_all)
    · rfl
  have unsigned : ∃ x, scanUnsigned false (c :: cs ++ '.' :: (fraction ++ exponent)) =
      some (x, []) := by
    rw [scanUnsigned, Digits.scan_append _ _ hw (by simp)]
    simp only
    rw [Digits.scan_append _ _ hf (isDigit_head?_of_isExponent he), if_neg (by simp)]
    simp only [scanExponent_of_isExponent he]
    exact ⟨_, rfl⟩
  obtain ⟨x, unsigned⟩ := unsigned
  refine ⟨x, ?_⟩
  rw [List.cons_append] at unsigned ⊢
  rw [readFloat, scanFloat, signed]
  simp only [scanNamed_of_isDigit first, unsigned]

end Decimal

namespace Token

open Decimal (IsDigits IsExponent IsFloat)

variable {c : Char} {cs rest w whole fraction : List Char}

/-! ### The longest number -/

section

variable {p : Char → Bool} {as bs rest' : List Char}

/-- A run of characters of some kind is as long as the input has them. -/
theorem length_le_of_run (all : ∀ c ∈ as, p c = true) (ends : ∀ c ∈ rest.head?, p c = false)
    (hw : ∀ c ∈ w, p c = true) (h : w <+: as ++ rest) : w.length ≤ as.length := by
  obtain ⟨t, ht⟩ := h
  have taken := congrArg (List.takeWhile p) ht
  rw [List.takeWhile_append_of_pos hw, (takeWhile_append_of all ends).1] at taken
  rw [← taken, List.length_append]
  exact Nat.le_add_right _ _

theorem run_unique (all : ∀ c ∈ as, p c = true) (ends : ∀ c ∈ rest.head?, p c = false)
    (all' : ∀ c ∈ bs, p c = true) (ends' : ∀ c ∈ rest'.head?, p c = false)
    (h : as ++ rest = bs ++ rest') : as = bs ∧ rest = rest' := by
  have left := takeWhile_append_of all ends
  have right := takeWhile_append_of all' ends'
  rw [h] at left
  exact ⟨left.1.symm.trans right.1, left.2.symm.trans right.2⟩

end

theorem isDigits_takeWhile (digit : c.isDigit = true) (cs : List Char) :
    IsDigits ((c :: cs).takeWhile Char.isDigit) := by
  refine ⟨?_, fun d hd ↦ List.mem_takeWhile_imp hd⟩
  rw [List.takeWhile_cons_of_pos digit]
  exact List.cons_ne_nil _ _

theorem head?_dropWhile (p : Char → Bool) (cs : List Char) :
    ∀ c ∈ (cs.dropWhile p).head?, p c = false := by
  intro c hc
  have first := List.head?_dropWhile_not p cs
  rw [Option.mem_def.mp hc] at first
  exact first

/-- An exponent is taken with all digits that follow. -/
theorem scanExponent_append (h : IsExponent w) (nonempty : w ≠ []) (rest : List Char) :
    scanExponent (w ++ rest) =
      (w ++ rest.takeWhile Char.isDigit, rest.dropWhile Char.isDigit) := by
  rcases h with rfl | ⟨e, sign, ds, rfl, he, signed, some, digit⟩
  · exact absurd rfl nonempty
  · obtain ⟨d, ds, rfl⟩ := List.exists_cons_of_ne_nil some
    have taken : (d :: ds ++ rest).takeWhile Char.isDigit =
        d :: ds ++ rest.takeWhile Char.isDigit := List.takeWhile_append_of_pos digit
    have left : (d :: ds ++ rest).dropWhile Char.isDigit = rest.dropWhile Char.isDigit :=
      List.dropWhile_append_of_pos digit
    have plain : (decide (d = '+') || decide (d = '-')) = false := by
      have first := digit d List.mem_cons_self
      by_contra other
      simp only [Bool.or_eq_false_iff, decide_eq_false_iff_not, not_and_or, not_not] at other
      rcases other with rfl | rfl <;> exact absurd first (by decide)
    have letter : (decide (e = 'e') || decide (e = 'E')) = true := by simpa using he
    rw [List.cons_append] at taken left
    rcases signed with rfl | rfl | rfl <;>
      simp [scanExponent, letter, plain, Decimal.readDigits, taken, left]

theorem scanExponent_cons (letter : (decide (c = 'e') || decide (c = 'E')) = true)
    (cs : List Char) :
    ∃ sign ds, cs = sign ++ ds ∧ (sign = [] ∨ sign = ['+'] ∨ sign = ['-']) ∧
      scanExponent (c :: cs) =
        if (ds.takeWhile Char.isDigit).isEmpty then ([], c :: cs)
        else (c :: sign ++ ds.takeWhile Char.isDigit, ds.dropWhile Char.isDigit) := by
  cases cs with
  | nil => exact ⟨[], [], rfl, .inl rfl, by simp [scanExponent, Decimal.readDigits]⟩
  | cons d ds =>
    by_cases hd : (decide (d = '+') || decide (d = '-')) = true
    · refine ⟨[d], ds, rfl, ?_, ?_⟩
      · rw [Bool.or_eq_true, decide_eq_true_eq, decide_eq_true_eq] at hd
        rcases hd with rfl | rfl <;> simp
      · simp only [scanExponent, letter, hd, Decimal.readDigits, if_true]
    · refine ⟨[], d :: ds, rfl, .inl rfl, ?_⟩
      simp only [scanExponent, letter, hd, Decimal.readDigits, if_true]
      rfl

theorem scanExponent_spec (cs : List Char) :
    IsExponent (scanExponent cs).1 ∧ (scanExponent cs).1 ++ (scanExponent cs).2 = cs := by
  cases cs with
  | nil => exact ⟨.inl rfl, rfl⟩
  | cons c cs =>
    by_cases letter : (decide (c = 'e') || decide (c = 'E')) = true
    · obtain ⟨sign, ds, rfl, signed, scanned⟩ := scanExponent_cons letter cs
      rw [scanned]
      split
      · exact ⟨.inl rfl, rfl⟩
      · next some =>
        refine ⟨.inr ⟨c, sign, ds.takeWhile Char.isDigit, rfl, by simpa using letter, signed,
          by simpa using some, fun d hd ↦ List.mem_takeWhile_imp hd⟩, ?_⟩
        simp only [List.cons_append, List.append_assoc, List.takeWhile_append_dropWhile]
    · have none : scanExponent (c :: cs) = ([], c :: cs) := if_neg letter
      rw [none]
      exact ⟨.inl rfl, rfl⟩

theorem length_le_scanExponent (h : IsExponent w) (start : w <+: cs) :
    w.length ≤ (scanExponent cs).1.length := by
  obtain ⟨rest, rfl⟩ := start
  by_cases empty : w = []
  · simp [empty]
  · rw [scanExponent_append h empty]
    simp

theorem scanNumber_int (hw : IsDigits whole) (ends : ∀ c ∈ rest.head?, c.isDigit = false)
    (noFraction : ∀ r, rest = '.' :: r → ∀ c ∈ r.head?, c.isDigit = false) :
    scanNumber (whole ++ rest) = ⟨intKind whole, whole, rest⟩ := by
  have taken := takeWhile_append_of hw.2 ends
  simp only [scanNumber, Decimal.readDigits, taken]
  split
  · next r =>
    have none : r.takeWhile Char.isDigit = [] := by
      cases r with
      | nil => rfl
      | cons d r => exact List.takeWhile_cons_of_neg (by simp [noFraction _ rfl d rfl])
    simp [none]
  · rfl

theorem scanNumber_float (hw : IsDigits whole) (hf : IsDigits fraction)
    (ends : ∀ c ∈ rest.head?, c.isDigit = false) :
    scanNumber (whole ++ '.' :: (fraction ++ rest)) =
      ⟨floatKind (whole ++ '.' :: (fraction ++ (scanExponent rest).1)),
        whole ++ '.' :: (fraction ++ (scanExponent rest).1), (scanExponent rest).2⟩ := by
  have point : ∀ c ∈ ('.' :: (fraction ++ rest)).head?, c.isDigit = false := by simp
  have taken := takeWhile_append_of hw.2 point
  have after := takeWhile_append_of hf.2 ends
  have some : fraction.isEmpty = false := List.isEmpty_eq_false_iff.mpr hf.1
  simp [scanNumber, Decimal.readDigits, taken, after, some]

/-- No fraction with an exponent goes further than the digits there and the exponent after them. -/
theorem length_le_of_fraction {fraction' exponent' : List Char} (hf : IsDigits fraction)
    (ends : ∀ c ∈ rest.head?, c.isDigit = false) (hf' : IsDigits fraction')
    (he' : IsExponent exponent') (start : fraction' ++ exponent' <+: fraction ++ rest) :
    fraction'.length + exponent'.length ≤ fraction.length + (scanExponent rest).1.length := by
  obtain ⟨t, ht⟩ := start
  rw [List.append_assoc] at ht
  by_cases none : exponent' = []
  · have shorter := length_le_of_run hf.2 ends hf'.2 ⟨_, ht⟩
    rw [none, List.length_nil]
    omega
  · have ends' : ∀ c ∈ (exponent' ++ t).head?, c.isDigit = false := by
      rw [List.head?_append_of_ne_nil _ none]
      exact Decimal.isDigit_head?_of_isExponent he'
    obtain ⟨rfl, same⟩ := run_unique hf'.2 ends' hf.2 ends ht
    have shorter := length_le_scanExponent he' ⟨t, same⟩
    omega

/-- An input that starts with a digit is a whole number that ends there, or one that goes on with a
fraction. -/
theorem number_cases (digit : c.isDigit = true) (cs : List Char) :
    (∃ whole rest, c :: cs = whole ++ rest ∧ IsDigits whole ∧
      (∀ c ∈ rest.head?, c.isDigit = false) ∧
      ∀ r, rest = '.' :: r → ∀ c ∈ r.head?, c.isDigit = false) ∨
    ∃ whole fraction rest, c :: cs = whole ++ '.' :: (fraction ++ rest) ∧ IsDigits whole ∧
      IsDigits fraction ∧ ∀ c ∈ rest.head?, c.isDigit = false := by
  have whole := isDigits_takeWhile digit cs
  have ends := head?_dropWhile Char.isDigit (c :: cs)
  have cut := (List.takeWhile_append_dropWhile (p := Char.isDigit) (l := c :: cs)).symm
  by_cases point : ∃ d r, (c :: cs).dropWhile Char.isDigit = '.' :: d :: r ∧ d.isDigit = true
  · obtain ⟨d, r, hr, hd⟩ := point
    refine .inr ⟨_, _, _, ?_, whole, isDigits_takeWhile hd r, head?_dropWhile Char.isDigit (d :: r)⟩
    rw [List.takeWhile_append_dropWhile, ← hr]
    exact cut
  · refine .inl ⟨_, _, cut, whole, ends, fun r hr d hd ↦ ?_⟩
    cases r with
    | nil => cases hd
    | cons e r =>
      cases hd
      by_contra other
      exact point ⟨_, r, hr, by simpa using other⟩

/-- The scanner takes the longest number. -/
theorem scanNumber_spec (digit : c.isDigit = true) (cs : List Char) :
    ∃ w rest, c :: cs = w ++ rest ∧
      (IsFloat w ∧ scanNumber (c :: cs) = ⟨floatKind w, w, rest⟩ ∨
        IsDigits w ∧ scanNumber (c :: cs) = ⟨intKind w, w, rest⟩) ∧
      ∀ v, IsFloat v ∨ IsDigits v → v <+: c :: cs → v.length ≤ w.length := by
  rcases number_cases digit cs with ⟨whole, rest, cut, hw, ends, noFraction⟩ |
    ⟨whole, fraction, rest, cut, hw, hf, ends⟩
  · rw [cut]
    refine ⟨whole, rest, rfl, .inr ⟨hw, scanNumber_int hw ends noFraction⟩, ?_⟩
    rintro v (hv | hv) start
    · obtain ⟨whole', fraction', exponent', rfl, hw', hf', -⟩ := hv
      obtain ⟨t, ht⟩ := start
      rw [List.append_assoc, List.cons_append, List.append_assoc] at ht
      obtain ⟨rfl, hr⟩ := run_unique hw'.2 (by simp) hw.2 ends ht
      obtain ⟨d, ds, rfl⟩ := List.exists_cons_of_ne_nil hf'.1
      have other := noFraction _ hr.symm d rfl
      rw [hf'.2 d List.mem_cons_self] at other
      cases other
    · exact length_le_of_run hw.2 ends hv.2 start
  · obtain ⟨he, joined⟩ := scanExponent_spec rest
    rw [cut]
    refine ⟨whole ++ '.' :: (fraction ++ (scanExponent rest).1), (scanExponent rest).2, ?_,
      .inl ⟨⟨whole, fraction, _, rfl, hw, hf, he⟩, scanNumber_float hw hf ends⟩, ?_⟩
    · rw [List.append_assoc, List.cons_append, List.append_assoc, joined]
    rintro v (hv | hv) start
    · obtain ⟨whole', fraction', exponent', rfl, hw', hf', he'⟩ := hv
      obtain ⟨t, ht⟩ := start
      rw [List.append_assoc, List.cons_append, List.append_assoc] at ht
      obtain ⟨rfl, hr⟩ := run_unique hw'.2 (by simp) hw.2 (by simp) ht
      obtain ⟨-, hr⟩ := List.cons.inj hr
      have shorter := length_le_of_fraction hf ends hf' he' ⟨t, by rw [List.append_assoc, hr]⟩
      simp
      omega
    · have shorter := length_le_of_run hw.2 (by simp) hv.2 start
      simp
      omega

end Token

end Formulary
