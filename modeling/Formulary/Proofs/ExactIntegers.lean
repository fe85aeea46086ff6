import Formulary.Arithmetic
import Mathlib.Data.Rat.Floor
import Mathlib.Tactic.FieldSimp

/-!
# Exact integers

Integers have 64 bits. Sums, differences, products and opposites are exact if they fit, and
otherwise overflow. Division truncates, and the quotient and what it leaves are then corrected where
the signs differ, each by a test of its own. `Value.integers_exact` says that this is division
rounded towards negative infinity, and that nothing wraps around on the way.
-/

namespace Formulary.Value

open Fault (fail)

/-- 64 bits hold the integer. -/
def Fits (n : Int) : Prop := -2 ^ 63 ≤ n ∧ n < 2 ^ 63

theorem fits_toInt (a : Int64) : Fits a.toInt := ⟨a.le_toInt, a.toInt_lt⟩

theorem bounds_iff_fits {n : Int} : Decimal.minInt ≤ n ∧ n ≤ Decimal.maxInt ↔ Fits n := by
  unfold Decimal.minInt Decimal.maxInt Fits
  omega

/-- An outcome is the exact integer if that fits, and otherwise says that the operation
overflows. -/
structure IsExact (operation : String) (n : Int) (outcome : Except Fault Value) : Prop where
  succeeds : (∃ v, outcome = .ok v) ↔ Fits n
  value : ∀ v, outcome = .ok v → ∃ a : Int64, v = .int a ∧ a.toInt = n
  overflows : ¬ Fits n → outcome = fail (.overflow operation)

theorem isExact_exact (operation : String) (n : Int) : IsExact operation n (exact operation n) := by
  unfold exact Decimal.toInt64?
  by_cases fits : Fits n
  · rw [if_pos (bounds_iff_fits.mpr fits)]
    refine ⟨iff_of_true ⟨_, rfl⟩ fits, ?_, fun h ↦ absurd fits h⟩
    rintro v ⟨⟩
    exact ⟨_, rfl, Int64.toInt_ofInt_of_le fits.1 fits.2⟩
  · rw [if_neg (fits ∘ bounds_iff_fits.mp)]
    refine ⟨iff_of_false (by rintro ⟨v, ⟨⟩⟩) fits, by rintro v ⟨⟩, fun _ ↦ rfl⟩

/-! ### Steps of 64 bits -/

section

variable {a b : Int64}

theorem toInt_sub_of_fits (h : Fits (a.toInt - b.toInt)) : (a - b).toInt = a.toInt - b.toInt := by
  rw [Int64.toInt_sub]
  exact Int.bmod_eq_of_le h.1 h.2

theorem toInt_add_of_fits (h : Fits (a.toInt + b.toInt)) : (a + b).toInt = a.toInt + b.toInt := by
  rw [Int64.toInt_add]
  exact Int.bmod_eq_of_le h.1 h.2

theorem opposed_iff : opposed a b = true ↔ ¬ (a.toInt < 0 ↔ b.toInt < 0) := by
  simp [opposed, Int64.lt_iff_toInt_lt]

theorem toInt_ne_zero : b.toInt ≠ 0 ↔ b ≠ 0 := by
  rw [← Int64.toInt_zero, Ne, Int64.toInt_inj]

/-- The machine divides `a` by `b`: there is a quotient, and it has 64 bits. -/
def Divides (a b : Int64) : Prop := b ≠ 0 ∧ ¬ (a = Int64.minValue ∧ b = -1)

theorem Divides.toInt_div (h : Divides a b) : (a / b).toInt = a.toInt.tdiv b.toInt := by
  by_cases least : a = Int64.minValue
  · exact Int64.toInt_div_of_ne_right a b fun opposite ↦ h.2 ⟨least, opposite⟩
  · exact Int64.toInt_div_of_ne_left a b least

end

/-! ### Truncated division of integers -/

section

variable {a b : Int}

theorem natAbs_tmod_lt (hb : b ≠ 0) : (a.tmod b).natAbs < b.natAbs := by
  rw [Int.natAbs_tmod]
  exact Nat.mod_lt _ (Int.natAbs_pos.mpr hb)

/-- What a truncated quotient leaves has the sign of the dividend. -/
theorem tmod_neg_iff (left : a.tmod b ≠ 0) : a.tmod b < 0 ↔ a < 0 := by
  constructor
  · intro h
    by_contra nonneg
    have := Int.tmod_nonneg b (not_lt.mp nonneg)
    omega
  · intro h
    have := Int.tmod_nonneg b (a := -a) (by omega)
    rw [Int.neg_tmod] at this
    omega

/-- If something is left then the quotient is at most half as large as the dividend. -/
theorem natAbs_tdiv_le_half (hb : b ≠ 0) (left : a.tmod b ≠ 0) :
    2 * (a.tdiv b).natAbs ≤ a.natAbs := by
  have large : 2 ≤ b.natAbs := by
    have := natAbs_tmod_lt (a := a) hb
    omega
  have whole : b.natAbs * (a.tdiv b).natAbs ≤ a.natAbs := by
    rw [Int.natAbs_tdiv]
    exact Nat.mul_div_le _ _
  exact (Nat.mul_le_mul_right _ large).trans whole

end

/-- The quotient `q` of `a` and `b` is rounded towards negative infinity and leaves `r`. -/
structure Floors (a b q r : Int) : Prop where
  whole : a = b * q + r
  floor : q = ⌊(a : ℚ) / b⌋
  sign : r = 0 ∨ r.sign = b.sign
  small : |r| < |b|

/-- A quotient is rounded down if it leaves something smaller than the divisor, with its sign. -/
theorem floors_of {a b q r : Int} (hb : b ≠ 0) (whole : a = b * q + r)
    (sign : r = 0 ∨ r.sign = b.sign) (small : |r| < |b|) : Floors a b q r := by
  refine ⟨whole, ?_, sign, small⟩
  have nonzero : (b : ℚ) ≠ 0 := by exact_mod_cast hb
  have split : (a : ℚ) / b = q + r / b := by
    rw [whole]
    push_cast
    field_simp
  have rest : ⌊(r : ℚ) / b⌋ = 0 := by
    rw [Int.floor_eq_zero_iff, Set.mem_Ico]
    rcases lt_or_gt_of_ne hb with negative | positive
    · have hr : r ≤ 0 ∧ b < r := by
        rw [abs_of_neg negative] at small
        have := abs_lt.mp small
        rw [Int.sign_eq_neg_one_of_neg negative, Int.sign_eq_neg_one_iff_neg] at sign
        omega
      have below : (b : ℚ) < 0 := by exact_mod_cast negative
      exact ⟨div_nonneg_of_nonpos (by exact_mod_cast hr.1) below.le,
        (div_lt_one_of_neg below).mpr (by exact_mod_cast hr.2)⟩
    · have hr : 0 ≤ r ∧ r < b := by
        rw [abs_of_pos positive] at small
        have := abs_lt.mp small
        rw [Int.sign_eq_one_of_pos positive, Int.sign_eq_one_iff_pos] at sign
        omega
      have above : (0 : ℚ) < b := by exact_mod_cast positive
      exact ⟨div_nonneg (by exact_mod_cast hr.1) above.le,
        (div_lt_one above).mpr (by exact_mod_cast hr.2)⟩
  rw [split, Int.floor_intCast_add, rest, add_zero]

/-- A truncated quotient that leaves nothing, or is positive, is rounded down already. -/
theorem floors_truncated {a b : Int} (hb : b ≠ 0) (h : a.tmod b = 0 ∨ (a < 0 ↔ b < 0)) :
    Floors a b (a.tdiv b) (a.tmod b) := by
  refine floors_of hb (Int.mul_tdiv_add_tmod a b).symm ?_ ?_
  · by_cases left : a.tmod b = 0
    · exact .inl left
    · have same : a.tmod b < 0 ↔ b < 0 := (tmod_neg_iff left).trans (h.resolve_left left)
      rcases lt_or_gt_of_ne hb with negative | positive
      · rw [Int.sign_eq_neg_one_of_neg negative, Int.sign_eq_neg_one_iff_neg]
        exact .inr (same.mpr negative)
      · rw [Int.sign_eq_one_of_pos positive, Int.sign_eq_one_iff_pos]
        omega
  · rw [Int.abs_eq_natAbs, Int.abs_eq_natAbs]
    exact_mod_cast natAbs_tmod_lt hb

/-- Any other is one too large. -/
theorem floors_lowered {a b : Int} (hb : b ≠ 0) (left : a.tmod b ≠ 0) (h : ¬ (a < 0 ↔ b < 0)) :
    Floors a b (a.tdiv b - 1) (a.tmod b + b) := by
  have differ : ¬ (a.tmod b < 0 ↔ b < 0) := by rwa [tmod_neg_iff left]
  have small := natAbs_tmod_lt (a := a) hb
  refine floors_of hb ?_ (.inr ?_) ?_
  · linarith [Int.mul_tdiv_add_tmod a b]
  · rcases lt_or_gt_of_ne hb with negative | positive
    · rw [Int.sign_eq_neg_one_of_neg negative, Int.sign_eq_neg_one_iff_neg]
      omega
    · rw [Int.sign_eq_one_of_pos positive, Int.sign_eq_one_iff_pos]
      omega
  · rw [Int.abs_eq_natAbs, Int.abs_eq_natAbs]
    omega

/-! ### Division as the machine does it -/

/-- No step of a division wraps around: neither the truncated one nor a correction that is made. -/
structure StepsFit (a b : Int64) : Prop where
  divided : (a / b).toInt = a.toInt.tdiv b.toInt
  left : (a % b).toInt = a.toInt.tmod b.toInt
  lessOne : a % b ≠ 0 → opposed a b = true → (a / b - 1).toInt = (a / b).toInt - 1
  plusDivisor : a % b ≠ 0 → opposed (a % b) b = true →
    (a % b + b).toInt = (a % b).toInt + b.toInt

namespace Divides

variable {a b : Int64}

theorem toInt_ne_zero (h : Divides a b) : b.toInt ≠ 0 := Value.toInt_ne_zero.mpr h.1

theorem stepsFit (h : Divides a b) : StepsFit a b where
  divided := h.toInt_div
  left := Int64.toInt_mod a b
  lessOne left _ := by
    rw [← Value.toInt_ne_zero, Int64.toInt_mod] at left
    have half := natAbs_tdiv_le_half h.toInt_ne_zero left
    have bound := fits_toInt a
    refine toInt_sub_of_fits (b := 1) ?_
    rw [h.toInt_div]
    unfold Fits at bound ⊢
    change _ ≤ _ - 1 ∧ _ - 1 < _
    omega
  plusDivisor _ differ := by
    have differ := opposed_iff.mp differ
    have bound := fits_toInt b
    have bound' := fits_toInt (a % b)
    apply toInt_add_of_fits
    unfold Fits at bound bound' ⊢
    omega

/-- The quotient and what it leaves are corrected together, although each has its own test. -/
theorem opposed_mod (left : a % b ≠ 0) : opposed (a % b) b = opposed a b := by
  rw [← Value.toInt_ne_zero, Int64.toInt_mod] at left
  rw [Bool.eq_iff_iff, opposed_iff, opposed_iff, Int64.toInt_mod, tmod_neg_iff left]

/-- Where the machine divides, division is rounded towards negative infinity. -/
theorem floors (h : Divides a b) :
    ∃ q r : Int64, quotient a b = .ok (.int q) ∧ remainder a b = .ok (.int r) ∧
      Floors a.toInt b.toInt q.toInt r.toInt := by
  have steps := h.stepsFit
  have defined : ¬ divisionOverflows a b = true := by simpa [divisionOverflows] using h.2
  unfold quotient remainder
  rw [if_neg h.1, if_neg defined, if_neg h.1, if_neg defined]
  by_cases corrected : a % b ≠ 0 ∧ opposed a b = true
  · obtain ⟨left, differ⟩ := corrected
    have differ' : opposed (a % b) b = true := (opposed_mod left).trans differ
    rw [if_pos ⟨left, differ⟩, if_pos ⟨left, differ'⟩]
    refine ⟨a / b - 1, a % b + b, rfl, rfl, ?_⟩
    rw [steps.lessOne left differ, steps.plusDivisor left differ', steps.divided, steps.left]
    rw [← Value.toInt_ne_zero, steps.left] at left
    exact floors_lowered h.toInt_ne_zero left (opposed_iff.mp differ)
  · have kept : ¬ (a % b ≠ 0 ∧ opposed (a % b) b = true) := by
      rintro ⟨left, differ⟩
      exact corrected ⟨left, (opposed_mod left).symm.trans differ⟩
    rw [if_neg corrected, if_neg kept]
    refine ⟨a / b, a % b, rfl, rfl, ?_⟩
    rw [steps.divided, steps.left]
    apply floors_truncated h.toInt_ne_zero
    rwa [not_and_or, opposed_iff, not_not, not_not, ← Int64.toInt_inj, Int64.toInt_zero,
      steps.left] at corrected

end Divides

/-- Integer arithmetic is exact or fails.

Sums, differences, products and opposites are returned if 64 bits hold them, and otherwise the
operation overflows. Division by zero fails, as do both the quotient of the least integer and -1 and
the remainder. All other quotients are returned, rounded towards negative infinity, and with them
what they leave, which is smaller than the divisor and has its sign; no step on the way to them
leaves 64 bits. -/
theorem integers_exact (a b : Int64) :
    IsExact "addition" (a.toInt + b.toInt) (binary .add (.int a) (.int b)) ∧
    IsExact "subtraction" (a.toInt - b.toInt) (binary .sub (.int a) (.int b)) ∧
    IsExact "multiplication" (a.toInt * b.toInt) (binary .mul (.int a) (.int b)) ∧
    IsExact "negation" (-a.toInt) (unary .neg (.int a)) ∧
    (b = 0 → binary .div (.int a) (.int b) = fail .divisionByZero ∧
      binary .mod (.int a) (.int b) = fail .divisionByZero) ∧
    (a = Int64.minValue ∧ b = -1 →
      binary .div (.int a) (.int b) = fail (.overflow "division") ∧
      binary .mod (.int a) (.int b) = fail (.overflow "remainder")) ∧
    (b ≠ 0 ∧ ¬ (a = Int64.minValue ∧ b = -1) → StepsFit a b ∧
      ∃ q r : Int64, binary .div (.int a) (.int b) = .ok (.int q) ∧
        binary .mod (.int a) (.int b) = .ok (.int r) ∧
        Floors a.toInt b.toInt q.toInt r.toInt) := by
  refine ⟨isExact_exact _ _, isExact_exact _ _, isExact_exact _ _, isExact_exact _ _, ?_, ?_, ?_⟩
  · rintro rfl
    exact ⟨rfl, rfl⟩
  · rintro ⟨rfl, rfl⟩
    exact ⟨rfl, rfl⟩
  · intro h
    exact ⟨Divides.stepsFit h, Divides.floors h⟩

end Formulary.Value
