import Formulary.Arithmetic
import Mathlib.Algebra.Ring.Nat

/-!
# Values that can be compared

Strings can be compared with strings, and numbers with numbers unless one of them is NaN; no other
two values can (`Value.order_eq_ok_iff`). An integer is compared with a floating-point number as the
number nearest to it, which is never NaN (`Binary64.isNaN_ofInt`).
-/

namespace Formulary

namespace Binary64

open Float.Model (UnpackedFloat)
open Float.Model.UnpackedFloat (packComponents packedInfinity packedZero)

theorem toNat_packComponents (sign : UnpackedFloat.Sign) (exponent : BitVec 11)
    (mantissa : BitVec 52) :
    (packComponents .binary64 sign exponent mantissa).toNat % 2 ^ 63 =
      exponent.toNat * 2 ^ 52 + mantissa.toNat := by
  have exponent_lt := exponent.isLt
  have mantissa_lt := mantissa.isLt
  change (sign.toBitVec ++ exponent ++ mantissa : BitVec (1 + 11 + 52)).toNat % 2 ^ 63 = _
  rw [BitVec.toNat_append, BitVec.toNat_append, ← Nat.shiftLeft_add_eq_or_of_lt exponent_lt,
    ← Nat.shiftLeft_add_eq_or_of_lt mantissa_lt, Nat.shiftLeft_eq, Nat.shiftLeft_eq]
  omega

/-- Without the sign, the bits of a number do not exceed those of infinity. -/
theorem toNat_pack_le {x : UnpackedFloat} (number : x ≠ .notANumber) :
    (x.pack .binary64).toNat % 2 ^ 63 ≤ infiniteMagnitude := by
  have infinite (sign : UnpackedFloat.Sign) :
      (packedInfinity .binary64 sign).toNat % 2 ^ 63 ≤ infiniteMagnitude := by
    rw [packedInfinity, toNat_packComponents]
    decide
  cases x with
  | notANumber => exact absurd rfl number
  | infinity sign => exact infinite sign
  | zero sign =>
    change (packedZero .binary64 sign).toNat % 2 ^ 63 ≤ infiniteMagnitude
    rw [packedZero, toNat_packComponents]
    decide
  | finite sign m e pos =>
    have mantissa_lt := (BitVec.ofNat 52 m).isLt
    unfold UnpackedFloat.pack infiniteMagnitude
    dsimp only
    split
    · exact infinite sign
    · split
      · next small _ =>
        rw [toNat_packComponents, BitVec.toNat_ofNat, Nat.mod_eq_of_lt (by omega)]
        omega
      · rw [toNat_packComponents, BitVec.toNat_zero]
        omega

theorem ofUInt64_ne_notANumber (n : UInt64) : UnpackedFloat.ofUInt64 .binary64 n ≠ .notANumber := by
  have rounded (sign : UnpackedFloat.Sign) (m : Nat) (e : Int) :
      UnpackedFloat.round .binary64 sign m e ≠ .notANumber := by
    have either (k : Nat) (e : Int) :
        (if h : k = 0 then UnpackedFloat.zero sign
          else .finite sign k e (Nat.pos_of_ne_zero h)) ≠ .notANumber := by
      cases k with
      | zero | succ k => exact UnpackedFloat.noConfusion
    exact either _ _
  unfold UnpackedFloat.ofUInt64 UnpackedFloat.ofNat UnpackedFloat.ofInt UnpackedFloat.normalize
  split
  · exact rounded _ _ _
  · exact UnpackedFloat.noConfusion
  · exact rounded _ _ _

theorem isNaN_ofInt (n : Int64) : (ofInt n).isNaN = false := by
  have number (u : UInt64) : u.toFloat.toBits.toNat % 2 ^ 63 ≤ infiniteMagnitude :=
    toNat_pack_le (ofUInt64_ne_notANumber u)
  unfold ofInt isNaN
  split
  · rw [decide_eq_false_iff_not, UInt64.lt_iff_toNat_lt, UInt64.toNat_mod, UInt64.toNat_or]
    change ¬infiniteMagnitude < (_ ||| 2 ^ 63) % 2 ^ 63
    rw [Nat.or_mod_two_pow, Nat.mod_self, Nat.or_zero]
    exact Nat.not_lt.mpr (number _)
  · rw [decide_eq_false_iff_not, UInt64.lt_iff_toNat_lt, UInt64.toNat_mod]
    exact Nat.not_lt.mpr (number _)

end Binary64

namespace Value

variable {a b : Value}

/-- Strings. -/
def isText : Value → Bool
  | .str _ => true
  | _ => false

/-- Numbers other than NaN. -/
def isRanked : Value → Bool
  | .int _ => true
  | .float x => !x.isNaN
  | _ => false

/-- Both are strings, or both are numbers other than NaN. -/
def Comparable (a b : Value) : Prop :=
  a.isText = true ∧ b.isText = true ∨ a.isRanked = true ∧ b.isRanked = true

theorem isRanked_iff : a.isRanked = true ↔ ∃ x, a.asFloat? = some x ∧ x.isNaN = false := by
  cases a with
  | int n => simp [isRanked, asFloat?, Binary64.isNaN_ofInt]
  | float x => simp [isRanked, asFloat?]
  | _ => simp [isRanked, asFloat?]

theorem isText_iff : a.isText = true ↔ ∃ s, a = .str s := by
  cases a <;> simp [isText]

theorem order_eq_ok_iff (operation : String) :
    (∃ o, order operation a b = .ok o) ↔ a.Comparable b := by
  unfold order
  split
  · exact iff_of_true ⟨_, rfl⟩ (.inr ⟨rfl, rfl⟩)
  · exact iff_of_true ⟨_, rfl⟩ (.inl ⟨rfl, rfl⟩)
  · next texts =>
    have no_texts : ¬(a.isText = true ∧ b.isText = true) := by
      rw [isText_iff, isText_iff]
      rintro ⟨⟨s, rfl⟩, t, rfl⟩
      exact texts s t rfl rfl
    rw [Comparable, or_iff_right no_texts, isRanked_iff, isRanked_iff]
    split
    · next x y hx hy =>
      rw [hx, hy]
      unfold Binary64.compare?
      cases hnx : x.isNaN <;> cases hny : y.isNaN <;> simp [hnx, hny, Fault.mismatch, Fault.fail]
    · next missing =>
      refine iff_of_false ?_ ?_
      · rintro ⟨o, h⟩
        cases h
      · rintro ⟨⟨x, hx, -⟩, y, hy, -⟩
        exact missing x y hx hy

/-- Comparisons fail because of the types of what is compared. -/
theorem order_eq_error {operation : String} {fault : Fault}
    (h : order operation a b = .error fault) :
    fault = ⟨.typeMismatch operation a.typeName (some b.typeName), []⟩ := by
  unfold order at h
  split at h
  · cases h
  · cases h
  · split at h
    · split at h
      · cases h
      · cases h
        rfl
    · cases h
      rfl

theorem isText_of_isRanked (h : a.isRanked = true) : a.isText = false := by
  cases a with
  | str s => cases h
  | _ => rfl

theorem isRanked_of_isText (h : a.isText = true) : a.isRanked = false := by
  obtain ⟨s, rfl⟩ := isText_iff.mp h
  rfl

namespace Comparable

variable {c : Value}

theorem symm (h : a.Comparable b) : b.Comparable a := h.imp And.symm And.symm

/-- What can be compared is of one kind. -/
theorem isText_eq (h : a.Comparable b) : a.isText = b.isText := by
  rcases h with ⟨ha, hb⟩ | ⟨ha, hb⟩
  · rw [ha, hb]
  · rw [isText_of_isRanked ha, isText_of_isRanked hb]

@[inherit_doc isText_eq]
theorem isRanked_eq (h : a.Comparable b) : a.isRanked = b.isRanked := by
  rcases h with ⟨ha, hb⟩ | ⟨ha, hb⟩
  · rw [isRanked_of_isText ha, isRanked_of_isText hb]
  · rw [ha, hb]

theorem trans (hab : a.Comparable b) (hbc : b.Comparable c) : a.Comparable c := by
  rcases hab with ⟨ha, hb⟩ | ⟨ha, hb⟩
  · exact .inl ⟨ha, hbc.isText_eq ▸ hb⟩
  · exact .inr ⟨ha, hbc.isRanked_eq ▸ hb⟩

end Comparable

end Value

end Formulary
