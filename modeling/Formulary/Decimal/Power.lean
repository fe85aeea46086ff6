/-!
# Powers of ten

The powers of ten that texts of numbers need are kept in a table.
-/

namespace Formulary.Decimal

/-- How many powers are kept. -/
def powerCount : Nat := 400

/-- The powers of ten from the first on. -/
def powers : Array Nat := Array.ofFn fun n : Fin powerCount ↦ Nat.pow 10 n

/-- The power of ten with an exponent. -/
def tenTo (n : Nat) : Nat := if h : n < powers.size then powers[n] else Nat.pow 10 n

@[simp] theorem tenTo_eq (n : Nat) : tenTo n = Nat.pow 10 n := by
  unfold tenTo
  split
  · simp [powers]
  · rfl

end Formulary.Decimal
