import Formulary.Binary64.Arithmetic
import Formulary.Value.Parts

/-!
# Loose equality and lookup

How the operator `==` compares values, and how the entries of a map are found. A text can be a key
without being made a value: it finds what the string finds (`getText?_eq`).
-/

namespace Formulary.Value

/-- Equality as the operator `==` sees it: numbers by value, everything else strictly. -/
def looselyEqual : Value → Value → Bool
  | int a, float b => (Binary64.ofInt a).sameNumber b
  | float a, int b => a.sameNumber (.ofInt b)
  | float a, float b => a.sameNumber b
  | a, b => a == b

/-- The value of a map under a key, or for a string under the symbol with the same text. -/
def lookup? (v key : Value) : Option Value :=
  match v.get? key with
  | some found => some found
  | none =>
    match key with
    | str s => v.get? (symbol s)
    | _ => none

/-! ### Texts as keys -/

/-- A text that stands for the string with this text. -/
structure TextKey where
  text : String
deriving DecidableEq, Repr

namespace TextKey

/-- What the text is hashed by. -/
def hashed (key : TextKey) : HashData := .tagged 3 [.text key.text]

/-- Whether a value is the string that the text stands for. -/
def fits (key : TextKey) : Value → Bool
  | str s => s == key.text
  | _ => false

/-- The text fits what the string equals. -/
theorem fits_eq (key : TextKey) (v : Value) : key.fits v = (str key.text == v) := by
  rw [beq_eq_equal]
  cases v <;> simp only [fits, equal]
  exact BEq.comm

/-- What fits is hashed like the text. -/
theorem hashed_eq_of_fits {key : TextKey} {v : Value} (h : key.fits v = true) :
    v.hashed = key.hashed := by
  rw [fits_eq, beq_eq_equal] at h
  rw [← hashed_eq_of_equal _ v h, Value.hashed, hashed]

end TextKey

/-- The value of a map under a text. -/
def getText? (v : Value) (key : TextKey) : Option Value :=
  (v.entryWith? key.hashed.digest key.fits).map Prod.snd

/-- The value of a map under a text, or under the symbol with this text. -/
def lookupText? (v : Value) (name : String) : Option Value :=
  match v.getText? ⟨name⟩ with
  | some found => some found
  | none => v.get? (symbol name)

/-- A text finds what the string finds. -/
theorem getText?_eq (v : Value) (key : TextKey) : v.getText? key = v.get? (str key.text) := by
  rw [getText?, get?, entryAt?, hashCode_eq_digest, Value.hashed, TextKey.hashed]
  congr 2
  funext k
  exact key.fits_eq k

theorem lookupText?_eq (v : Value) (name : String) : v.lookupText? name = v.lookup? (str name) := by
  rw [lookupText?, lookup?, getText?_eq]

end Formulary.Value
