/-!
# Operators

The operators of the expression language, their spelling and how tightly they bind.
-/

namespace Formulary

/-- Operators with a left and a right operand. -/
inductive BinaryOp where
  | mul | div | mod | add | sub | lt | le | gt | ge | eq | ne | and | or
deriving DecidableEq, Repr

/-- Operators written before their operand. -/
inductive UnaryOp where
  | neg | not
deriving DecidableEq, Repr

namespace BinaryOp

/-- Every binary operator. -/
def all : List BinaryOp := [mul, div, mod, add, sub, lt, le, gt, ge, eq, ne, and, or]

/-- Canonical spelling. -/
def symbol : BinaryOp → String
  | mul => "*"
  | div => "/"
  | mod => "%"
  | add => "+"
  | sub => "-"
  | lt => "<"
  | le => "<="
  | gt => ">"
  | ge => ">="
  | eq => "=="
  | ne => "!="
  | and => "&&"
  | or => "||"

/-- Binding strength, from 1 for the loosest to 6 for the tightest. -/
def precedence : BinaryOp → Nat
  | or => 1
  | and => 2
  | eq | ne => 3
  | lt | le | gt | ge => 4
  | add | sub => 5
  | mul | div | mod => 6

/-- Operators that may leave their right operand alone. -/
def isShortCircuit : BinaryOp → Bool
  | and | or => true
  | _ => false

/-- The operator with a canonical spelling. -/
def ofSymbol? (s : String) : Option BinaryOp := all.find? fun op ↦ op.symbol = s

end BinaryOp

namespace UnaryOp

/-- Spelling of a unary operator. -/
def symbol : UnaryOp → String
  | neg => "-"
  | not => "!"

/-- The operator with a given spelling. -/
def ofSymbol? (s : String) : Option UnaryOp := [neg, not].find? fun op ↦ op.symbol = s

end UnaryOp

end Formulary
