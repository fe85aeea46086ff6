import Formulary.Expr

/-!
# Scripts

A script is a list of declarations, each on a line of its own. A node header opens a node, and the
formulas and parameters that follow belong to it.
-/

namespace Formulary

/-- One declaration. -/
inductive Declaration where
  /-- An import, `import Module`. -/
  | imports (module : String)
  /-- A node header, `Name:` or `Name: Parent`. -/
  | node (name : String) (parent : Option NodePath)
  /-- A formula, `name = body`. -/
  | formula (name : String) (body : Expr)
  /-- A parameter, `name =?` or `name =? default`. -/
  | param (name : String) (default : Option Expr)
deriving Repr

/-- A declaration and where it stands; lines are numbered from 1. -/
structure Line where
  number : Nat
  span : Span
  declaration : Declaration
deriving Repr

end Formulary
