/-!
# Diagnostics

Faults found before a script runs, with the module and line they arose on.
-/

namespace Formulary

namespace Diagnostic

/-- The kinds of fault. -/
inductive Kind where
  /-- Malformed text. -/
  | parse
  /-- An unknown attribute, parameter or module. -/
  | undefined
  /-- A name declared twice. -/
  | redefined
  /-- An unknown function of a host class. -/
  | undefinedFunction
  | undefinedNode
  /-- A definition or an import that leads back to itself. -/
  | recursion
  /-- A wrong number of arguments. -/
  | badCall
  | moduleNotFound
deriving DecidableEq, Repr

/-- Stable code of a kind. -/
def Kind.code : Kind → String
  | parse => "E1001"
  | undefined => "E2001"
  | redefined => "E2002"
  | undefinedFunction => "E2003"
  | undefinedNode => "E2004"
  | recursion => "E2005"
  | badCall => "E2006"
  | moduleNotFound => "E3001"

/-- Name of a kind as script authors see it. -/
def Kind.name : Kind → String
  | parse => "ParseError"
  | undefined => "UndefinedError"
  | redefined => "RedefinedError"
  | undefinedFunction => "UndefinedFunctionError"
  | undefinedNode => "UndefinedNodeError"
  | recursion => "RecursionError"
  | badCall => "BadCallError"
  | moduleNotFound => "ModuleNotFoundError"

end Diagnostic

/-- A fault; one that is not located yet has no module, and line 0 is no line. -/
structure Diagnostic where
  kind : Diagnostic.Kind
  message : String
  module : String := ""
  line : Nat := 0
deriving DecidableEq, Repr

namespace Diagnostic

/-- The same fault at a place. -/
def located (d : Diagnostic) (module : String) (line : Nat) : Diagnostic :=
  { d with module := module, line := line }

/-- Gives a place to a fault that has no module yet. -/
def orLocated (d : Diagnostic) (module : String) (line : Nat) : Diagnostic :=
  if d.module.isEmpty then d.located module line else d

/-- A module that cannot be found. -/
def notFound (module : String) : Diagnostic :=
  ⟨.moduleNotFound, s!"module '{module}' not found", "", 0⟩

/-- One line of text for a fault. -/
def text (d : Diagnostic) : String :=
  let place := if d.module.isEmpty && d.line = 0 then "" else s!" ({d.module}:{d.line})"
  s!"{d.kind.name}[{d.kind.code}]: {d.message}{place}"

end Diagnostic

end Formulary
