import Formulary.Host
import Formulary.Module
import Formulary.World

/-!
# Policed calls

A method runs only when the whitelist of the module that the calling code is written in permits it.
A function of a host class runs only when the class has it and takes that many arguments.
-/

namespace Formulary

/-- What the built-in methods do. -/
abbrev BuiltIns := (receiver : Value) → (method : String) → (args : List Value) → Except Stop Value

/-- What evaluations need and never change. -/
structure Setting (σ : Type) where
  library : Library
  host : Host σ
  /-- Holds for modules that have no whitelist of their own. -/
  whitelist : Whitelist
  /-- The one way in which evaluation gets at built-in methods. -/
  builtIns : BuiltIns

namespace Setting

variable {σ : Type}

/-- The whitelist for code that is written in a module. -/
def whitelistOf (s : Setting σ) (home : Nat) : Whitelist :=
  ((s.library.module? home).bind Module.whitelist).getD s.whitelist

/-- Calls a function of a host class. -/
def callFunction (s : Setting σ) (hostClass function : String) (args : List Value) :
    Eval σ Value :=
  match (s.host.class? hostClass).bind fun c ↦ c.function? function with
  | none => Eval.fail (.badCall hostClass s!"no function {function}")
  | some f =>
    if f.arity.accepts args.length then do
      Eval.record (.function hostClass function args)
      Eval.ofHost (f.run args)
    else
      Eval.fail (.badCall hostClass
        s!"{function} takes {f.arity.text} args, got {args.length}")

/-- Runs a method that is permitted. -/
def runMethod (s : Setting σ) (receiver : Value) (method : String) (args : List Value) :
    Eval σ Value :=
  match receiver with
  | .foreign handle _ => Eval.ofHost (s.host.invoke handle method args)
  | _ => Eval.ofOutcome (s.builtIns receiver method args)

/-- Calls a method for code that is written in the module `home`. -/
def callMethod (s : Setting σ) (home : Nat) (receiver : Value) (method : String)
    (args : List Value) : Eval σ Value :=
  match receiver with
  | .hostClass name => s.callFunction name method args
  | .node ref => Eval.fail (.badCall ref.name s!"nodes have no function {method}")
  | _ => do
    let method ← Eval.ofExcept ((s.whitelistOf home).permit receiver method args)
    Eval.record (.method home receiver method args)
    s.runMethod receiver method args

end Setting

end Formulary
