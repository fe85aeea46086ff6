import Formulary.Command.Params
import Formulary.Engine
import Formulary.Registry
import Formulary.Whitelist.Standard

/-!
# The command line

Evaluates attributes of a script file and prints them. Imports are looked for beside the script.
-/

namespace Formulary.Command

/-- What a run prints and its exit code. -/
structure Outcome where
  exit : Nat
  output : String
  errors : String
deriving DecidableEq, Repr

/-- How the program is used. -/
def usage : String :=
  "dlr: evaluate attributes of a dlr script\n\n" ++
  "Usage: dlr <file.dlr> <Node> <attr>[,<attr>...] [name=value ...]\n\n" ++
  "Parameters:\n" ++
  "  name=value     Integers, floats, true, false and nil keep their type;\n" ++
  "                 anything else is passed as a string\n\n" ++
  "Imports resolve to <Name>.dlr files next to the script.\n" ++
  "Set RUST_LOG (e.g. RUST_LOG=dlr_eval=trace) for evaluation logs.\n"

/-- Name and version of the program. -/
def version : String := "dlr 0.1.0\n"

/-- Why a request fails. -/
inductive Failure where
  | noModuleName (path : String)
  | unreadable (path : String) (error : ReadError)
  | params (error : ParamError)
  | diagnostic (d : Diagnostic)
  | fault (f : Fault)
  | tooDeep
  | brokenOff

/-- Wording of a failure. -/
def Failure.message : Failure → String
  | noModuleName path => s!"error: cannot derive a module name from {path}"
  | unreadable path error => s!"error: cannot read {path}: {error.message}"
  | params error => s!"error: {error.message}"
  | diagnostic d => d.text
  | fault f => f.text
  | tooDeep => "error: attributes are nested too deep"
  | brokenOff => "user-provided comparison function does not correctly implement a total order"

/-- The exit code for a failure. -/
def Failure.exit : Failure → Nat
  | brokenOff => 101
  | _ => 1

/-- The directory of a script. -/
def rootOf (path : String) : String := (Path.parent? path).getD "."

/-- The attribute names in an argument, which commas divide. -/
def attrNames (arg : String) : List String :=
  ((arg.toList.splitOn ',').map fun cs ↦ Text.strip (String.ofList cs)).filter
    fun name ↦ !name.isEmpty

/-- Compiles the script at a path and evaluates attributes of a node. -/
def evaluate (disk : Disk) (path node attrs : String) (params : List String) :
    Except Failure (List (String × Value)) := do
  let some name := Path.stem? path | throw (.noModuleName path)
  let source ← (disk.read path).mapError (.unreadable path)
  let params ← (readParams params).mapError .params
  let registry : Registry := { sources := [(name, source)], root := some (rootOf path), disk }
  let (loaded, registry) := (Registry.load name).run.run registry
  let module ← loaded.mapError .diagnostic
  let engine : Engine Unit := {
    setting := {
      library := registry.library
      host := Host.bare
      whitelist := Whitelist.standard
      builtIns := Value.send }
    module }
  let names := attrNames attrs
  match ((engine.evaluateMany node names params).run.run { host := () }).1 with
  | .ok values => return names.zip values
  | .error (.fault f) => throw (.fault f)
  | .error .disorder => throw .brokenOff
  | .error .exhausted => throw .tooDeep

/-- Runs the program with these arguments. -/
def run (disk : Disk) (args : List String) : Outcome :=
  match args with
  | [] => ⟨0, usage, ""⟩
  | first :: rest =>
    if ["help", "--help", "-h"].contains first then ⟨0, usage, ""⟩
    else if ["version", "--version", "-V"].contains first then ⟨0, version, ""⟩
    else
      match rest with
      | node :: attrs :: params =>
        match evaluate disk first node attrs params with
        | .ok entries =>
          ⟨0, String.join (entries.map fun (name, v) ↦ s!"{name} = {v.inspect}\n"), ""⟩
        | .error failure => ⟨failure.exit, "", failure.message ++ "\n"⟩
      | _ => ⟨1, usage, "error: missing node or attribute names\n\n"⟩

/-- The modules that a script imports, if it can be read. -/
def importsOf (source : String) : List String :=
  match parse source "" with
  | .ok lines => lines.filterMap fun line ↦
      match line.declaration with
      | .imports name => some name
      | _ => none
  | .error _ => []

end Formulary.Command
