import Formulary.Disk
import Formulary.Scope.Declare
import Formulary.Script.Parser

/-!
# Registries

Named scripts, compiled on demand. A script's imports are looked up in the same registry, and a
module that compiles is kept, so that all who import it share it.
-/

namespace Formulary

/-- Scripts and what was compiled of them. -/
structure Registry where
  sources : List (String × String) := []
  /-- A directory where scripts that have no source here are looked for. -/
  root : Option String := none
  disk : Disk := {}
  /-- The host classes that every script can name. -/
  classes : List ClassSignature := []
  /-- The whitelist of every module compiled here. -/
  whitelist : Option Whitelist := none
  /-- Modules that are kept, by name. -/
  compiled : List (String × Module) := []
  /-- Names of the modules that are being loaded, outermost first. -/
  loading : List String := []
  library : Library := {}

namespace Registry

/-- What comes after the dot in the name of a script's file. -/
def extension : String := "dlr"

/-- Whether a name can be that of a script's file: a capital letter, then letters, digits and
underscores, all of them ASCII. -/
def isModuleName (name : String) : Bool :=
  match name.toList with
  | [] => false
  | c :: cs => c.isUpper && cs.all fun c ↦ c.isAlphanum || c == '_'

/-- Where the script of a module is looked for. -/
def pathOf (r : Registry) (name : String) : Option String :=
  if isModuleName name then r.root.map fun root ↦ Path.join root name ++ "." ++ extension
  else none

/-- The script of a module. -/
def source? (r : Registry) (name : String) : Option String :=
  match Ordered.get? name r.sources with
  | some source => some source
  | none => (r.pathOf name).bind fun path ↦ (r.disk.read path).toOption

/-- Sets the script of a module, and forgets what was compiled of it before. -/
def addSource (r : Registry) (name source : String) : Registry :=
  { r with
    sources := Ordered.put name source r.sources
    compiled := r.compiled.filter fun e ↦ !(e.1 == name) }

/-- Names with a script of their own in ascending order. -/
def names (r : Registry) : List String := sortNames (r.sources.map Prod.fst)

/-- Adds a module to the library. -/
def pushModule (r : Registry) (m : Module) : Registry := { r with library := r.library.push m }

/-- Keeps a module under a name. -/
def keep (r : Registry) (name : String) (m : Module) : Registry :=
  { r with compiled := Ordered.put name m r.compiled }

/-- Compiles a script and adds the module to the library, where it is not kept under its name. -/
def compile (load : String → Loading Registry Module) (name : String)
    (classes : List ClassSignature) (whitelist : Option Whitelist) (source : String) :
    Loading Registry Module := do
  let lines ← ExceptT.mk (pure (parse source name))
  let scope ← Scope.ofLines name classes load lines
  let m := scope.toModule (← get).library name whitelist
  modify (·.pushModule m)
  return m

/-- An import that leads back to a module that is being loaded. -/
def circular (loading : List String) (name : String) : Diagnostic :=
  { kind := .recursion
    message := "circular import: " ++ String.intercalate " -> " (loading ++ [name]) }

/-- Begins to load a module. -/
def enter (r : Registry) (name : String) : Registry := { r with loading := r.loading ++ [name] }

/-- Ends the loading that was begun last. -/
def leave (r : Registry) : Registry := { r with loading := r.loading.dropLast }

/-- The module with a given name, compiled now if it is not kept yet. The modules being loaded
nest at most `depth` deep. -/
def loadWithin : (depth : Nat) → (name : String) → Loading Registry Module
  | 0, name => throw (Diagnostic.notFound name)
  | depth + 1, name => do
    let r ← get
    match Ordered.get? name r.compiled with
    | some m => return m
    | none =>
      match r.source? name with
      | none => throw (Diagnostic.notFound name)
      | some source =>
        if r.loading.contains name then throw (circular r.loading name)
        modify (·.enter name)
        let m ← try compile (loadWithin depth) name r.classes r.whitelist source
          finally modify leave
        modify (·.keep name m)
        return m

/-- Modules that are being loaded differ, and all have a script, so no more can nest than there are
scripts. -/
def depth (r : Registry) : Nat := r.sources.length + r.disk.files.length + 2

/-- The module with a given name. -/
def load (name : String) : Loading Registry Module := do
  loadWithin (← get).depth name

/-- Refuses every import. -/
def noImports (name : String) : Loading Registry Module := throw (Diagnostic.notFound name)

end Registry

end Formulary
