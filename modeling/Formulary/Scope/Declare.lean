import Formulary.Ordered.Indexed
import Formulary.Scope.Check
import Formulary.Scope.Lower
import Formulary.Script

/-!
# Declarations

Takes the declarations of a script one after the other, each in the scope that the ones before it
leave, and makes a module of the last scope.
-/

namespace Formulary

/-- Loading a module may fail with a diagnostic, and changes a state of type `ρ` either way. -/
abbrev Loading (ρ : Type) := ExceptT Diagnostic (StateM ρ)

namespace Scope

/-- The open node with one more name, unless the name is taken there or depends on itself. -/
def withName (sc : Scope) (name : String) (deps : List String) : Except Problem Draft :=
  match sc.current with
  | none => .error (.outsideNode name)
  | some d =>
    if d.members.any fun m ↦ m.name == name then .error (.memberRedefined name d.name)
    else
      let visible := d.visible.insert name deps
      if Dependencies.isCyclic visible name then .error (.cyclic name d.name)
      else .ok { d with visible := visible }

/-- Adds a formula to the open node. -/
def defineFormula (sc : Scope) (line : Nat) (name : String) (body : Expr) :
    Except Problem Scope := do
  let deps ← sc.references (some body)
  let d ← sc.withName name deps
  let code ← sc.lower [] body
  return { sc with
    current := some { d with members := d.members ++ [⟨name, line, .formula code, deps⟩] } }

/-- Adds a parameter to the open node. -/
def defineParam (sc : Scope) (line : Nat) (name : String) (default : Option Expr) :
    Except Problem Scope := do
  let deps ← sc.references default
  let d ← sc.withName name deps
  let code ← sc.lowerOptional [] default
  return { sc with
    current := some { d with members := d.members ++ [⟨name, line, .param code, deps⟩] } }

/-- Imports a module, once. -/
def importModule {ρ : Type} (load : String → Loading ρ Module) (sc : Scope) (name : String) :
    Loading ρ Scope := do
  if Ordered.hasKey name sc.imports then return sc
  let m ← load name
  return { sc with imports := Ordered.put name m sc.imports }

/-- A result that no module has to be loaded for. -/
def settle {ρ α : Type} (r : Except Problem α) : Loading ρ α :=
  ExceptT.mk (pure (r.mapError Problem.diagnostic))

/-- Takes one declaration. -/
def declare {ρ : Type} (load : String → Loading ρ Module) (sc : Scope) (line : Line) :
    Loading ρ Scope :=
  match line.declaration with
  | .imports name => sc.importModule load name
  | .node name parent => settle (sc.openNode name parent)
  | .formula name body => settle (sc.defineFormula line.number name body)
  | .param name default => settle (sc.defineParam line.number name default)

/-- Takes one declaration of the named module, and gives a diagnostic that has no place yet the
place of the declaration. -/
def declareIn {ρ : Type} (module : String) (load : String → Loading ρ Module) (sc : Scope)
    (line : Line) : Loading ρ Scope :=
  tryCatch (sc.declare load line) fun d ↦ throw (d.orLocated module line.number)

/-- The scope after all declarations of a script. -/
def ofLines {ρ : Type} (module : String) (classes : List ClassSignature)
    (load : String → Loading ρ Module) (lines : List Line) : Loading ρ Scope :=
  lines.foldlM (declareIn module load) { classes }

end Scope

namespace Draft

/-- The node type that a node starts from: its parent, found among the nodes before it or in the
library. -/
def base (d : Draft) (library : Library) (before : Array Node) : Node :=
  let parent := match d.parent with
    | some (.own index _) => before[index]?
    | some (.imported ref) => library.node? ref
    | none => none
  match parent with
  | some p => { p with name := d.name }
  | none => { name := d.name }

/-- The node type of a draft. -/
def toNode (d : Draft) (library : Library) (id : Nat) (module : String) (before : Array Node) :
    Node :=
  d.members.foldl (fun n m ↦ n.define id module m) (d.base library before)

/-- Names that the draft itself declares as parameters. -/
def paramNames (d : Draft) : List String :=
  (d.members.filter fun m ↦ m.body.isParam).map Member.name

end Draft

/-- The module of an accepted scope. -/
def Scope.toModule (sc : Scope) (library : Library) (name : String)
    (whitelist : Option Whitelist) : Module where
  id := library.nextId
  name := name
  imports := sc.imports.map fun e ↦ e.2.id
  nodes := sc.drafts.foldl (fun nodes d ↦
    nodes.push (d.toNode library library.nextId name nodes)) #[]
  params := Indexed.ofElements (sc.drafts.flatMap Draft.paramNames)
  whitelist := whitelist

end Formulary
