import Formulary.Dependency
import Formulary.Diagnostic
import Formulary.Host
import Formulary.Module

/-!
# Scopes

What is known at some line of a script: host classes, imported modules and the nodes so far, the
last of which is open for members.
-/

namespace Formulary

/-- A node as far as it is written. -/
structure Draft where
  name : String
  parent : Option NodeTarget
  /-- Every member that can be named on the node, inherited or its own. -/
  visible : Dependencies
  /-- The node's own members in order. -/
  members : List Member := []

/-- Why a declaration is refused. -/
inductive Problem where
  | unknownName (name : String)
  | unknownNode (path : NodePath)
  | notImported (module : String)
  | nodeRedefined (name : String)
  | outsideNode (name : String)
  | memberRedefined (name node : String)
  | cyclic (name node : String)
  /-- A function was called on a node. -/
  | nodeFunction (path : NodePath) (function : String)
  | unknownFunction (path : NodePath) (function : String)
  | wrongCount (path : NodePath) (function : String) (arity : Arity) (count : Nat)
deriving DecidableEq, Repr

namespace Problem

/-- The kind of diagnostic. -/
def kind : Problem → Diagnostic.Kind
  | unknownName _ | notImported _ => .undefined
  | unknownNode _ => .undefinedNode
  | nodeRedefined _ | memberRedefined _ _ => .redefined
  | outsideNode _ => .parse
  | cyclic _ _ => .recursion
  | nodeFunction _ _ | unknownFunction _ _ => .undefinedFunction
  | wrongCount _ _ _ _ => .badCall

/-- Wording of a problem. -/
def message : Problem → String
  | unknownName name => s!"unknown identifier {name}"
  | unknownNode path => s!"unknown node {path.text}"
  | notImported module => s!"module {module} not imported"
  | nodeRedefined name => s!"can't redefine node {name}"
  | outsideNode name => s!"'{name}' must be defined inside a node"
  | memberRedefined name node => s!"can't redefine '{name}' in node {node}"
  | cyclic name node => s!"'{name}' depends on itself in node {node}"
  | nodeFunction path function => s!"node {path.text} has no function {function}"
  | unknownFunction path function => s!"unknown function {path.text}.{function}"
  | wrongCount path function arity count =>
    s!"{path.text}.{function} takes {arity.text} args, got {count}"

/-- The diagnostic of a problem, not located yet. -/
def diagnostic (p : Problem) : Diagnostic := { kind := p.kind, message := p.message }

end Problem

/-- Names known while a module is compiled. -/
structure Scope where
  classes : List ClassSignature
  imports : List (String × Module) := []
  /-- The nodes before the open one. -/
  closed : List Draft := []
  /-- The open node. -/
  current : Option Draft := none

/-- What a capitalised name means. -/
inductive Target where
  | node (target : NodeTarget)
  | hostClass (signature : ClassSignature)

namespace Scope

/-- Every node so far, in order. -/
def drafts (sc : Scope) : List Draft := sc.closed ++ sc.current.toList

/-- A node of this module with a given name. -/
def ownNode? (sc : Scope) (name : String) : Option NodeTarget :=
  (sc.drafts.findIdx? fun d ↦ d.name == name).map fun index ↦ .own index name

/-- A node by its path, among the nodes so far. -/
def resolveNode (sc : Scope) (path : NodePath) : Except Problem NodeTarget :=
  match path.module with
  | none =>
    match sc.ownNode? path.name with
    | some target => .ok target
    | none => .error (.unknownNode path)
  | some module =>
    match Ordered.get? module sc.imports with
    | none => .error (.notImported module)
    | some m =>
      match m.node? path.name with
      | some ref => .ok (.imported ref)
      | none => .error (.unknownNode path)

/-- The class with a given name. -/
def class? (sc : Scope) (name : String) : Option ClassSignature :=
  sc.classes.find? fun c ↦ c.name == name

/-- A node by its path, or else a host class by its name. -/
def resolveTarget (sc : Scope) (path : NodePath) : Except Problem Target :=
  match sc.resolveNode path with
  | .ok target => .ok (.node target)
  | .error problem =>
    match path.module, sc.class? path.name with
    | none, some signature => .ok (.hostClass signature)
    | _, _ => .error problem

/-- Whether the open node has a member with a given name. -/
def sees (sc : Scope) (name : String) : Bool :=
  match sc.current with
  | some d => d.visible.contains name
  | none => false

/-- The members visible on a node. -/
def visibleOn (sc : Scope) : NodeTarget → Dependencies
  | .own index _ =>
    match sc.drafts[index]? with
    | some d => d.visible
    | none => ∅
  | .imported ref =>
    match sc.imports.find? fun e ↦ e.2.id == ref.module with
    | some (_, m) =>
      match m.nodes[ref.index]? with
      | some n => n.table.map fun _ slot ↦ slot.member.deps
      | none => ∅
    | none => ∅

/-- Opens a node. -/
def openNode (sc : Scope) (name : String) (parent : Option NodePath) : Except Problem Scope := do
  if (sc.ownNode? name).isSome then throw (.nodeRedefined name)
  let parent ← parent.mapM sc.resolveNode
  let visible := match parent with
    | some target => sc.visibleOn target
    | none => ∅
  return { sc with closed := sc.drafts, current := some { name, parent, visible } }

end Scope

end Formulary
