import Formulary.Evaluator

/-!
# Engines

A compiled module, ready to answer requests for attributes of its nodes.
-/

namespace Formulary

/-- How deep attributes may nest unless an engine says otherwise. -/
def defaultDepth : Nat := 100000

/-- A module of a library and what evaluation in it needs. -/
structure Engine (σ : Type) where
  setting : Setting σ
  module : Module
  depth : Nat := defaultDepth

namespace Engine

variable {σ : Type}

/-- The whitelist for code of the module. -/
def whitelist (e : Engine σ) : Whitelist := e.module.whitelist.getD e.setting.whitelist

/-- Reads attributes as deep as the engine allows. -/
def read (e : Engine σ) : Read (Eval σ) := readAttr e.setting e.depth

/-- Reads an attribute of a node call on behalf of the host, while no call is being read. -/
def readCall (e : Engine σ) (env : Nat) (node : NodeRef) : String → Eval σ Value :=
  e.read [env] env node

/-- The node type with a given name. -/
def node (e : Engine σ) (name : String) : Except Fault NodeRef :=
  match e.module.node? name with
  | some ref => .ok ref
  | none => Fault.fail (.undefinedNode name)

/-- The attributes of a node type, which may be one of another module, in one environment. -/
def evaluateNode (e : Engine σ) (node : NodeRef) (attrs : List String)
    (params : List (Value × Value)) : Eval σ (List Value) := do
  let env ← Eval.newEnv params
  attrs.mapM fun attr ↦ e.read [] env node attr

/-- One attribute of a node. -/
def evaluate (e : Engine σ) (node attr : String) (params : List (Value × Value)) :
    Eval σ Value := do
  let node ← Eval.ofExcept (e.node node)
  let env ← Eval.newEnv params
  e.read [] env node attr

/-- Several attributes of a node in one environment. -/
def evaluateMany (e : Engine σ) (node : String) (attrs : List String)
    (params : List (Value × Value)) : Eval σ (List Value) := do
  let node ← Eval.ofExcept (e.node node)
  e.evaluateNode node attrs params

/-- Several attributes of a node by name. -/
def evaluateEntries (e : Engine σ) (node : String) (attrs : List String)
    (params : List (Value × Value)) : Eval σ (List (String × Value)) := do
  let values ← e.evaluateMany node attrs params
  return Indexed.ofEntries (attrs.zip values)

/-- Each node's name with the names of its members, in ascending order. -/
def membersByNode (e : Engine σ) : List (String × List String) :=
  (e.module.nodes.toList.map fun n ↦ (n.name, n.memberNames)).mergeSort
    fun a b ↦ decide (a.1 ≤ b.1)

/-- The names of a node's members. -/
def membersOf (e : Engine σ) (node : String) : Except Fault (List String) := do
  let ref ← e.node node
  return ((e.setting.library.node? ref).map Node.memberNames).getD []

/-- The names of a node's parameters, its ancestors' included. -/
def paramsOf (e : Engine σ) (node : String) : Except Fault (List String) := do
  let ref ← e.node node
  return ((e.setting.library.node? ref).map Node.paramNames).getD []

end Engine

/-- The attributes of a node call by name. -/
def NodeCall.entries {m : Type → Type} [Monad m] (read : String → m Value) (attrs : List String) :
    m (List (Value × Value)) := do
  let entries ← attrs.mapM fun attr ↦ return (Value.str attr, ← read attr)
  return Indexed.ofEntries entries

end Formulary
