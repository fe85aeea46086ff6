import Formulary.Code
import Formulary.Fault
import Formulary.Ordered
import Formulary.Whitelist
import Std.Data.HashMap

/-!
# Compiled modules

A module holds node types, and a node type holds a table of its members: those of its parent, then
its own, which replace inherited ones of the same name. Each member remembers the module that it was
written in. A library is all modules that were ever compiled; a module's number is its place there.
-/

namespace Formulary

/-- What a member computes. -/
inductive Body where
  | formula (code : Code)
  /-- A parameter, with what it is when none is given. -/
  | param (default : Option Code)

/-- Whether a body is that of a parameter. -/
def Body.isParam : Body → Bool
  | formula _ => false
  | param _ => true

/-- A definition in a node, and the names of the same node that it refers to. -/
structure Member where
  name : String
  line : Nat
  body : Body
  deps : List String

/-- A member's place in a node type's table. The number is its own within the table; a member that
replaces another one takes over its number. Numbers count the members that scripts define, and are
not bounded here. -/
structure Slot where
  id : Nat
  /-- The module that the member was written in. -/
  home : Nat
  homeName : String
  member : Member

/-- The frame left by a failure within the member. -/
def Slot.frame (s : Slot) : Fault.Frame := ⟨s.homeName, s.member.line, s.member.name⟩

/-- A node type. -/
structure Node where
  name : String
  table : Std.HashMap String Slot := ∅
  /-- The number of the next new member, not bounded here either. -/
  nextSlot : Nat := 0
  /-- Names declared as parameters here or in an ancestor. -/
  params : List String := []

/-- Names in ascending order. -/
def sortNames (names : List String) : List String := names.mergeSort fun a b ↦ decide (a ≤ b)

namespace Node

/-- Adds a member that is written in the given module. -/
def define (n : Node) (home : Nat) (homeName : String) (m : Member) : Node :=
  let params := if m.body.isParam then Ordered.add m.name n.params else n.params
  match n.table[m.name]? with
  | some old =>
    { n with table := n.table.insert m.name ⟨old.id, home, homeName, m⟩, params := params }
  | none =>
    { n with
      table := n.table.insert m.name ⟨n.nextSlot, home, homeName, m⟩
      nextSlot := n.nextSlot + 1
      params := params }

/-- Names of all members in ascending order. -/
def memberNames (n : Node) : List String := sortNames n.table.keys

/-- Names of the parameters in ascending order. -/
def paramNames (n : Node) : List String := sortNames n.params

end Node

/-- A compiled module. -/
structure Module where
  id : Nat
  name : String
  /-- The numbers of the modules that it imports. -/
  imports : List Nat
  nodes : Array Node
  /-- Names declared as parameters in this module. -/
  params : List String
  /-- Its own whitelist, if it has one. -/
  whitelist : Option Whitelist

namespace Module

/-- The node type with a given name. -/
def node? (m : Module) (name : String) : Option NodeRef :=
  (m.nodes.findIdx? fun n ↦ n.name == name).map fun index ↦ ⟨m.id, index, m.name, name⟩

/-- Names of the node types in ascending order. -/
def nodeNames (m : Module) : List String := sortNames (m.nodes.toList.map Node.name)

/-- Names of the module's own parameters in ascending order. -/
def paramNames (m : Module) : List String := sortNames m.params

end Module

/-- Compiled modules by number. -/
structure Library where
  modules : Array Module := #[]

namespace Library

/-- The number that the next module gets. -/
def nextId (l : Library) : Nat := l.modules.size

/-- Adds a module. -/
def push (l : Library) (m : Module) : Library := ⟨l.modules.push m⟩

/-- The module with a given number. -/
def module? (l : Library) (id : Nat) : Option Module := l.modules[id]?

/-- The node type that a reference denotes. -/
def node? (l : Library) (ref : NodeRef) : Option Node :=
  (l.module? ref.module).bind fun m ↦ m.nodes[ref.index]?

/-- The member of a node type with a given name. -/
def slot? (l : Library) (ref : NodeRef) (name : String) : Option Slot :=
  (l.node? ref).bind fun n ↦ n.table[name]?

end Library

end Formulary
