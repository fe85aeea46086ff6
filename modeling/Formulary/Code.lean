import Formulary.Expr
import Formulary.Value

/-!
# Code

Formula bodies with their names resolved. Attributes stay names, to be looked up on whichever node
is being computed; comprehension variables are counted from the innermost one; nodes and host
classes are found.
-/

namespace Formulary

/-- A node that code refers to. -/
inductive NodeTarget where
  /-- A node of the module that the code is written in. -/
  | own (index : Nat) (name : String)
  | imported (ref : NodeRef)
deriving DecidableEq, Repr

/-- The node meant by code that is written in the given module. -/
def NodeTarget.ref (module : Nat) (moduleName : String) : NodeTarget → NodeRef
  | own index name => ⟨module, index, moduleName, name⟩
  | imported ref => ref

/-- Resolved expressions. -/
inductive Code where
  | const (value : Value)
  /-- An attribute or parameter of the node being computed. -/
  | attr (name : String)
  /-- A comprehension variable, the innermost being 0. -/
  | var (index : Nat)
  /-- The visible parameters of the environment. -/
  | params
  | node (target : NodeTarget)
  | hostClass (name : String)
  | unary (op : UnaryOp) (operand : Code)
  | binary (op : BinaryOp) (left right : Code)
  | cond (test positive negative : Code)
  | getAttr (receiver : Code) (name : String)
  | index (receiver : Code) (args : List Code)
  | method (receiver : Code) (name : String) (args : List Code)
  /-- A function of a host class. -/
  | function (hostClass name : String) (args : List Code)
  /-- A node call with its parameters. -/
  | call (target : Code) (args : List (Entry Code Code))
  | raise (args : List Code)
  | list (items : List Code)
  | set (items : List Code)
  | map (entries : List (Entry Code Code))
  /-- The flag `pair` tells whether two variables are bound to each item rather than one. -/
  | comprehension (yield : Yield Code) (pair : Bool) (source : Code) (filter : Option Code)

end Formulary
