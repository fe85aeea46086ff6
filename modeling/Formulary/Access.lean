import Formulary.NodeCall
import Formulary.Selection

/-!
# Attributes and indices of values

`nil` answers every access with `nil`. Maps look keys up, node calls and nodes compute attributes,
records have fields, lists and strings have positions. On any other value an attribute is a method
without arguments.
-/

namespace Formulary

/-- Where code runs. -/
structure Context where
  /-- The environment that attributes are computed in. -/
  env : Nat
  /-- The environments of the node calls that are being read. -/
  held : List Nat
  /-- The node whose attribute is being computed. -/
  node : NodeRef
  /-- The module that the code is written in. -/
  home : Nat
  homeName : String
deriving DecidableEq, Repr

namespace Access

/-- A fault of a method call as one of reading an attribute. -/
def asAttribute (receiver : Value) (attr : String) : Stop → Stop :=
  Stop.mapFault fun f ↦ ⟨.invalidAttribute attr receiver.typeName f.message, []⟩

variable {σ : Type} {m : Type → Type} [Monad m] [Machine σ m]

/-- The value of `receiver.attr`. -/
def getAttr (s : Setting σ) (read : Read m) (cx : Context) (receiver : Value) (attr : String) :
    m Value :=
  match receiver with
  | .nil => pure .nil
  | .map _ => pure ((receiver.lookupText? attr).getD .nil)
  | .call env node params => NodeCall.attr read cx.held env node params attr
  | .node node => read cx.held cx.env node attr
  | .record _ _ => pure ((receiver.field? attr).getD .nil)
  | _ => Machine.step (tryCatch (s.callMethod cx.home receiver attr []) fun stop ↦
      throw (asAttribute receiver attr stop))

/-- The one argument of an index. -/
def singleArg (receiver : Value) : List Value → Except Fault Value
  | [key] => .ok key
  | args =>
    Fault.fail (.invalidIndex receiver.typeName s!"expected 1 argument, got {args.length}")

/-- The attribute name that is the one argument of an index. -/
def nameArg (receiver : Value) (args : List Value) : Except Fault String := do
  match ← singleArg receiver args with
  | .str name => return name
  | other =>
    Fault.fail (.invalidIndex receiver.typeName
      s!"attribute name must be a String, got {other.typeName}")

/-- The value of `receiver[args]`. -/
def index (s : Setting σ) (read : Read m) (cx : Context) (receiver : Value) (args : List Value) :
    m Value :=
  match receiver with
  | .nil => pure .nil
  | .map _ => do
    let key ← Machine.step (Eval.ofExcept (singleArg receiver args))
    return (receiver.lookup? key).getD .nil
  | .call _ _ _ | .node _ | .record _ _ => do
    let name ← Machine.step (Eval.ofExcept (nameArg receiver args))
    getAttr s read cx receiver name
  | .list _ => Machine.step (Eval.ofExcept (selectItems receiver args))
  | .str _ => Machine.step (Eval.ofExcept (selectChars receiver args))
  | _ => Machine.step (Eval.fail (.invalidIndex receiver.typeName "value cannot be indexed"))

end Access

end Formulary
