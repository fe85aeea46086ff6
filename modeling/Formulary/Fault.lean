import Formulary.Value

/-!
# Runtime faults

Why an evaluation fails, and the attributes that were being computed when it did. A fault can be
handled; there are other reasons to stop that cannot.
-/

namespace Formulary

namespace Fault

/-- The causes of failure. Receivers and operands are named by their types. -/
inductive Cause where
  | invalidAttribute (attr receiver reason : String)
  | invalidIndex (receiver reason : String)
  | undefinedParam (name : String)
  | undefinedNode (name : String)
  | moduleNotFound (name : String)
  | noSuchMethod (method : String) (receiver : Option String)
  | badArgument (method detail : String)
  | badCall (target detail : String)
  | divisionByZero
  | overflow (operation : String)
  | typeMismatch (operation left : String) (right : Option String)
  /-- Raised by `ERR`. -/
  | raised (message : String)
  /-- Reported by the host. -/
  | host (message : String)
  /-- A broken invariant of the evaluator. -/
  | internal (message : String)
deriving DecidableEq, Repr

/-- Stable name of the kind of failure. -/
def Cause.name : Cause → String
  | invalidAttribute _ _ _ => "InvalidGetAttribute"
  | invalidIndex _ _ => "InvalidIndex"
  | undefinedParam _ => "UndefinedParamError"
  | undefinedNode _ => "UndefinedNodeError"
  | moduleNotFound _ => "ModuleNotFound"
  | noSuchMethod _ _ => "NoSuchMethod"
  | badArgument _ _ => "BadArgument"
  | badCall _ _ => "BadCallError"
  | divisionByZero => "ZeroDivisionError"
  | overflow _ => "IntegerOverflow"
  | typeMismatch _ _ _ => "TypeError"
  | raised _ => "RuntimeError"
  | host _ => "HostError"
  | internal _ => "InternalError"

/-- Wording of a cause. -/
def Cause.message : Cause → String
  | invalidAttribute attr receiver reason => s!"bad attribute '{attr}' on {receiver}: {reason}"
  | invalidIndex receiver reason => s!"bad index on {receiver}: {reason}"
  | undefinedParam name => s!"undefined parameter {name}"
  | undefinedNode name => s!"unknown node {name}"
  | moduleNotFound name => s!"module '{name}' not found"
  | noSuchMethod method none => s!"no such method {method}"
  | noSuchMethod method (some receiver) => s!"no such method {method} for {receiver}"
  | badArgument _ detail => detail
  | badCall target detail => s!"bad call to {target}: {detail}"
  | divisionByZero => "divided by 0"
  | overflow operation => s!"integer overflow in {operation}"
  | typeMismatch operation left none => s!"operator `{operation}` cannot be applied to {left}"
  | typeMismatch operation left (some right) =>
    s!"operator `{operation}` cannot be applied to {left} and {right}"
  | raised message | host message | internal message => message

/-- An attribute that was being computed: the module and line it was written on, and its name. -/
structure Frame where
  module : String
  line : Nat
  attr : String
deriving DecidableEq, Repr

/-- Written `module:line in attribute`. -/
def Frame.text (f : Frame) : String := s!"{f.module}:{f.line} in {f.attr}"

end Fault

/-- A failure with its frames, outermost first. -/
structure Fault where
  cause : Fault.Cause
  frames : List Fault.Frame := []
deriving DecidableEq, Repr

namespace Fault

/-- Wording of the cause. -/
def message (f : Fault) : String := f.cause.message

/-- The failure as seen from one attribute further out. -/
def within (f : Fault) (frame : Frame) : Fault := { f with frames := frame :: f.frames }

/-- The innermost frame. -/
def innermost? (f : Fault) : Option Frame := f.frames.getLast?

/-- The cause on one line, then a line for each frame. -/
def text (f : Fault) : String :=
  s!"{f.cause.name}: {f.message}" ++ String.join (f.frames.map fun frame ↦ "\n  at " ++ frame.text)

/-- The failure as plain data: its message, and a triple for each frame. -/
def toValue (f : Fault) : Value :=
  .map [(.str "error", .str f.message),
    (.str "backtrace", .list (f.frames.map fun frame ↦
      .list [.str frame.module, .int (Int64.ofNat frame.line), .str frame.attr]))]

/-- Fails with a cause, before any frame is known. -/
def fail {α : Type} (cause : Cause) : Except Fault α := .error ⟨cause, []⟩

/-- Fails because an operation does not fit its operands. -/
def mismatch {α : Type} (operation : String) (left : Value) (right : Option Value) :
    Except Fault α :=
  fail (.typeMismatch operation left.typeName (right.map Value.typeName))

end Fault

/-- Why an evaluation ends without a value. -/
inductive Stop where
  | fault (f : Fault)
  /-- Comparisons were found to contradict each other while a list was being sorted. Nothing
  recovers from this. -/
  | disorder
  /-- Attributes are nested deeper than the evaluation was allowed to go. -/
  | exhausted
deriving DecidableEq, Repr

namespace Stop

/-- Ends with a fault of which no frame is known yet. -/
def fail {α : Type} (cause : Fault.Cause) : Except Stop α := .error (.fault ⟨cause, []⟩)

/-- Puts another fault in the place of a fault. -/
def mapFault (change : Fault → Fault) : Stop → Stop
  | fault f => fault (change f)
  | other => other

/-- Adds a frame to a fault. -/
def within (frame : Fault.Frame) : Stop → Stop := mapFault (·.within frame)

/-- Whether not only the evaluation ends, but the process that it runs in. -/
def endsProcess (stop : Stop) : Bool := stop == disorder

end Stop

end Formulary
