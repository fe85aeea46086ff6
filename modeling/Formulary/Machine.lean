import Formulary.PolicedCall

/-!
# Monads that code runs in

Code is run in any monad that can take the steps of an evaluation. Evaluations themselves are one;
another may do more besides, and see the places where a name can turn out to be missing, where a
fault is handled and where an attribute is computed.
-/

namespace Formulary

/-- A monad that code can run in. -/
class Machine (σ : outParam Type) (m : Type → Type) where
  /-- Does something that computes no attribute. -/
  step : {α : Type} → Eval σ α → m α
  /-- Reads an attribute that code names alone, of the node that it runs on. -/
  attr : Setting σ → NodeRef → String → m Value → m Value
  /-- Looks at a variable that no comprehension around binds. -/
  unbound : (index : Nat) → m Value
  /-- Calls a function that code names together with its class. -/
  function : Setting σ → (hostClass function : String) → (args : List Value) → m Value
  /-- Puts the fault of an evaluation in place of its value. -/
  safely : m Value → m Value
  /-- Computes an attribute by running its body, and keeps the value. -/
  compute : (env : Nat) → MemoKey → Fault.Frame → m Value → m Value

namespace Eval

variable {σ : Type}

/-- The fault of an evaluation as a value in its place. -/
def safely (m : Eval σ Value) : Eval σ Value :=
  tryCatch m fun
    | .fault f => pure f.toValue
    | stop => throw stop

/-- Runs the body of an attribute, and keeps the value. -/
def compute (env : Nat) (key : MemoKey) (frame : Fault.Frame) (body : Eval σ Value) :
    Eval σ Value := do
  record (.entered env key frame)
  let v ← tryCatch body fun stop ↦ do
    record (.left env key none)
    throw (stop.within frame)
  store env key v
  record (.left env key (some v))
  return v

instance : Machine σ (Eval σ) where
  step m := m
  attr _ _ _ read := read
  unbound _ := fail (.internal "comprehension variable out of scope")
  function s := s.callFunction
  safely := safely
  compute := compute

end Eval

end Formulary
