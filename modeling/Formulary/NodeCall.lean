import Formulary.Machine
import Formulary.Ordered.Indexed

/-!
# Node calls

A call of a node is a value: it defers the evaluation of the node's attributes under the call's
parameters. The attributes are computed when they are read, in an environment that belongs to the
call, so that reading one twice computes it once. While a call is being read it holds its
environment. Should it be read again in between, which takes a host that gives it back, then that is
done in a new environment.
-/

namespace Formulary

/-- Reads an attribute of a node type in an environment, while node calls hold theirs. -/
abbrev Read (m : Type → Type) :=
  (held : List Nat) → (env : Nat) → (node : NodeRef) → (attr : String) → m Value

namespace NodeCall

/-- A new call of a node. -/
def create {σ : Type} (node : NodeRef) (params : List (Value × Value)) : Eval σ Value :=
  return .call (← Eval.newEnv params) node params

/-- A new call of the same node with some parameters changed or added. -/
def amend {σ : Type} (node : NodeRef) (params extra : List (Value × Value)) : Eval σ Value :=
  create node (Indexed.merge params extra)

/-- The call `target(params)`, written in the code of the node `current`. -/
def apply {σ : Type} (current : NodeRef) (target : Value) (params : List (Value × Value)) :
    Eval σ Value :=
  match target with
  | .call _ node old => amend node old params
  | .node node => create node params
  | .nil => create current params
  | other => Eval.ofExcept (Fault.mismatch "()" other none)

variable {σ : Type} {m : Type → Type} [Monad m] [Machine σ m]

/-- Reads an attribute of a call. -/
def attr (read : Read m) (held : List Nat) (env : Nat) (node : NodeRef)
    (params : List (Value × Value)) (name : String) : m Value :=
  if env ∈ held then do
    let env ← Machine.step (Eval.newEnv params)
    read held env node name
  else read (env :: held) env node name

/-- Each named attribute with its value, up to the first that fails. -/
def readAll (read : String → m Value) (names : List Value) : m (List (Value × Value)) :=
  names.mapM fun name ↦ do
    match name with
    | .str attr => return (name, ← read attr)
    | other => Machine.step (Eval.ofExcept (Fault.mismatch "%" other none))

/-- The operation `call % names`: the named attributes as a map. -/
def strict (read : String → m Value) (names : Value) : m Value := do
  match names with
  | .list names => return .map (Indexed.ofEntries (← readAll read names))
  | other => Machine.step (Eval.ofExcept (Fault.mismatch "%" other none))

/-- One attribute, or its fault as a value. -/
def readSafely (read : String → m Value) (name : Value) : m Value :=
  Machine.safely (match name with
    | .str attr => read attr
    | other => Machine.step (Eval.ofExcept (Fault.mismatch "/" other none)))

/-- The operation `call / names`: the named attributes as a map in which a fault takes the place of
a value; a single name gives that attribute alone. -/
def safe (read : String → m Value) (names : Value) : m Value := do
  match names with
  | .list names =>
    let entries ← names.mapM fun name ↦ return (name, ← readSafely read name)
    return .map (Indexed.ofEntries entries)
  | name => readSafely read name

end NodeCall

end Formulary
