import Formulary.Access
import Formulary.Arithmetic

/-!
# Evaluation

Runs code, and computes attributes by running the code of their members. Code is run with a way to
read attributes as a parameter; reading an attribute supplies itself for that, one level of nesting
less deep.
-/

namespace Formulary

/-- The items that a comprehension runs over. -/
def Value.iterate : Value → Except Fault (List Value)
  | list items | set items => .ok items
  | map entries => .ok (entries.map ofEntry)
  | other => Fault.mismatch "for" other none

/-- The variables of a comprehension for one item, innermost first. -/
def bindItem (pair : Bool) (item : Value) : Except Fault (List Value) :=
  if pair then
    match item with
    | .list [first, second] => .ok [second, first]
    | other => Fault.mismatch "for k, v in" other none
  else .ok [item]

/-- The entries of a map that is spread into another one. -/
def spreadEntries : Value → Except Fault (List (Value × Value))
  | .map entries => .ok entries
  | .nil => .ok []
  | other => Fault.mismatch "**" other none

variable {σ : Type} {m : Type → Type} [Monad m] [Machine σ m]

/-- Runs a comprehension over items: the filter, and if it holds the body. -/
def collect {α : Type} (pair : Bool) (vars items : List Value)
    (filter : List Value → m Bool) (body : List Value → m α) : m (List α) :=
  items.filterMapM fun item ↦ do
    let vars := (← Machine.step (Eval.ofExcept (bindItem pair item))) ++ vars
    if ← filter vars then return some (← body vars) else return none

/-- A binary operation on computed operands. A call on the left is evaluated by `/` and `%` and
amended by `+`. -/
def applyBinary (read : Read m) (held : List Nat) (op : BinaryOp) (left right : Value) : m Value :=
  match left, op, right with
  | .call env node params, .div, _ => NodeCall.safe (NodeCall.attr read held env node params) right
  | .call env node params, .mod, _ =>
    NodeCall.strict (NodeCall.attr read held env node params) right
  | .call _ node params, .add, .map extra => Machine.step (NodeCall.amend node params extra)
  | _, _, _ => Machine.step (Eval.ofExcept (Value.binary op left right))

mutual

/-- Runs code; `vars` are the comprehension variables around it, innermost first. -/
def run (s : Setting σ) (read : Read m) (cx : Context) (vars : List Value) : Code → m Value
  | .const v => pure v
  | .attr name => Machine.attr s cx.node name (read cx.held cx.env cx.node name)
  | .var i =>
    match vars[i]? with
    | some v => pure v
    | none => Machine.unbound i
  | .params => return .map (← Machine.step (Eval.visibleParams cx.env))
  | .node target => pure (.node (target.ref cx.home cx.homeName))
  | .hostClass name => pure (.hostClass name)
  | .unary op a => do
    let a ← run s read cx vars a
    Machine.step (Eval.ofExcept (Value.unary op a))
  | .binary .and a b => do
    let a ← run s read cx vars a
    if a.truthy then run s read cx vars b else pure a
  | .binary .or a b => do
    let a ← run s read cx vars a
    if a.truthy then pure a else run s read cx vars b
  | .binary op a b => do
    let a ← run s read cx vars a
    let b ← run s read cx vars b
    applyBinary read cx.held op a b
  | .cond test positive negative => do
    let test ← run s read cx vars test
    if test.truthy then run s read cx vars positive else run s read cx vars negative
  | .getAttr receiver name => do
    let receiver ← run s read cx vars receiver
    Access.getAttr s read cx receiver name
  | .index receiver args => do
    let receiver ← run s read cx vars receiver
    let args ← runAll s read cx vars args
    Access.index s read cx receiver args
  | .method receiver name args => do
    let receiver ← run s read cx vars receiver
    let args ← runAll s read cx vars args
    Machine.step (s.callMethod cx.home receiver name args)
  | .function hostClass name args => do
    let args ← runAll s read cx vars args
    Machine.function s hostClass name args
  | .call target args => do
    let target ← run s read cx vars target
    let params ← runEntries s read cx vars args
    Machine.step (NodeCall.apply cx.node target (Indexed.ofEntries params))
  | .raise args => do
    let args ← runAll s read cx vars args
    Machine.step (Eval.fail (.raised (String.intercalate ", " (args.map Value.text))))
  | .list items => return .list (← runAll s read cx vars items)
  | .set items => return .set (Indexed.ofElements (← runAll s read cx vars items))
  | .map entries => return .map (Indexed.ofEntries (← runEntries s read cx vars entries))
  | .comprehension yield pair source filter => do
    let source ← run s read cx vars source
    let items ← Machine.step (Eval.ofExcept source.iterate)
    runYield s read cx vars pair items (fun vars ↦ runFilter s read cx vars filter) yield

/-- Runs codes in order. -/
def runAll (s : Setting σ) (read : Read m) (cx : Context) (vars : List Value) :
    List Code → m (List Value)
  | [] => pure []
  | c :: cs => do
    let v ← run s read cx vars c
    let vs ← runAll s read cx vars cs
    return v :: vs

/-- Runs entries in order; those of a map that is spread come in its place. -/
def runEntries (s : Setting σ) (read : Read m) (cx : Context) (vars : List Value) :
    List (Entry Code Code) → m (List (Value × Value))
  | [] => pure []
  | .pair k v :: rest => do
    let k ← run s read cx vars k
    let v ← run s read cx vars v
    let entries ← runEntries s read cx vars rest
    return (k, v) :: entries
  | .spread c :: rest => do
    let v ← run s read cx vars c
    let extra ← Machine.step (Eval.ofExcept (spreadEntries v))
    let entries ← runEntries s read cx vars rest
    return extra ++ entries

/-- Runs the filter of a comprehension; without one every item passes. -/
def runFilter (s : Setting σ) (read : Read m) (cx : Context) (vars : List Value) :
    Option Code → m Bool
  | none => pure true
  | some c => do
    let v ← run s read cx vars c
    return v.truthy

/-- Runs the body of a comprehension for each item that passes, and collects the results. -/
def runYield (s : Setting σ) (read : Read m) (cx : Context) (vars : List Value) (pair : Bool)
    (items : List Value) (filter : List Value → m Bool) : Yield Code → m Value
  | .list c => do
    let vs ← collect pair vars items filter fun vars ↦ run s read cx vars c
    return .list vs
  | .set c => do
    let vs ← collect pair vars items filter fun vars ↦ run s read cx vars c
    return .set (Indexed.ofElements vs)
  | .map k v => do
    let es ← collect pair vars items filter fun vars ↦ do
      let k ← run s read cx vars k
      let v ← run s read cx vars v
      return (k, v)
    return .map (Indexed.ofEntries es)

end

/-- Computes a member's body. -/
def runBody (s : Setting σ) (read : Read m) (cx : Context) (name : String) : Body → m Value
  | .formula code => run s read cx [] code
  | .param default => do
    match ← Machine.step (Eval.param? cx.env name) with
    | some v => return v
    | none =>
      match default with
      | some code => run s read cx [] code
      | none => Machine.step (Eval.fail (.undefinedParam name))

/-- Where the value of a member is kept. -/
abbrev NodeRef.key (node : NodeRef) (slot : Slot) : MemoKey := ⟨node.module, node.index, slot.id⟩

/-- Computes a member, and keeps the value. -/
def compute (s : Setting σ) (read : Read m) (held : List Nat) (env : Nat) (node : NodeRef)
    (slot : Slot) : m Value :=
  Machine.compute env (node.key slot) slot.frame
    (runBody s read ⟨env, held, node, slot.home, slot.homeName⟩ slot.member.name slot.member.body)

variable (m) in
/-- Reads an attribute: its value in the environment if it was computed there, or else what its
member computes. The attributes that are being computed at a time nest at most `depth` deep. -/
def readAttrIn (s : Setting σ) : (depth : Nat) → Read m
  | 0, _, _, _, _ => Machine.step (throw .exhausted)
  | depth + 1, held, env, node, attr =>
    match s.library.slot? node attr with
    | none =>
      Machine.step (Eval.fail (.invalidAttribute attr s!"node {node.name}" "no such attribute"))
    | some slot => do
      match ← Machine.step (Eval.cached? env (node.key slot)) with
      | some v => return v
      | none => compute s (readAttrIn s depth) held env node slot

/-- Reads an attribute and does nothing besides. -/
abbrev readAttr (s : Setting σ) (depth : Nat) : Read (Eval σ) := readAttrIn (Eval σ) s depth

end Formulary
