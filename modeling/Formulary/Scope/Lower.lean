import Formulary.Scope

/-!
# Resolving names

Turns a checked expression into code.
-/

namespace Formulary

/-- The value of a constant. -/
def Literal.value : Literal → Value
  | nil => .nil
  | bool b => .bool b
  | int n => .int n
  | float x => .float x
  | str s => .str s

namespace Scope

mutual

/-- The code of an expression; `vars` are the comprehension variables around it, innermost
first. -/
def lower (sc : Scope) (vars : List String) : Expr → Except Problem Code
  | .literal _ l => .ok (.const l.value)
  | .ident _ name =>
    match vars.idxOf? name with
    | some i => .ok (.var i)
    | none => .ok (.attr name)
  | .params _ => .ok .params
  | .path _ p => do
    match ← sc.resolveTarget p with
    | .node target => return .node target
    | .hostClass signature => return .hostClass signature.name
  | .unary _ op a => return .unary op (← lower sc vars a)
  | .binary _ op a b => return .binary op (← lower sc vars a) (← lower sc vars b)
  | .cond _ a b c => return .cond (← lower sc vars a) (← lower sc vars b) (← lower sc vars c)
  | .attr _ a name => return .getAttr (← lower sc vars a) name
  | .index _ a args => return .index (← lower sc vars a) (← lowerAll sc vars args)
  | .method _ (.path _ p) name args => do
    match ← sc.resolveTarget p with
    | .hostClass signature => return .function signature.name name (← lowerAll sc vars args)
    | .node target => return .method (.node target) name (← lowerAll sc vars args)
  | .method _ a name args => return .method (← lower sc vars a) name (← lowerAll sc vars args)
  | .call _ a args => return .call (← lower sc vars a) (← lowerNamed sc vars args)
  | .raise _ args => return .raise (← lowerAll sc vars args)
  | .list _ items => return .list (← lowerAll sc vars items)
  | .set _ items => return .set (← lowerAll sc vars items)
  | .map _ entries => return .map (← lowerEntries sc vars entries)
  | .comprehension _ yield binding source filter => do
    let source ← lower sc vars source
    let inner := binding.names.reverse ++ vars
    let yield ← lowerYield sc inner yield
    let filter ← lowerOptional sc inner filter
    return .comprehension yield (binding.names.length == 2) source filter

/-- The code of several expressions. -/
def lowerAll (sc : Scope) (vars : List String) : List Expr → Except Problem (List Code)
  | [] => .ok []
  | e :: es => return (← lower sc vars e) :: (← lowerAll sc vars es)

/-- The arguments of a node call as entries under string keys. -/
def lowerNamed (sc : Scope) (vars : List String) :
    List (Entry String Expr) → Except Problem (List (Entry Code Code))
  | [] => .ok []
  | .pair name e :: es =>
    return .pair (.const (.str name)) (← lower sc vars e) :: (← lowerNamed sc vars es)
  | .spread e :: es => return .spread (← lower sc vars e) :: (← lowerNamed sc vars es)

/-- The code of a map's entries. -/
def lowerEntries (sc : Scope) (vars : List String) :
    List (Entry Expr Expr) → Except Problem (List (Entry Code Code))
  | [] => .ok []
  | .pair k v :: es =>
    return .pair (← lower sc vars k) (← lower sc vars v) :: (← lowerEntries sc vars es)
  | .spread e :: es => return .spread (← lower sc vars e) :: (← lowerEntries sc vars es)

/-- The code of a comprehension's body. -/
def lowerYield (sc : Scope) (vars : List String) : Yield Expr → Except Problem (Yield Code)
  | .list a => return .list (← lower sc vars a)
  | .set a => return .set (← lower sc vars a)
  | .map k v => return .map (← lower sc vars k) (← lower sc vars v)

/-- The code of an expression if there is one. -/
def lowerOptional (sc : Scope) (vars : List String) : Option Expr → Except Problem (Option Code)
  | none => .ok none
  | some e => return some (← lower sc vars e)

end

end Scope

end Formulary
