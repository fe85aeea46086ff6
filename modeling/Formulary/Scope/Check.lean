import Formulary.Ordered.Indexed
import Formulary.Scope

/-!
# Checking expressions

An expression is accepted when every name in it is known, and then the check tells which members of
the open node it refers to, each once, in the order of their first mention.
-/

namespace Formulary.Scope

/-- Checks a function call that is written on a path. -/
def checkFunction (sc : Scope) (path : NodePath) (function : String) (count : Nat) :
    Except Problem Unit := do
  match ← sc.resolveTarget path with
  | .node _ => throw (.nodeFunction path function)
  | .hostClass signature =>
    match signature.arity? function with
    | none => throw (.unknownFunction path function)
    | some arity =>
      if arity.accepts count then return ()
      else throw (.wrongCount path function arity count)

mutual

/-- The members that an expression mentions, in order; `vars` are the comprehension variables around
it. -/
def mentions (sc : Scope) (vars : List String) : Expr → Except Problem (List String)
  | .literal _ _ | .params _ => .ok []
  | .ident _ name =>
    if vars.contains name || sc.sees name then .ok [name] else .error (.unknownName name)
  | .path _ p => do
    let _ ← sc.resolveTarget p
    return []
  | .unary _ _ a | .attr _ a _ => mentions sc vars a
  | .binary _ _ a b => return (← mentions sc vars a) ++ (← mentions sc vars b)
  | .cond _ a b c =>
    return (← mentions sc vars a) ++ (← mentions sc vars b) ++ (← mentions sc vars c)
  | .index _ a args => return (← mentions sc vars a) ++ (← mentionsAll sc vars args)
  | .method _ (.path _ p) name args => do
    sc.checkFunction p name args.length
    mentionsAll sc vars args
  | .method _ a _ args => return (← mentions sc vars a) ++ (← mentionsAll sc vars args)
  | .call _ a args => return (← mentions sc vars a) ++ (← mentionsNamed sc vars args)
  | .raise _ items | .list _ items | .set _ items => mentionsAll sc vars items
  | .map _ entries => mentionsEntries sc vars entries
  | .comprehension _ yield binding source filter => do
    let ds ← mentions sc vars source
    let inner := binding.names.reverse ++ vars
    let dy ← mentionsYield sc inner yield
    let df ← mentionsOptional sc inner filter
    return ds ++ (dy ++ df).filter fun name ↦ !binding.names.contains name

/-- What several expressions mention. -/
def mentionsAll (sc : Scope) (vars : List String) : List Expr → Except Problem (List String)
  | [] => .ok []
  | e :: es => return (← mentions sc vars e) ++ (← mentionsAll sc vars es)

/-- What the arguments of a node call mention. -/
def mentionsNamed (sc : Scope) (vars : List String) :
    List (Entry String Expr) → Except Problem (List String)
  | [] => .ok []
  | .pair _ e :: es | .spread e :: es =>
    return (← mentions sc vars e) ++ (← mentionsNamed sc vars es)

/-- What the entries of a map mention. -/
def mentionsEntries (sc : Scope) (vars : List String) :
    List (Entry Expr Expr) → Except Problem (List String)
  | [] => .ok []
  | .pair k v :: es =>
    return (← mentions sc vars k) ++ (← mentions sc vars v) ++ (← mentionsEntries sc vars es)
  | .spread e :: es => return (← mentions sc vars e) ++ (← mentionsEntries sc vars es)

/-- What the body of a comprehension mentions. -/
def mentionsYield (sc : Scope) (vars : List String) : Yield Expr → Except Problem (List String)
  | .list a | .set a => mentions sc vars a
  | .map k v => return (← mentions sc vars k) ++ (← mentions sc vars v)

/-- What an expression mentions if there is one. -/
def mentionsOptional (sc : Scope) (vars : List String) :
    Option Expr → Except Problem (List String)
  | none => .ok []
  | some e => mentions sc vars e

end

/-- The members that a definition refers to, each once. -/
def references (sc : Scope) (body : Option Expr) : Except Problem (List String) :=
  (sc.mentionsOptional [] body).map Indexed.ofElements

end Formulary.Scope
