import Formulary.Binary64
import Formulary.Operator
import Formulary.Span

/-!
# Expressions

The expression trees of the surface language. Every expression carries the span it was read from; a
parenthesised one carries the span with its parentheses.
-/

namespace Formulary

/-- A node name, qualified by a module name if the node is imported. -/
structure NodePath where
  module : Option String
  name : String
deriving DecidableEq, Repr

/-- Written `Node` or `Module::Node`. -/
def NodePath.text (p : NodePath) : String :=
  match p.module with
  | some m => s!"{m}::{p.name}"
  | none => p.name

/-- Constants that have a token or keyword of their own. -/
inductive Literal where
  | nil
  | bool (b : Bool)
  | int (n : Int64)
  | float (x : Binary64)
  | str (s : String)
deriving DecidableEq, Repr

/-- A part of a map literal or of a call's arguments: a key with its value, or a map whose entries
are all taken. -/
inductive Entry (κ ε : Type) where
  | pair (key : κ) (value : ε)
  | spread (source : ε)
deriving DecidableEq, Repr

/-- What a comprehension collects, and into which kind of collection. -/
inductive Yield (ε : Type) where
  | list (item : ε)
  | set (item : ε)
  | map (key value : ε)
deriving DecidableEq, Repr

/-- The variables of a comprehension. -/
inductive Binding where
  | single (name : String)
  | pair (first second : String)
deriving DecidableEq, Repr

/-- The names that a binding introduces, in order. -/
def Binding.names : Binding → List String
  | single name => [name]
  | pair first second => [first, second]

/-- Expressions. -/
inductive Expr where
  | literal (span : Span) (value : Literal)
  /-- An attribute, a parameter or a comprehension variable. -/
  | ident (span : Span) (name : String)
  /-- The parameters of the current environment, written `_`. -/
  | params (span : Span)
  /-- A capitalised name: a node, or a host class when there is no such node. -/
  | path (span : Span) (path : NodePath)
  | unary (span : Span) (op : UnaryOp) (operand : Expr)
  | binary (span : Span) (op : BinaryOp) (left right : Expr)
  | cond (span : Span) (test positive negative : Expr)
  /-- An attribute, `receiver.name`. -/
  | attr (span : Span) (receiver : Expr) (name : String)
  /-- A selection, `receiver[args]`. -/
  | index (span : Span) (receiver : Expr) (args : List Expr)
  /-- A method call, `receiver.name(args)`. -/
  | method (span : Span) (receiver : Expr) (name : String) (args : List Expr)
  /-- A node call, `target(name = value, **source)`. -/
  | call (span : Span) (target : Expr) (args : List (Entry String Expr))
  /-- A failure raised by the script, `ERR(args)`. -/
  | raise (span : Span) (args : List Expr)
  | list (span : Span) (items : List Expr)
  | set (span : Span) (items : List Expr)
  | map (span : Span) (entries : List (Entry Expr Expr))
  | comprehension (span : Span) (yield : Yield Expr) (binding : Binding) (source : Expr)
      (filter : Option Expr)
deriving Repr

namespace Expr

/-- Where the expression was read from. -/
def span : Expr → Span
  | literal s _ | ident s _ | params s | path s _ | unary s _ _ | binary s _ _ _ | cond s _ _ _
  | attr s _ _ | index s _ _ | method s _ _ _ | call s _ _ | raise s _ | list s _ | set s _
  | map s _ | comprehension s _ _ _ _ => s

/-- The same expression with another span. -/
def withSpan (s : Span) : Expr → Expr
  | literal _ v => literal s v
  | ident _ name => ident s name
  | params _ => params s
  | path _ p => path s p
  | unary _ op e => unary s op e
  | binary _ op l r => binary s op l r
  | cond _ c t e => cond s c t e
  | attr _ e name => attr s e name
  | index _ e args => index s e args
  | method _ e name args => method s e name args
  | call _ e args => call s e args
  | raise _ args => raise s args
  | list _ items => list s items
  | set _ items => set s items
  | map _ entries => map s entries
  | comprehension _ y b src f => comprehension s y b src f

end Expr

end Formulary
