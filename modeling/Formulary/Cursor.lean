import Formulary.Token

/-!
# Reading declarations from tokens

A cursor stands before a token; the end of the file is never passed. Readers take tokens from it or
refuse, with the token they could not take.
-/

namespace Formulary

/-- A position in a token list. -/
structure Cursor where
  /-- Span of the last token taken. -/
  previous : Span
  /-- Tokens from the current one on. -/
  ahead : List Token
  /-- How many these are, which need not be counted again and again. -/
  count : Nat
  count_eq : count = ahead.length
deriving DecidableEq, Repr

/-- Why a reader refuses. -/
inductive Refusal.Cause where
  | expected (what : String) (found : Token.Kind)
  /-- A declaration that has to start its line does not. -/
  | notInColumnZero (what : String)
  | notIndented
  | emptyIndex
  | positionalArgument
deriving DecidableEq, Repr

/-- A refusal at a token. -/
structure Refusal where
  span : Span
  cause : Refusal.Cause
deriving DecidableEq, Repr

/-- Wording of a refusal. -/
def Refusal.message (r : Refusal) : String :=
  match r.cause with
  | .expected what found => s!"expected {what}, found {found.describe}"
  | .notInColumnZero what => s!"{what} must start in column 0"
  | .notIndented => "attribute definitions must be indented under a node"
  | .emptyIndex => "index requires at least one argument"
  | .positionalArgument => "node calls take keyword arguments only"

/-- Computations that take tokens or refuse. -/
abbrev Reader := StateT Cursor (Except Refusal)

namespace Cursor

/-- The start of a token list. -/
def ofTokens (tokens : List Token) : Cursor := ⟨⟨0, 0⟩, tokens, tokens.length, rfl⟩

/-- The token at the cursor. -/
def current (c : Cursor) : Token := c.ahead.headD ⟨.eof, c.previous⟩

/-- The token after the one at the cursor. -/
def next (c : Cursor) : Token := c.ahead.tail.headD c.current

/-- The cursor after the current token, which stays at the end of the file. -/
def advance (c : Cursor) : Cursor :=
  if c.current.kind = .eof then c
  else ⟨c.current.span, c.ahead.tail, c.count - 1, by simp [c.count_eq]⟩

end Cursor

namespace Reader

/-- Kind of the current token. -/
def kind : Reader Token.Kind := return (← get).current.kind

/-- Span of the current token. -/
def span : Reader Span := return (← get).current.span

/-- Span of the last token taken. -/
def previous : Reader Span := return (← get).previous

/-- Takes the current token. -/
def advance : Reader Unit := modify Cursor.advance

/-- Refuses the current token. -/
def refuse {α : Type} (cause : Refusal.Cause) : Reader α := do
  throw ⟨← span, cause⟩

/-- Refuses the current token, since something else has to stand here. -/
def expected {α : Type} (what : String) : Reader α := do
  refuse (.expected what (← kind))

/-- Takes the current token if it is of this kind. -/
def eat (k : Token.Kind) : Reader Bool := do
  if (← kind) = k then
    advance
    return true
  else return false

/-- Takes a token of this kind. -/
def require (k : Token.Kind) (what : String) : Reader Unit := do
  unless ← eat k do expected what

/-- Takes a capitalised name. -/
def const (what : String) : Reader String := do
  match ← kind with
  | .const name =>
    advance
    return name
  | _ => expected what

/-- Takes a lower-case name. -/
def ident (what : String) : Reader String := do
  match ← kind with
  | .ident name =>
    advance
    return name
  | _ => expected what

/-- Whether the line ends here. -/
def atLineEnd : Reader Bool := return (← kind) = .newline || (← kind) = .eof

/-- Number of tokens ahead, which bounds how often a token can be taken. -/
def remaining : Reader Nat := return (← get).count

end Reader

end Formulary
