import Formulary.Diagnostic
import Formulary.Expr.Parser
import Formulary.Lines
import Formulary.Script
import Formulary.Token.Lexer

/-!
# Reading scripts

Imports and node headers start in column 0, formulas and parameters are indented beneath the node
they belong to, and each declaration ends with its line. Only the shape is checked here.
-/

namespace Formulary

namespace Reader

/-- Reads `import Module`. -/
def importLine : Reader Declaration := do
  advance
  return .imports (← const "module name")

/-- Reads `Name:` with an optional parent. -/
def nodeHeader : Reader Declaration := do
  let name ← const "node name"
  require .colon "`:` after node name"
  if ← atLineEnd then return .node name none
  else return .node name (some (← nodePath))

/-- A formula, or a parameter with an optional default. -/
def memberLine : Reader Declaration := do
  let name ← ident "attribute name"
  require .assign "`=`"
  if ← eat .question then
    if ← atLineEnd then return .param name none
    else return .param name (some (← expression))
  else if ← atLineEnd then expected "an expression"
  else return .formula name (← expression)

/-- The declaration at the cursor, which is indented or not. -/
def declaration (indented : Bool) : Reader Declaration := do
  match ← kind with
  | .kwImport => if indented then refuse (.notInColumnZero "import") else importLine
  | .const _ => if indented then refuse (.notInColumnZero "node definition") else nodeHeader
  | .ident _ => if indented then memberLine else refuse .notIndented
  | _ => expected "a declaration"

/-- A declaration with its place. -/
def line (lines : Lines) : Reader Line := do
  let start ← span
  let declaration ← declaration (decide (0 < lines.columnOf start.start))
  return ⟨lines.lineOf start.start, ← spanFrom start, declaration⟩

/-- At most `bound` declarations and newlines, up to the end of the file. -/
def linesUpTo (lines : Lines) : (bound : Nat) → Reader (List Line)
  | 0 => return []
  | bound + 1 => do
    if ← eat .newline then linesUpTo lines bound
    else if (← kind) = .eof then return []
    else
      let first ← line lines
      unless ← atLineEnd do expected "end of line"
      return first :: (← linesUpTo lines bound)

/-- Every declaration of the file. -/
def script (lines : Lines) : Reader (List Line) := do
  linesUpTo lines (← remaining)

end Reader

/-- The declarations of a script, or the first fault, located in `module`. -/
def parse (source module : String) : Except Diagnostic (List Line) :=
  let lines := Lines.ofText source
  let fault (span : Span) (message : String) : Diagnostic :=
    ⟨.parse, message, module, lines.lineOf span.start⟩
  match Token.tokens source with
  | .error e => .error (fault e.span e.message)
  | .ok tokens =>
    match (Reader.script lines).run' (Cursor.ofTokens tokens) with
    | .error refusal => .error (fault refusal.span refusal.message)
    | .ok result => .ok result

end Formulary
