import Formulary.Cursor
import Formulary.Expr

/-!
# Reading expressions

Binary operators bind by precedence and to the left; unary ones bind tighter, and attribute access,
indexing and calls bind tightest. Each form is read by a function of the reader for its inner
expressions, and `expression` closes the circle: its bound is the depth to which expressions may
nest, and the number of tokens ahead is always enough.
-/

namespace Formulary

/-- The binary operator that a token stands for. -/
def Token.Kind.binaryOp? : Token.Kind → Option BinaryOp
  | star => some .mul
  | slash => some .div
  | percent => some .mod
  | plus => some .add
  | minus => some .sub
  | lt => some .lt
  | le => some .le
  | gt => some .gt
  | ge => some .ge
  | eqEq => some .eq
  | notEq => some .ne
  | andAnd => some .and
  | orOr => some .or
  | _ => none

/-- The unary operator that a token stands for. -/
def Token.Kind.unaryOp? : Token.Kind → Option UnaryOp
  | minus => some .neg
  | bang => some .not
  | _ => none

namespace Reader

/-- The span from `start` to the last token taken. -/
def spanFrom (start : Span) : Reader Span := return start.merge (← previous)

/-- At most `bound` items with commas between them, up to and including `close`. A comma may follow
the last item. -/
def itemsUpTo {α : Type} (item : Reader α) (close : Token.Kind) : (bound : Nat) → Reader (List α)
  | 0 => expected s!"`,` or `{close.text}`"
  | bound + 1 => do
    if ← eat close then return []
    let first ← item
    if ← eat .comma then return first :: (← itemsUpTo item close bound)
    if ← eat close then return [first]
    expected s!"`,` or `{close.text}`"

/-- Items with commas between them, up to and including `close`. -/
def items {α : Type} (item : Reader α) (close : Token.Kind) : Reader (List α) := do
  itemsUpTo item close (← remaining)

/-- The items after the first one, up to and including `close`. -/
def moreItems {α : Type} (item : Reader α) (close : Token.Kind) : Reader (List α) := do
  if ← eat .comma then items item close
  else if ← eat close then return []
  else expected s!"`,` or `{close.text}`"

/-- A node name, possibly qualified. -/
def nodePath : Reader NodePath := do
  let first ← const "node name"
  if ← eat .doubleColon then return ⟨some first, ← const "node name after `::`"⟩
  else return ⟨none, first⟩

/-- Reads `name = value` or `**source`. -/
def argument (expr : Reader Expr) : Reader (Entry String Expr) := do
  if ← eat .doubleStar then return .spread (← expr)
  match ← kind with
  | .ident name =>
    if (← get).next.kind = .assign then
      advance
      advance
      return .pair name (← expr)
    else refuse .positionalArgument
  | _ => refuse .positionalArgument

/-- Reads `key: value` or `**source`. -/
def mapEntry (expr : Reader Expr) : Reader (Entry Expr Expr) := do
  if ← eat .doubleStar then return .spread (← expr)
  let key ← expr
  require .colon "`:` in map literal"
  return .pair key (← expr)

/-- Reads `for x in source if filter` and the closing bracket, after what the comprehension
collects. -/
def comprehension (expr : Reader Expr) (start : Span) (yield : Yield Expr) (close : Token.Kind) :
    Reader Expr := do
  advance
  let first ← ident "comprehension variable"
  let binding ←
    if ← eat .comma then pure (Binding.pair first (← ident "second comprehension variable"))
    else pure (Binding.single first)
  require .kwIn "`in`"
  let source ← expr
  let filter ← if ← eat .kwIf then some <$> expr else pure none
  require close s!"`{close.text}`"
  return .comprehension (← spanFrom start) yield binding source filter

/-- Reads `if test then positive else negative`. -/
def conditional (expr : Reader Expr) : Reader Expr := do
  let start ← span
  advance
  let test ← expr
  require .kwThen "`then`"
  let positive ← expr
  require .kwElse "`else`"
  let negative ← expr
  return .cond (start.merge negative.span) test positive negative

/-- A list or a list comprehension. -/
def bracketed (expr : Reader Expr) : Reader Expr := do
  let start ← span
  advance
  if ← eat .rbracket then return .list (← spanFrom start) []
  let first ← expr
  if (← kind) = .kwFor then comprehension expr start (.list first) .rbracket
  else
    let rest ← moreItems expr .rbracket
    return .list (← spanFrom start) (first :: rest)

/-- A map, a set or a comprehension of either; empty braces are the empty map. -/
def braced (expr : Reader Expr) : Reader Expr := do
  let start ← span
  advance
  if ← eat .rbrace then return .map (← spanFrom start) []
  if (← kind) = .doubleStar then
    let entries ← items (mapEntry expr) .rbrace
    return .map (← spanFrom start) entries
  let first ← expr
  if ← eat .colon then
    let value ← expr
    if (← kind) = .kwFor then comprehension expr start (.map first value) .rbrace
    else
      let rest ← moreItems (mapEntry expr) .rbrace
      return .map (← spanFrom start) (.pair first value :: rest)
  else if (← kind) = .kwFor then comprehension expr start (.set first) .rbrace
  else
    let rest ← moreItems expr .rbrace
    return .set (← spanFrom start) (first :: rest)

/-- Reads `ERR(args)`. -/
def raised (expr : Reader Expr) : Reader Expr := do
  let start ← span
  advance
  require .lparen "`(` after ERR"
  let args ← items expr .rparen
  return .raise (← spanFrom start) args

/-- An expression in parentheses, which widens its span. -/
def parenthesised (expr : Reader Expr) : Reader Expr := do
  let start ← span
  advance
  let inner ← expr
  require .rparen "`)`"
  return inner.withSpan (← spanFrom start)

/-- Takes the current token as a whole expression. -/
def leaf (form : Span → Expr) : Reader Expr := do
  let start ← span
  advance
  return form start

/-- A node path as an expression. -/
def pathExpr : Reader Expr := do
  let start ← span
  let path ← nodePath
  return .path (← spanFrom start) path

/-- An expression without operators around it. -/
def primary (expr : Reader Expr) : Reader Expr := do
  match ← kind with
  | .int n => leaf (.literal · (.int n))
  | .float x => leaf (.literal · (.float x))
  | .str s => leaf (.literal · (.str s))
  | .kwNil => leaf (.literal · .nil)
  | .kwTrue => leaf (.literal · (.bool true))
  | .kwFalse => leaf (.literal · (.bool false))
  | .ident name => leaf (.ident · name)
  | .underscore => leaf .params
  | .const _ => pathExpr
  | .kwIf => conditional expr
  | .kwErr => raised expr
  | .lparen => parenthesised expr
  | .lbracket => bracketed expr
  | .lbrace => braced expr
  | _ => expected "an expression"

/-- Reads `.name` or `.name(args)` after a receiver. -/
def member (expr : Reader Expr) (receiver : Expr) : Reader Expr := do
  advance
  let name ← ident "attribute name after `.`"
  if ← eat .lparen then
    let args ← items expr .rparen
    return .method (← spanFrom receiver.span) receiver name args
  else return .attr (← spanFrom receiver.span) receiver name

/-- Reads `[args]` after a receiver. -/
def subscript (expr : Reader Expr) (receiver : Expr) : Reader Expr := do
  advance
  let args ← items expr .rbracket
  if args.isEmpty then refuse .emptyIndex
  return .index (← spanFrom receiver.span) receiver args

/-- Reads `(name = value)` after a target. -/
def invocation (expr : Reader Expr) (target : Expr) : Reader Expr := do
  advance
  let args ← items (argument expr) .rparen
  return .call (← spanFrom target.span) target args

/-- At most `bound` accesses, subscripts and calls after a receiver. -/
def suffixes (expr : Reader Expr) : (bound : Nat) → Expr → Reader Expr
  | 0, receiver => return receiver
  | bound + 1, receiver => do
    match ← kind with
    | .dot => suffixes expr bound (← member expr receiver)
    | .lbracket => suffixes expr bound (← subscript expr receiver)
    | .lparen => suffixes expr bound (← invocation expr receiver)
    | _ => return receiver

/-- At most `bound` unary operators, then a primary expression with its suffixes. -/
def operandUpTo (expr : Reader Expr) : (bound : Nat) → Reader Expr
  | 0 => expected "an expression"
  | bound + 1 => do
    match (← kind).unaryOp? with
    | some op =>
      let start ← span
      advance
      let operand ← operandUpTo expr bound
      return .unary (start.merge operand.span) op operand
    | none =>
      let receiver ← primary expr
      suffixes expr (← remaining) receiver

/-- An operand of binary operators. -/
def operand (expr : Reader Expr) : Reader Expr := do
  operandUpTo expr (← remaining)

/-- At most `bound` more operands, joined to `left` by operators of precedence `least` or more. What
stands to the right of an operator takes the operators that bind tighter than it. -/
def climb (operand : Reader Expr) : (bound least : Nat) → Expr → Reader Expr
  | 0, _, left => return left
  | bound + 1, least, left => do
    match (← kind).binaryOp? with
    | some op =>
      if op.precedence < least then return left
      advance
      let right ← climb operand bound (op.precedence + 1) (← operand)
      climb operand bound least (.binary (left.span.merge right.span) op left right)
    | none => return left

/-- Operands joined by binary operators. -/
def operation (operand : Reader Expr) : Reader Expr := do
  let left ← operand
  climb operand (← remaining) 0 left

/-- An expression in which expressions nest to at most `depth`. -/
def expressionUpTo : (depth : Nat) → Reader Expr
  | 0 => expected "an expression"
  | depth + 1 => operation (operand (expressionUpTo depth))

/-- An expression. -/
def expression : Reader Expr := do
  expressionUpTo (← remaining)

end Reader

end Formulary
