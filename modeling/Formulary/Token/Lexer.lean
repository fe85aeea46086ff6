import Formulary.Decimal.Reader
import Formulary.Token

/-!
# Reading tokens

A token is the longest lexeme that starts where the last one ended, and a reserved word goes before
a name. Spaces, tabs, carriage returns and comments separate tokens and are dropped. Reading stops
at the first place where no lexeme starts, or at an integer literal beyond 64 bits.
-/

namespace Formulary.Token

/-- Why a text is not a sequence of tokens. -/
inductive LexCause where
  /-- No lexeme starts here; the text is what could be taken before that was clear. -/
  | unexpected (text : String)
  /-- An integer literal out of range. -/
  | invalidLiteral (text : String)
deriving DecidableEq, Repr

/-- A place in the source where no token could be read. -/
structure LexError where
  span : Span
  cause : LexCause
deriving DecidableEq, Repr

/-- Wording of the cause. -/
def LexError.message (e : LexError) : String :=
  match e.cause with
  | .unexpected text => s!"unexpected character `{text}`"
  | .invalidLiteral text => s!"invalid literal `{text}`"

/-- Wording with the place. -/
def LexError.text (e : LexError) : String := s!"{e.message} at {e.span.text}"

/-- Words with a meaning of their own. -/
def keywords : List (String × Kind) :=
  [("import", .kwImport), ("if", .kwIf), ("then", .kwThen), ("else", .kwElse), ("for", .kwFor),
    ("in", .kwIn), ("nil", .kwNil), ("true", .kwTrue), ("false", .kwFalse), ("and", .andAnd),
    ("or", .orOr), ("ERR", .kwErr), ("_", .underscore)]

/-- Punctuation and operators, the longer spellings first. -/
def symbols : List (List Char × Kind) :=
  [([':', ':'], .doubleColon), (['*', '*'], .doubleStar), (['<', '='], .le), (['>', '='], .ge),
    (['=', '='], .eqEq), (['!', '='], .notEq), (['&', '&'], .andAnd), (['|', '|'], .orOr),
    (['('], .lparen), ([')'], .rparen), (['['], .lbracket), ([']'], .rbracket),
    (['\x7b'], .lbrace), (['\x7d'], .rbrace), ([','], .comma), ([':'], .colon), (['.'], .dot),
    (['?'], .question), (['='], .assign), (['*'], .star), (['/'], .slash), (['%'], .percent),
    (['+'], .plus), (['-'], .minus), (['!'], .bang), (['<'], .lt), (['>'], .gt),
    (['\n'], .newline)]

/-- Characters that separate tokens within a line. -/
def isSeparator (c : Char) : Bool := c = ' ' || c = '\t' || c = '\r'

/-- Characters of a word after its first one: ASCII letters, digits and the underscore. -/
def isWordChar (c : Char) : Bool := c.isAlphanum || c = '_'

/-- What the next lexeme is. -/
inductive Class where
  /-- Separators or a comment. -/
  | skipped
  | token (kind : Kind)
  | unexpected
  | invalidLiteral
deriving DecidableEq, Repr

/-- The next lexeme of an input: its class, its characters and what follows. -/
structure Lexeme where
  type : Class
  chars : List Char
  rest : List Char
deriving DecidableEq, Repr

/-- A reserved word, or the name that the characters spell. -/
def wordKind (chars : List Char) : Kind :=
  let name := String.ofList chars
  match keywords.lookup name with
  | some kind => kind
  | none => if (chars.headD '_').isUpper then .const name else .ident name

/-- The longest word at the start of the input. -/
def scanWord (cs : List Char) : Lexeme :=
  let chars := cs.takeWhile isWordChar
  ⟨.token (wordKind chars), chars, cs.dropWhile isWordChar⟩

/-- Splits off an exponent: a letter, an optional sign and at least one digit. -/
def scanExponent : List Char → List Char × List Char
  | c :: cs =>
    if c = 'e' || c = 'E' then
      let (sign, digits) := match cs with
        | d :: ds => if d = '+' || d = '-' then ([d], ds) else ([], cs)
        | [] => ([], [])
      let (taken, rest) := Decimal.readDigits digits
      if taken.isEmpty then ([], c :: cs) else (c :: sign ++ taken, rest)
    else ([], c :: cs)
  | [] => ([], [])

/-- The value of a floating-point literal. -/
def floatKind (chars : List Char) : Class :=
  match Decimal.readFloat chars with
  | some x => .token (.float x)
  | none => .invalidLiteral

/-- The value of an integer literal. -/
def intKind (chars : List Char) : Class :=
  match Decimal.readInt chars with
  | some n => .token (.int n)
  | none => .invalidLiteral

/-- The longest number at the start of the input. A point belongs to it only if a digit follows. -/
def scanNumber (cs : List Char) : Lexeme :=
  let (whole, rest) := Decimal.readDigits cs
  let (fraction, afterPoint) := match rest with
    | '.' :: rest => Decimal.readDigits rest
    | rest => ([], rest)
  if fraction.isEmpty then ⟨intKind whole, whole, rest⟩
  else
    let (exponent, rest) := scanExponent afterPoint
    let chars := whole ++ '.' :: fraction ++ exponent
    ⟨floatKind chars, chars, rest⟩

/-- The body of a quoted text, up to its closing quote or to where it breaks off, and what follows.
A backslash takes the next character with it, unless that is a newline. -/
def scanBody (quote : Char) : List Char → List Char × List Char
  | [] => ([], [])
  | '\\' :: c :: cs =>
    if c = '\n' then ([], '\\' :: c :: cs)
    else
      let (body, rest) := scanBody quote cs
      ('\\' :: c :: body, rest)
  | ['\\'] => ([], ['\\'])
  | c :: cs =>
    if c = quote || c = '\n' || c = '\r' then ([], c :: cs)
    else
      let (body, rest) := scanBody quote cs
      (c :: body, rest)

/-- The character that an escape stands for; others stand for themselves. -/
def unescapeChar : Char → Char
  | 'n' => '\n'
  | 't' => '\t'
  | 'r' => '\r'
  | '0' => '\x00'
  | c => c

/-- Resolves the escapes of a quoted text. -/
def unescape : List Char → List Char
  | [] => []
  | '\\' :: c :: cs => unescapeChar c :: unescape cs
  | c :: cs => c :: unescape cs

/-- A quoted text. One that breaks off is no lexeme. -/
def scanQuoted (quote : Char) (cs : List Char) : Lexeme :=
  let (body, rest) := scanBody quote cs
  match rest with
  | c :: rest' =>
    if c = quote then
      ⟨.token (.str (String.ofList (unescape body))), quote :: body ++ [quote], rest'⟩
    else ⟨.unexpected, quote :: body, rest⟩
  | [] => ⟨.unexpected, quote :: body, []⟩

/-- Punctuation or an operator, the longest that fits. -/
def scanSymbol (c : Char) (cs : List Char) : Lexeme :=
  match symbols.find? fun (spelling, _) ↦ spelling.isPrefixOf (c :: cs) with
  | some (spelling, kind) => ⟨.token kind, spelling, (c :: cs).drop spelling.length⟩
  | none => ⟨.unexpected, [c], cs⟩

/-- The lexeme at the start of the input `c :: cs`. -/
def scan (c : Char) (cs : List Char) : Lexeme :=
  if isSeparator c then
    ⟨.skipped, c :: cs.takeWhile isSeparator, cs.dropWhile isSeparator⟩
  else if c = '#' then ⟨.skipped, c :: cs.takeWhile (· ≠ '\n'), cs.dropWhile (· ≠ '\n')⟩
  else if c.isDigit then scanNumber (c :: cs)
  else if c.isAlpha || c = '_' then scanWord (c :: cs)
  else if c = '"' || c = '\'' then scanQuoted c cs
  else scanSymbol c cs

/-- Number of bytes that characters take up in the source. -/
def byteLength (cs : List Char) : Nat := cs.foldl (fun n c ↦ n + c.utf8Size) 0

/-- The tokens of the input, which starts at byte `offset`, in at most `fuel` lexemes. -/
def tokensFrom : (fuel : Nat) → (offset : Nat) → List Char → Except LexError (List Token)
  | 0, offset, _ => .ok [⟨.eof, offset, offset⟩]
  | _ + 1, offset, [] => .ok [⟨.eof, offset, offset⟩]
  | fuel + 1, offset, c :: cs =>
    let lexeme := scan c cs
    let stop := offset + byteLength lexeme.chars
    let span : Span := ⟨offset, stop⟩
    match lexeme.type with
    | .skipped => tokensFrom fuel stop lexeme.rest
    | .token kind => (tokensFrom fuel stop lexeme.rest).map (⟨kind, span⟩ :: ·)
    | .unexpected => .error ⟨span, .unexpected (String.ofList lexeme.chars)⟩
    | .invalidLiteral => .error ⟨span, .invalidLiteral (String.ofList lexeme.chars)⟩

/-- The tokens of a script. A lexeme takes at least one character, so the length of the source
bounds their number. -/
def tokens (source : String) : Except LexError (List Token) :=
  let cs := source.toList
  tokensFrom cs.length 0 cs

end Formulary.Token
