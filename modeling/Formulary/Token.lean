import Formulary.Decimal.Layout
import Formulary.Span
import Formulary.Text.Quoted

/-!
# Tokens

The tokens of a script. Newlines are tokens, since a declaration ends with its line, and every token
list ends with the end of the file.
-/

namespace Formulary

namespace Token

/-- What a token is. -/
inductive Kind where
  | int (value : Int64)
  | float (value : Binary64)
  | str (value : String)
  /-- A name that starts with a lower-case letter or an underscore. -/
  | ident (name : String)
  /-- A name that starts with an upper-case letter: a node, a module or a host class. -/
  | const (name : String)
  | underscore
  | kwImport | kwIf | kwThen | kwElse | kwFor | kwIn | kwNil | kwTrue | kwFalse | kwErr
  | lparen | rparen | lbracket | rbracket | lbrace | rbrace
  | comma | colon | doubleColon | dot | question | assign | doubleStar
  | star | slash | percent | plus | minus | bang
  | lt | le | gt | ge | eqEq | notEq | andAnd | orOr
  | newline
  | eof
deriving DecidableEq, Repr

namespace Kind

/-- The token as it may be written; line and file ends have stand-ins. -/
def text : Kind → String
  | int n => toString n.toInt
  | float x => Decimal.plainText x
  | str s => Text.quote s
  | ident name | const name => name
  | underscore => "_"
  | kwImport => "import"
  | kwIf => "if"
  | kwThen => "then"
  | kwElse => "else"
  | kwFor => "for"
  | kwIn => "in"
  | kwNil => "nil"
  | kwTrue => "true"
  | kwFalse => "false"
  | kwErr => "ERR"
  | lparen => "("
  | rparen => ")"
  | lbracket => "["
  | rbracket => "]"
  | lbrace => "\x7b"
  | rbrace => "\x7d"
  | comma => ","
  | colon => ":"
  | doubleColon => "::"
  | dot => "."
  | question => "?"
  | assign => "="
  | doubleStar => "**"
  | star => "*"
  | slash => "/"
  | percent => "%"
  | plus => "+"
  | minus => "-"
  | bang => "!"
  | lt => "<"
  | le => "<="
  | gt => ">"
  | ge => ">="
  | eqEq => "=="
  | notEq => "!="
  | andAnd => "&&"
  | orOr => "||"
  | newline => "\\n"
  | eof => "<eof>"

/-- The token as a message about it names it. -/
def describe : Kind → String
  | int n => s!"integer `{n.toInt}`"
  | float x => s!"float `{Decimal.plainText x}`"
  | str _ => "string literal"
  | newline => "end of line"
  | eof => "end of file"
  | k => s!"`{k.text}`"

end Kind

end Token

/-- A token and the part of the source it was read from. -/
structure Token where
  kind : Token.Kind
  span : Span
deriving DecidableEq, Repr

end Formulary
