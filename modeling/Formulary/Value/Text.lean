import Formulary.Decimal.Layout
import Formulary.Text.Quoted
import Formulary.Value

/-!
# Text of values

A value is shown like a literal: strings quoted and symbols with a colon. Its plain text differs
only for strings and symbols themselves, which stand as they are.
-/

namespace Formulary.Value

mutual

/-- The text of a value, with quotes and colons or without; inside collections always with. -/
def render (shown : Bool) : Value → String
  | nil => "nil"
  | bool b => if b then "true" else "false"
  | int n => toString n.toInt
  | float x => Decimal.markedText x
  | str s => if shown then Text.quote s else s
  | symbol s => if shown then ":" ++ s else s
  | list items => "[" ++ String.intercalate ", " (renderItems items) ++ "]"
  | set items => "#\x7b" ++ String.intercalate ", " (renderItems items) ++ "\x7d"
  | map entries => "\x7b" ++ String.intercalate ", " (renderEntries true entries) ++ "\x7d"
  | record type fields => "#<" ++ type ++ String.join (renderFields fields) ++ ">"
  | call _ ref params =>
    ref.name ++ "(" ++ String.intercalate ", " (renderEntries false params) ++ ")"
  | node ref => ref.name
  | hostClass name => name
  | foreign _ types => "#<" ++ types.headD "Object" ++ ">"

/-- The items, shown. -/
def renderItems : List Value → List String
  | [] => []
  | v :: vs => render true v :: renderItems vs

/-- The entries as `key: value`, the values shown and the keys shown or plain. -/
def renderEntries (shown : Bool) : List (Value × Value) → List String
  | [] => []
  | (k, v) :: es => (render shown k ++ ": " ++ render true v) :: renderEntries shown es

/-- The fields as ` name=value`. -/
def renderFields : List (String × Value) → List String
  | [] => []
  | (f, v) :: fs => (" " ++ f ++ "=" ++ render true v) :: renderFields fs

end

/-- Plain text of a value. -/
def text (v : Value) : String := render false v

/-- A value shown like a literal. -/
def inspect (v : Value) : String := render true v

end Formulary.Value
