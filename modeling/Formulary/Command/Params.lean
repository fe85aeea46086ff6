import Formulary.Decimal.Reader
import Formulary.Ordered.Indexed
import Formulary.Value.Sharing

/-!
# Parameters on the command line

Arguments of the form `name=value`. Integers, finite decimals, booleans and `nil` keep their type,
and everything else is a string.
-/

namespace Formulary.Command

/-- The value that an argument spells. -/
def readValue (text : String) : Value :=
  if text = "nil" then .nil
  else if text = "true" then .bool true
  else if text = "false" then .bool false
  else
    match Decimal.readInt text.toList with
    | some n => .int n
    | none =>
      match Decimal.readFloat text.toList with
      | some x => if x.isFinite then .float x else .str text
      | none => .str text

/-- Why an argument is no parameter. -/
inductive ParamError where
  | noValue (arg : String)
  | noName (arg : String)
deriving DecidableEq, Repr

/-- Wording of an error. -/
def ParamError.message : ParamError → String
  | noValue arg => s!"expected name=value, got '{arg}'"
  | noName arg => s!"missing parameter name in '{arg}'"

/-- One parameter; the first equals sign ends its name. -/
def readParam (arg : String) : Except ParamError (Value × Value) :=
  let cs := arg.toList
  let name := cs.takeWhile fun c ↦ c != '='
  match cs.drop name.length with
  | [] => .error (.noValue arg)
  | _ :: value =>
    if name.isEmpty then .error (.noName arg)
    else .ok (.str (String.ofList name), readValue (String.ofList value))

/-- Parameters in order; a later one replaces an earlier one of the same name. -/
def readParams (args : List String) : Except ParamError (List (Value × Value)) :=
  (args.mapM readParam).map Indexed.ofEntries

end Formulary.Command
