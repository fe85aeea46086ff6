import Formulary.Fault
import Formulary.Ordered
import Formulary.Value.Text

/-!
# Method whitelists

A whitelist says which methods may be called, on which receivers and with which arguments. A method
is open only if a matcher stands under its name, and of that matcher's rules the first one that
covers the receiver decides.
-/

namespace Formulary

/-- The types that one positional argument may have. -/
structure ArgSpec where
  types : List String
  nilable : Bool := false
deriving DecidableEq, Repr

namespace ArgSpec

/-- Any value but `nil`. -/
def any : ArgSpec := ⟨["Object"], false⟩

/-- Also takes `nil`, so that the argument may be left out at the end. -/
def orNil (spec : ArgSpec) : ArgSpec := { spec with nilable := true }

/-- Whether an argument fits. -/
def accepts (spec : ArgSpec) (v : Value) : Bool :=
  if v.isNil then spec.nilable else spec.types.any v.isA

/-- Written as a list of types. -/
def text (spec : ArgSpec) : String :=
  "[" ++ String.intercalate ", " spec.types ++ (if spec.nilable then ", nil" else "") ++ "]"

end ArgSpec

/-- Permits calls on receivers of a type with these arguments. -/
structure Rule where
  receiver : String
  args : List ArgSpec := []
deriving DecidableEq, Repr

/-- What stands under a method's name. -/
inductive Matcher where
  /-- Rules, tried in order. -/
  | rules (rules : List Rule)
  /-- Another name for a method. -/
  | sameAs (target : String)
deriving DecidableEq, Repr

namespace Matcher

/-- The name that an alias leads to. -/
def target? : Matcher → Option String
  | rules _ => none
  | sameAs target => some target

/-- The rules of a matcher; an alias has none of its own. -/
def ownRules : Matcher → List Rule
  | rules rs => rs
  | sameAs _ => []

end Matcher

namespace Rule

/-- Checks arguments from position `i` on, missing ones being `nil`. -/
def checkArgs (method : String) : (i : Nat) → List ArgSpec → List Value → Except Fault Unit
  | _, [], _ => .ok ()
  | i, spec :: specs, args =>
    let arg := args.headD .nil
    if spec.accepts arg then checkArgs method (i + 1) specs args.tail
    else Fault.fail (.badArgument method
      s!"bad arg {i}, method {method}: {arg.text}/{arg.typeName} {spec.text}")

/-- Checks a call by the first rule that covers the receiver. -/
def check (method : String) (rules : List Rule) (receiver : Value) (args : List Value) :
    Except Fault Unit :=
  match rules.find? fun rule ↦ receiver.isA rule.receiver with
  | none => Fault.fail (.noSuchMethod method (some receiver.typeName))
  | some rule =>
    if rule.args.length < args.length then
      Fault.fail (.badArgument method s!"too many args to {method}")
    else checkArgs method 0 rule.args args

end Rule

/-- The matchers by method name, each name once. -/
structure Whitelist where
  matchers : List (String × Matcher) := []
deriving DecidableEq, Repr

namespace Whitelist

/-- Permits nothing. -/
def empty : Whitelist := {}

/-- Opens a method by rules, in place of what stood under the name. -/
def addMethod (w : Whitelist) (name : String) (rules : List Rule) : Whitelist :=
  ⟨Ordered.put name (.rules rules) w.matchers⟩

/-- Makes a name lead to another one, in place of what stood under it. -/
def addAlias (w : Whitelist) (name target : String) : Whitelist :=
  ⟨Ordered.put name (.sameAs target) w.matchers⟩

/-- What stands under a name. -/
def matcher? (w : Whitelist) (name : String) : Option Matcher := Ordered.get? name w.matchers

/-- Number of names. -/
def size (w : Whitelist) : Nat := w.matchers.length

/-- Follows aliases to the method that a name means, looking at no more than `lookups` names. -/
def resolveWithin (w : Whitelist) : (lookups : Nat) → String → Except Fault (String × List Rule)
  | 0, method => Fault.fail (.noSuchMethod method none)
  | lookups + 1, method =>
    match w.matcher? method with
    | none => Fault.fail (.noSuchMethod method none)
    | some (.rules rules) => .ok (method, rules)
    | some (.sameAs target) => w.resolveWithin lookups target

/-- How many names are looked at before a chain of aliases is taken for a loop. -/
def aliasLimit : Nat := 8

/-- The method that a name means, and its rules. -/
def resolve (w : Whitelist) (method : String) : Except Fault (String × List Rule) :=
  w.resolveWithin aliasLimit method

/-- The method that a permitted call runs, after aliases. -/
def permit (w : Whitelist) (receiver : Value) (method : String) (args : List Value) :
    Except Fault String := do
  let (method, rules) ← w.resolve method
  Rule.check method rules receiver args
  return method

end Whitelist

end Formulary
