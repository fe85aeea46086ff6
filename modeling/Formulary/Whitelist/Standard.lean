import Formulary.Method
import Formulary.Whitelist

/-!
# The standard whitelist

Opens every built-in method on the types that have it, and two further names.
-/

namespace Formulary.Whitelist

private def text : ArgSpec := ⟨["String"], false⟩

private def integer : ArgSpec := ⟨["Integer"], false⟩

private def anything : ArgSpec := ArgSpec.any.orNil

/-- The same arguments on each of several types. -/
private def on (receivers : List String) (args : List ArgSpec) : List Rule :=
  receivers.map fun receiver ↦ ⟨receiver, args⟩

/-- The receivers and arguments that a built-in method is open for. -/
def standardRules : Method → List Rule
  | .length | .isEmpty => on ["String", "List", "Set", "Map"] []
  | .toS => on ["Object"] []
  | .toI | .toF => on ["Numeric", "String", "Nil"] []
  | .round => on ["Numeric"] [integer.orNil]
  | .floor | .ceil | .abs => on ["Numeric"] []
  | .upcase | .downcase | .strip => on ["String"] []
  | .split => on ["String"] [text.orNil]
  | .startsWith | .endsWith => on ["String"] [text]
  | .reverse => on ["String", "List"] []
  | .contains => on ["String"] [text] ++ on ["List", "Set", "Map"] [anything]
  | .keys | .values => on ["Map"] []
  | .merge => on ["Map"] [⟨["Map"], false⟩]
  | .fetch => on ["Map"] [.any, anything] ++ on ["List"] [integer, anything]
  | .compact => on ["List", "Map"] []
  | .first | .last | .sort | .uniq | .flatten => on ["List"] []
  | .join => on ["List"] [text.orNil]
  | .sum | .min | .max => on ["List", "Set"] []
  | .toA => on ["List", "Set", "Map"] []

/-- Every built-in method under its name, with `size` for `length` and `include` for
`contains`. -/
def standard : Whitelist :=
  let methods := Method.all.foldl (fun w m ↦ w.addMethod m.name (standardRules m)) empty
  (methods.addAlias "size" "length").addAlias "include" "contains"

end Formulary.Whitelist
