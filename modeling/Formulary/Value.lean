import Formulary.Binary64
import Formulary.Index

/-!
# Values

The values that formulas compute with. Collections are lists in insertion order; the operations on
them keep elements and keys distinct. Node calls, nodes and foreign objects stand for things with an
identity of their own, which here is a number.

Every value carries its hash code and, if it is a collection or a text, an index of its parts. Both
follow from the content; they are kept so that they need not be computed again.
-/

namespace Formulary

/-- A node type of a compiled module, found by the module's number and the node's place in it. The
names are what the two are called. -/
structure NodeRef where
  module : Nat
  index : Nat
  moduleName : String
  name : String
deriving DecidableEq, Repr

/-- Whether two references are to the same node type. -/
def NodeRef.same (a b : NodeRef) : Bool := a.module == b.module && a.index == b.index

/-- Runtime values. -/
inductive Value where
  | nil
  | bool (b : Bool)
  | int (n : Int64)
  | float (x : Binary64)
  | str (s : String)
  /-- A key interned by the host, distinct from the string with the same text. -/
  | symbol (s : String)
  | list (items : List Value)
  | set (items : List Value)
  | map (entries : List (Value × Value))
  /-- Structured host data with named fields. -/
  | record (type : String) (fields : List (String × Value))
  /-- A deferred evaluation of a node with parameters, in an environment of its own. -/
  | call (env : Nat) (node : NodeRef) (params : List (Value × Value))
  | node (ref : NodeRef)
  | hostClass (name : String)
  /-- An opaque host object: its handle and its types, from the most to the least specific. -/
  | foreign (handle : Nat) (types : List String)
with
  /-- The hash code of a value: a number for its kind, mixed with the code of its content. The
  equality of sets and maps ignores order, so only their sizes count, and of a record only its
  type. -/
  @[computed_field] hashCode : Value → UInt64
  | .nil => 0
  | .bool b => mixHash 1 (hash b)
  | .int n => mixHash 2 n.toUInt64
  | .str s => mixHash 3 (hash s)
  | .float x => mixHash 4 x.bits
  | .symbol s => mixHash 5 (hash s)
  | .list items => items.attach.foldl (fun code ⟨v, _⟩ ↦ mixHash code (hashCode v)) 6
  | .set items => mixHash 7 items.length.toUInt64
  | .map entries => mixHash 8 entries.length.toUInt64
  | .call env _ _ => mixHash 9 env.toUInt64
  | .node ref => mixHash 10 (mixHash ref.module.toUInt64 ref.index.toUInt64)
  | .hostClass name => mixHash 11 (hash name)
  | .record type _ => mixHash 12 (hash type)
  | .foreign handle _ => mixHash 13 handle.toUInt64
  /-- The index of a collection's parts, or of a text's characters. -/
  @[computed_field] index : Value → Index Value
  | .str s => .ofText s
  | .list items => .ofItems items
  | .set items => .ofMembers hashCode items
  | .map entries => .ofEntries hashCode entries
  | .record _ fields => .ofFields fields
  | _ => .none
deriving Inhabited

namespace Value

/-- Everything but `nil` and `false` counts as true. -/
def truthy : Value → Bool
  | nil | bool false => false
  | _ => true

/-- Whether a value is `nil`. -/
def isNil : Value → Bool
  | nil => true
  | _ => false

/-- The text of a string. -/
def asStr? : Value → Option String
  | str s => some s
  | _ => none

/-- The value of an integer. -/
def asInt? : Value → Option Int64
  | int n => some n
  | _ => none

/-- A number as a floating-point number. -/
def asFloat? : Value → Option Binary64
  | int n => some (.ofInt n)
  | float x => some x
  | _ => none

/-- The most specific type name. -/
def typeName : Value → String
  | nil => "Nil"
  | bool _ => "Boolean"
  | int _ => "Integer"
  | float _ => "Float"
  | str _ => "String"
  | symbol _ => "Symbol"
  | list _ => "List"
  | set _ => "Set"
  | map _ => "Map"
  | record type _ => type
  | call _ _ _ => "NodeCall"
  | node _ => "Node"
  | hostClass _ => "Class"
  | foreign _ types => types.headD "Object"

/-- The wider types of a value, besides `Object`, which every value has. -/
def widerTypes : Value → List String
  | int _ | float _ => ["Numeric"]
  | record _ _ => ["Record"]
  | foreign _ types => types
  | _ => []

/-- Whether a value is of the named type. -/
def isA (v : Value) (type : String) : Bool :=
  type == "Object" || type == v.typeName || v.widerTypes.contains type

end Value

end Formulary
