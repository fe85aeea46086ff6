import Formulary.Text.Quoted
import Formulary.Value

/-!
# Hosts

A host lends scripts its classes, whose functions are called by name, and its objects, whose
methods are called through a whitelist. Host code has a state of its own, and it fails with a
message.
-/

namespace Formulary

/-- How many arguments a function takes; with no upper bound, any number from `min` on. -/
structure Arity where
  min : Nat
  max : Option Nat
deriving DecidableEq, Repr

namespace Arity

/-- Just `n` arguments. -/
def exactly (n : Nat) : Arity := ⟨n, some n⟩

/-- From `min` to `max` arguments. -/
def between (min max : Nat) : Arity := ⟨min, some max⟩

/-- At least `min` arguments. -/
def atLeast (min : Nat) : Arity := ⟨min, none⟩

/-- Whether a number of arguments will do. -/
def accepts (a : Arity) (n : Nat) : Bool :=
  a.min ≤ n &&
    match a.max with
    | some max => n ≤ max
    | none => true

/-- Written `2`, `1..2` or `1+`. -/
def text (a : Arity) : String :=
  match a.max with
  | some max => if max = a.min then s!"{max}" else s!"{a.min}..{max}"
  | none => s!"{a.min}+"

end Arity

/-- Host code: a value or a message, with a state that outlives failures. -/
abbrev HostM (σ : Type) := ExceptT String (StateM σ)

/-- A function of a host class. -/
structure HostFunction (σ : Type) where
  name : String
  arity : Arity
  run : List Value → HostM σ Value

/-- A named group of functions. -/
structure HostClass (σ : Type) where
  name : String
  functions : List (HostFunction σ)

/-- What scripts can know of a class before they run: its functions and their arities. -/
structure ClassSignature where
  name : String
  functions : List (String × Arity)
deriving DecidableEq, Repr

namespace HostClass

variable {σ : Type}

/-- The function with a given name. -/
def function? (c : HostClass σ) (name : String) : Option (HostFunction σ) :=
  c.functions.find? fun f ↦ f.name == name

/-- The names and arities of the functions. -/
def signature (c : HostClass σ) : ClassSignature :=
  ⟨c.name, c.functions.map fun f ↦ (f.name, f.arity)⟩

/-- Calls a function whatever its arity. -/
def call (c : HostClass σ) (function : String) (args : List Value) : HostM σ Value :=
  match c.function? function with
  | some f => f.run args
  | none => throw s!"{c.name} has no function {function}"

/-- A text for developers: the name of the class, and those of its functions in ascending order. -/
def debug (c : HostClass σ) : String :=
  let names := (c.functions.map HostFunction.name).mergeSort fun a b ↦ decide (a ≤ b)
  "FnClass \x7b name: " ++ Text.quote c.name ++ ", functions: [" ++
    String.intercalate ", " (names.map Text.quote) ++ "] \x7d"

end HostClass

/-- The arity of a function, if the class has it. -/
def ClassSignature.arity? (c : ClassSignature) (function : String) : Option Arity :=
  c.functions.lookup function

/-- A host with states of type `σ`. Its code may keep the node calls that it is given and give them
back, but it has no engine to read their attributes with while it runs. -/
structure Host (σ : Type) where
  classes : List (HostClass σ)
  /-- Runs a method of the object with a given handle. -/
  invoke : (handle : Nat) → (method : String) → (args : List Value) → HostM σ Value

/-- The class with a given name. -/
def Host.class? {σ : Type} (h : Host σ) (name : String) : Option (HostClass σ) :=
  h.classes.find? fun c ↦ c.name == name

/-- The host that lends nothing. -/
def Host.bare : Host Unit := ⟨[], fun _ method _ ↦ throw s!"no object has {method}"⟩

end Formulary
