import Formulary.Host
import Formulary.Ordered.Indexed
import Formulary.Value.Text

/-!
# Sample hosts

A small host for demonstrations: a call counter, statistics over integers, makers of the values that
scripts have no literals for, and two kinds of object.
-/

namespace Formulary.Samples

/-- The objects of the sample host. -/
inductive Object where
  /-- A month of a year. -/
  | date (year month : Int64)
  /-- Answers every method with a text. -/
  | sealed (label : String)
deriving DecidableEq, Repr

/-- The types of an object, from the most to the least specific. -/
def Object.types : Object → List String
  | date _ _ => ["Date", "Comparable"]
  | sealed _ => []

/-- The number of counted calls, and the objects by their handles. -/
structure State where
  counter : Nat := 0
  objects : Array Object := #[]
deriving Repr

/-- Makes an object with a handle of its own. -/
def State.create (s : State) (object : Object) : Value × State :=
  (.foreign s.objects.size object.types, { s with objects := s.objects.push object })

/-- Makes an object from within host code. -/
def create (object : Object) : HostM State Value := modifyGet (·.create object)

/-- Counts a call. -/
def count : HostM State Unit := modify fun s ↦ { s with counter := s.counter + 1 }

/-- Counts its calls. -/
def counter : HostClass State where
  name := "Counter"
  functions :=
    [{ name := "bump", arity := .exactly 0, run := fun _ ↦ do
        count
        return .int (Int64.ofNat (← get).counter) },
      { name := "add", arity := .between 1 2, run := fun args ↦ do
        count
        match args with
        | [.int a] => return .int a
        | [.int a, .int b] => return .int (a + b)
        | _ => throw "bad call to Counter.add" }]

/-- The largest of some integers. -/
def largest : List Value → Except String Int64
  | [] => throw "not a number: nil"
  | [.int n] => return n
  | .int n :: rest => return max n (← largest rest)
  | v :: _ => throw s!"not a number: {v.inspect}"

/-- Statistics over integers. -/
def stats : HostClass State where
  name := "Stats"
  functions :=
    [{ name := "max", arity := .atLeast 1, run := fun args ↦ do
        return .int (← (liftExcept (largest args))) }]
where
  /-- A result that needs no state. -/
  liftExcept {α : Type} (r : Except String α) : HostM State α := ExceptT.mk (pure r)

/-- Makes values. -/
def make : HostClass State where
  name := "Make"
  functions :=
    [{ name := "date", arity := .exactly 2, run := fun args ↦
        match args with
        | [.int year, .int month] => create (.date year month)
        | _ => throw "date expects integers" },
      { name := "echo", arity := .exactly 1, run := fun args ↦ return args.headD .nil },
      { name := "fail", arity := .atLeast 0, run := fun args ↦
        throw (String.intercalate "|" (args.map Value.text)) },
      { name := "rec", arity := .exactly 2, run := fun args ↦
        match args with
        | [.str type, .map entries] =>
          return .record type (Indexed.ofEntries (entries.map fun (k, v) ↦ (k.text, v)))
        | _ => throw "rec expects a name and a map" },
      { name := "sym", arity := .exactly 1, run := fun args ↦
        match args with
        | [.str s] => return .symbol s
        | _ => throw "sym expects a string" }]

/-- The date some months later. -/
def addMonths (year month n : Int64) : Object :=
  let t : Int := (year * 12 + (month - 1) + n).toInt
  .date (Int64.ofInt (t.fdiv 12)) (Int64.ofInt (t.fmod 12 + 1))

/-- Methods of objects. -/
def invoke (handle : Nat) (method : String) (args : List Value) : HostM State Value := do
  match (← get).objects[handle]?, method, args with
  | some (.sealed label), _, _ => return .str s!"{label}#{method}/{args.length}"
  | some (.date year _), "year", [] => return .int year
  | some (.date _ month), "month", [] => return .int month
  | some (.date year month), "add_months", [.int n] => create (addMonths year month n)
  | _, _, _ => throw s!"Date#{method} failed"

/-- Every sample class. -/
def classes : List (HostClass State) := [counter, stats, make]

/-- The sample host. -/
def host : Host State := ⟨classes, invoke⟩

end Formulary.Samples
