import Formulary.Fault
import Formulary.Ordered
import Formulary.Value.Lookup
import Std.Data.HashMap

/-!
# Worlds

The state that evaluations share: environments, the host's state and, if one is kept, a log of what
was done. An environment holds the parameters that its creator gave and the attributes computed
under them.
-/

namespace Formulary

/-- One attribute of one node type: the numbers of module and node, and the slot. The numbers count
what is written in scripts; that they would outgrow a machine word is not considered. -/
structure MemoKey where
  module : Nat
  node : Nat
  slot : Nat
deriving DecidableEq, Hashable, Repr

/-- Parameters and the values computed under them. -/
structure Env where
  params : List (Value × Value)
  memo : Std.HashMap MemoKey Value := ∅

namespace Env

/-- The given value of a parameter. -/
def param? (e : Env) (name : String) : Option Value :=
  (e.params.find? fun entry ↦ Value.TextKey.fits ⟨name⟩ entry.1).map Prod.snd

theorem exists_of_param?_eq_some {e : Env} {name : String} {v : Value}
    (h : e.param? name = some v) : ∃ entry ∈ e.params, entry.2 = v := by
  obtain ⟨entry, found, rfl⟩ := Option.map_eq_some_iff.mp h
  exact ⟨entry, List.mem_of_find?_eq_some found, rfl⟩

/-- What is given for a parameter is found under the string with its name. -/
theorem param?_eq_get? (e : Env) (name : String) :
    e.param? name = Ordered.get? (.str name) e.params := by
  simp only [param?, Value.TextKey.fits_eq]
  rw [← Value.get?_map, Value.get?, Value.entryAt?_map]

/-- Whether a parameter's key can be seen by scripts: an integer, or a string that starts with a
lower-case letter and goes on with letters, digits and underscores, all of them ASCII. -/
def isVisibleKey : Value → Bool
  | .int _ => true
  | .str s =>
    match s.toList with
    | [] => false
    | c :: cs => c.isLower && cs.all fun c ↦ c.isAlphanum || c == '_'
  | _ => false

/-- The parameters that scripts can see. -/
def visibleParams (e : Env) : List (Value × Value) := e.params.filter fun p ↦ isVisibleKey p.1

/-- The computed value of an attribute. -/
def cached? (e : Env) (key : MemoKey) : Option Value := e.memo[key]?

/-- Keeps the computed value of an attribute. -/
def store (e : Env) (key : MemoKey) (v : Value) : Env := { e with memo := e.memo.insert key v }

end Env

/-- What an evaluation does, beyond computing. -/
inductive Event where
  /-- Starts to compute an attribute. -/
  | entered (env : Nat) (key : MemoKey) (frame : Fault.Frame)
  /-- Is done with computing an attribute, with or without success. -/
  | left (env : Nat) (key : MemoKey) (value : Option Value)
  /-- Runs a method for code that is written in the module `home`. -/
  | method (home : Nat) (receiver : Value) (name : String) (args : List Value)
  /-- Runs a function of a host class. -/
  | function (hostClass name : String) (args : List Value)

/-- Environments by number, and the host's state. -/
structure World (σ : Type) where
  envs : Array Env := #[]
  host : σ
  /-- What was done, latest first. A log keeps all values in it alive, so it is kept only for those
  who want to see it. -/
  log : Option (List Event) := none

/-- Evaluations: a value or a reason to stop, and the world after it in both cases. -/
abbrev Eval (σ : Type) := ExceptT Stop (StateM (World σ))

namespace Eval

variable {σ α : Type}

/-- Fails with a cause. -/
def fail (cause : Fault.Cause) : Eval σ α := throw (.fault ⟨cause, []⟩)

/-- A result that does not touch the world. -/
def ofExcept : Except Fault α → Eval σ α
  | .ok a => pure a
  | .error f => throw (.fault f)

/-- An outcome that does not touch the world. -/
def ofOutcome : Except Stop α → Eval σ α
  | .ok a => pure a
  | .error stop => throw stop

/-- Runs host code on the host's state. -/
def ofHost (m : ExceptT String (StateM σ) α) : Eval σ α := do
  let result ← modifyGet fun w ↦
    let (result, host) := m.run w.host
    (result, { w with host := host })
  match result with
  | .ok a => pure a
  | .error message => fail (.host message)

/-- Logs an event if a log is kept. -/
def record (event : Event) : Eval σ Unit :=
  modify fun w ↦ { w with log := w.log.map (event :: ·) }

/-- Makes an environment with these parameters. -/
def newEnv (params : List (Value × Value)) : Eval σ Nat :=
  modifyGet fun w ↦ (w.envs.size, { w with envs := w.envs.push { params } })

/-- The parameters of an environment that scripts can see. -/
def visibleParams (env : Nat) : Eval σ (List (Value × Value)) := do
  match (← get).envs[env]? with
  | some e => return e.visibleParams
  | none => return []

/-- The given value of a parameter. -/
def param? (env : Nat) (name : String) : Eval σ (Option Value) :=
  return (← get).envs[env]?.bind (·.param? name)

/-- The computed value of an attribute. -/
def cached? (env : Nat) (key : MemoKey) : Eval σ (Option Value) :=
  return (← get).envs[env]?.bind (·.cached? key)

/-- Keeps the computed value of an attribute. -/
def store (env : Nat) (key : MemoKey) (v : Value) : Eval σ Unit :=
  modify fun w ↦ { w with envs := w.envs.modify env (·.store key v) }

end Eval

end Formulary
