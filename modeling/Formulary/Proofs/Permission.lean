import Formulary.PolicedCall
import Formulary.Proofs.EvalLaws

/-!
# Permitted calls

What it means that a whitelist permits a method, and that a host class has a function, said without
the checks themselves. A call in code either runs what is permitted, or it fails before anything is
run and leaves the world as it was (`Setting.callMethod_cases`, `Setting.callFunction_cases`).
-/

namespace Formulary

/-! ### Rules -/

namespace Rule

/-- Arguments fit a rule: there are not too many, and each place has a fitting one, or fits `nil` if
it has none. -/
def Fits (rule : Rule) (args : List Value) : Prop :=
  args.length ≤ rule.args.length ∧
    ∀ (i : Nat) (spec : ArgSpec), rule.args[i]? = some spec → spec.accepts (args.getD i .nil) = true

theorem checkArgs_eq_ok_iff (method : String) (i : Nat) (specs : List ArgSpec) (args : List Value) :
    checkArgs method i specs args = .ok () ↔
      ∀ (j : Nat) (spec : ArgSpec), specs[j]? = some spec →
        spec.accepts (args.getD j .nil) = true := by
  induction specs generalizing i args with
  | nil => simp [checkArgs]
  | cons first specs ih =>
    have head : args.headD .nil = args.getD 0 .nil := by cases args <;> rfl
    have tail : ∀ j, args.tail.getD j .nil = args.getD (j + 1) .nil := by
      intro j
      cases args <;> simp
    rw [checkArgs]
    split
    · next fits =>
      rw [ih]
      constructor
      · intro h j spec hj
        cases j with
        | zero =>
          cases hj
          rw [← head]
          exact fits
        | succ j =>
          rw [← tail]
          exact h j spec hj
      · intro h j spec hj
        rw [tail]
        exact h (j + 1) spec hj
    · next misfit =>
      constructor
      · intro h
        cases h
      · intro h
        rw [head] at misfit
        exact absurd (h 0 first rfl) misfit

theorem check_eq_ok_iff (method : String) (rules : List Rule) (receiver : Value)
    (args : List Value) :
    check method rules receiver args = .ok () ↔
      ∃ rule, rules.find? (fun rule ↦ receiver.isA rule.receiver) = some rule ∧ rule.Fits args := by
  unfold check
  split
  · next none =>
    constructor
    · intro h
      cases h
    · rintro ⟨rule, some, -⟩
      rw [none] at some
      cases some
  · next rule first =>
    have only : (∃ r, rules.find? (fun rule ↦ receiver.isA rule.receiver) = some r ∧
        r.Fits args) ↔ rule.Fits args := by
      rw [first]
      simp
    rw [only, Fits]
    split
    · next many =>
      constructor
      · intro h
        cases h
      · rintro ⟨few, -⟩
        omega
    · next few =>
      rw [checkArgs_eq_ok_iff]
      exact ⟨fun h ↦ ⟨by omega, h⟩, fun h ↦ h.2⟩

end Rule

/-! ### Whitelists -/

namespace Whitelist

/-- A whitelist permits a method: rules stand under its name, and the first of them that covers the
receiver fits the arguments. -/
def Permits (w : Whitelist) (receiver : Value) (method : String) (args : List Value) : Prop :=
  ∃ rules rule, w.matcher? method = some (.rules rules) ∧
    rules.find? (fun rule ↦ receiver.isA rule.receiver) = some rule ∧ rule.Fits args

/-- One name leads to another by aliases. -/
inductive LeadsTo (w : Whitelist) : String → String → Prop where
  | here (name : String) : LeadsTo w name name
  | step {name next target : String} (h : w.matcher? name = some (.sameAs next))
      (rest : LeadsTo w next target) : LeadsTo w name target

private theorem leadsTo_of_resolveWithin {w : Whitelist} {lookups : Nat} {name target : String}
    {rules : List Rule} (h : w.resolveWithin lookups name = .ok (target, rules)) :
    w.LeadsTo name target ∧ w.matcher? target = some (.rules rules) := by
  induction lookups generalizing name with
  | zero => cases h
  | succ lookups ih =>
    rw [resolveWithin] at h
    split at h
    · cases h
    · next found =>
      cases h
      exact ⟨.here _, found⟩
    · next next found =>
      obtain ⟨leads, rules⟩ := ih h
      exact ⟨.step found leads, rules⟩

/-- A call gets through only if its name leads to a method that is permitted. -/
theorem permits_of_permit {w : Whitelist} {receiver : Value} {name target : String}
    {args : List Value} (h : w.permit receiver name args = .ok target) :
    w.LeadsTo name target ∧ w.Permits receiver target args := by
  unfold permit at h
  obtain ⟨⟨found, rules⟩, resolved, h⟩ := bind_eq_ok h
  obtain ⟨_, checked, h⟩ := bind_eq_ok h
  cases h
  obtain ⟨leads, rules⟩ := leadsTo_of_resolveWithin resolved
  obtain ⟨rule, first, fits⟩ := (Rule.check_eq_ok_iff _ _ _ _).mp checked
  exact ⟨leads, _, rule, rules, first, fits⟩

end Whitelist

/-! ### Calls -/

/-- A class tells of a function what it has under its name. -/
theorem HostClass.arity?_signature {σ : Type} (c : HostClass σ) (name : String) :
    c.signature.arity? name = (c.function? name).map HostFunction.arity := by
  unfold signature ClassSignature.arity? function?
  dsimp only
  induction c.functions with
  | nil => rfl
  | cons f functions ih =>
    rw [List.map_cons, List.lookup_cons, List.find?_cons, ih]
    by_cases same : name = f.name
    · simp [same]
    · have here : (name == f.name) = false := by simpa using same
      have there : (f.name == name) = false := by simpa using Ne.symm same
      rw [here, there]

namespace Setting

variable {σ : Type}

/-- A host class has a function that takes this number of arguments. -/
def HasFunction (s : Setting σ) (hostClass function : String) (args : List Value) : Prop :=
  ∃ c arity, s.host.class? hostClass = some c ∧ c.signature.arity? function = some arity ∧
    arity.accepts args.length = true

/-- Runs a function of a host class, whatever its arity. -/
def runFunction (s : Setting σ) (hostClass function : String) (args : List Value) :
    Eval σ Value :=
  match s.host.class? hostClass with
  | some c => Eval.ofHost (c.call function args)
  | none => Eval.fail (.badCall hostClass s!"no function {function}")

/-- A call of a function either runs a function that the class has, and with as many arguments as it
takes, or fails and does nothing. -/
theorem callFunction_cases (s : Setting σ) (hostClass function : String) (args : List Value) :
    s.HasFunction hostClass function args ∧
      s.callFunction hostClass function args = (do
        Eval.record (.function hostClass function args)
        s.runFunction hostClass function args) ∨
    ∃ f, s.callFunction hostClass function args = throw (.fault f) := by
  unfold callFunction
  cases hc : s.host.class? hostClass with
  | none => exact .inr ⟨_, rfl⟩
  | some c =>
    rw [Option.bind_some]
    cases hf : c.function? function with
    | none => exact .inr ⟨_, rfl⟩
    | some f =>
      dsimp only
      split
      · next accepts =>
        refine .inl ⟨⟨c, f.arity, hc, ?_, accepts⟩, ?_⟩
        · rw [c.arity?_signature, hf, Option.map_some]
        · simp only [runFunction, hc, HostClass.call, hf]
      · exact .inr ⟨_, rfl⟩

/-- A setting with other built-in methods. -/
def withMethods (s : Setting σ) (methods : BuiltIns) : Setting σ := { s with builtIns := methods }

/-- Whatever the built-in methods do, a call of a method either runs a method that the whitelist of
its home permits, under the name that its own name leads to, or is a call of a function, or fails
and does nothing. -/
theorem callMethod_withMethods_cases (s : Setting σ) (home : Nat) (receiver : Value) (name : String)
    (args : List Value) :
    (∃ target, (s.whitelistOf home).LeadsTo name target ∧
      (s.whitelistOf home).Permits receiver target args ∧
      ∀ methods, (s.withMethods methods).callMethod home receiver name args = (do
        Eval.record (.method home receiver target args)
        (s.withMethods methods).runMethod receiver target args)) ∨
    (∃ c, receiver = .hostClass c ∧ ∀ methods,
      (s.withMethods methods).callMethod home receiver name args = s.callFunction c name args) ∨
    ∃ f, ∀ methods,
      (s.withMethods methods).callMethod home receiver name args = throw (.fault f) := by
  by_cases onClass : ∃ c, receiver = .hostClass c
  · obtain ⟨c, rfl⟩ := onClass
    exact .inr (.inl ⟨c, rfl, fun _ ↦ rfl⟩)
  by_cases onNode : ∃ ref, receiver = .node ref
  · obtain ⟨ref, rfl⟩ := onNode
    exact .inr (.inr ⟨_, fun _ ↦ rfl⟩)
  have checked : ∀ methods, (s.withMethods methods).callMethod home receiver name args = (do
      let method ← Eval.ofExcept ((s.whitelistOf home).permit receiver name args)
      Eval.record (.method home receiver method args)
      (s.withMethods methods).runMethod receiver method args) := by
    intro methods
    cases receiver
    case hostClass c => exact absurd ⟨c, rfl⟩ onClass
    case node ref => exact absurd ⟨ref, rfl⟩ onNode
    all_goals rfl
  simp only [checked]
  cases permitted : (s.whitelistOf home).permit receiver name args with
  | error f => exact .inr (.inr ⟨f, fun _ ↦ rfl⟩)
  | ok target =>
    obtain ⟨leads, permits⟩ := Whitelist.permits_of_permit permitted
    exact .inl ⟨target, leads, permits, fun _ ↦ rfl⟩

/-- A call of a method either runs a method that the whitelist of its home permits, under the name
that its own name leads to, or is a call of a function, or fails and does nothing. -/
theorem callMethod_cases (s : Setting σ) (home : Nat) (receiver : Value) (name : String)
    (args : List Value) :
    (∃ target, (s.whitelistOf home).LeadsTo name target ∧
      (s.whitelistOf home).Permits receiver target args ∧
      s.callMethod home receiver name args = (do
        Eval.record (.method home receiver target args)
        s.runMethod receiver target args)) ∨
    (∃ c, receiver = .hostClass c ∧
      s.callMethod home receiver name args = s.callFunction c name args) ∨
    ∃ f, s.callMethod home receiver name args = throw (.fault f) := by
  rcases s.callMethod_withMethods_cases home receiver name args with
    ⟨target, leads, permits, same⟩ | ⟨c, onClass, same⟩ | ⟨f, same⟩
  · exact .inl ⟨target, leads, permits, same s.builtIns⟩
  · exact .inr (.inl ⟨c, onClass, same s.builtIns⟩)
  · exact .inr (.inr ⟨f, same s.builtIns⟩)

end Setting

end Formulary
