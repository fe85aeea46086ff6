import Formulary.Proofs.Aliases
import Formulary.Proofs.Fresh
import Formulary.Whitelist.Standard

/-!
# The methods of the standard whitelist

The standard whitelist speaks of types by their names, and goes by the first rule that covers the
receiver; the methods themselves go by what the receiver is. The two agree: a rule covers a value
just where the value has the method (`Method.any_standardRules`), and so a call that the whitelist
permits never finds that there is no such method (`Setting.standard_covers`).
-/

namespace Formulary

/-! ### Names of methods -/

namespace Method

theorem ofName?_name (m : Method) : ofName? m.name = some m := by
  cases m <;> exact rfl

theorem name_of_ofName? {name : String} {m : Method} (h : ofName? name = some m) :
    m.name = name := by
  simpa using List.find?_some h

end Method

namespace Whitelist

/-- What is said when the standard whitelist is built. -/
def standardRegistrations : List Registration :=
  Method.all.map (fun m ↦ .method m.name (standardRules m)) ++
    [.synonym "size" "length", .synonym "include" "contains"]

theorem standard_eq_ofRegistrations : standard = ofRegistrations standardRegistrations := by
  simp [standard, ofRegistrations, standardRegistrations, List.foldl_map, register]

theorem matcher?_standard (m : Method) :
    standard.matcher? m.name = some (.rules (standardRules m)) := by
  rw [standard_eq_ofRegistrations, matcher?_ofRegistrations]
  cases m <;> exact rfl

/-- Rules stand under the names of methods only. -/
theorem exists_method_of_matcher?_standard {name : String} {rules : List Rule}
    (h : standard.matcher? name = some (.rules rules)) :
    ∃ m : Method, m.name = name ∧ standardRules m = rules := by
  rw [standard_eq_ofRegistrations, matcher?_ofRegistrations] at h
  obtain ⟨r, last, found⟩ := Option.map_eq_some_iff.mp h
  have registered : r ∈ standardRegistrations :=
    List.mem_reverse.mp (List.mem_of_find?_eq_some last)
  rw [standardRegistrations, List.mem_append, List.mem_map] at registered
  rcases registered with ⟨m, -, rfl⟩ | synonym
  · exact ⟨m, Registration.name_of_last? last, Matcher.rules.inj found⟩
  · simp only [List.mem_cons, List.not_mem_nil, or_false] at synonym
    rcases synonym with rfl | rfl <;> cases found

end Whitelist

/-! ### Types that have a method -/

/-- Values of types that are built in: all but records, foreign objects, host classes and nodes. -/
def Value.IsBuiltIn : Value → Prop
  | record _ _ | foreign _ _ | hostClass _ | node _ => False
  | _ => True

theorem Value.IsBuiltIn.takesMethods {v : Value} (h : v.IsBuiltIn) : v.TakesMethods := by
  cases v with
  | hostClass _ | node _ => exact h
  | _ => trivial

namespace Method

theorem isSome_testText (arg : Value) (holds : String → Bool) :
    (testText arg holds).isSome = true := by
  unfold testText
  split <;> rfl

theorem isSome_onFloat_round (x : Binary64) (args : List Value) :
    (onFloat x args round).isSome = true := by
  unfold onFloat
  dsimp only
  split <;> rfl

theorem isSome_onMap_merge (receiver : Value) (entries : List (Value × Value))
    (args : List Value) : (onMap receiver entries args merge).isSome = true := by
  unfold onMap
  dsimp only
  split <;> rfl

/-- Whether a value has a method; every value has a text. -/
def isOn (m : Method) (v : Value) (args : List Value) : Bool :=
  m = toS || (m.onReceiver v args).isSome

/-- The rules of a method cover the values that have it. -/
theorem any_standardRules {v : Value} (builtIn : v.IsBuiltIn) (m : Method) (args : List Value) :
    ((Whitelist.standardRules m).any fun rule ↦ v.isA rule.receiver) = m.isOn v args := by
  cases v with
  | record _ _ | foreign _ _ | hostClass _ | node _ => exact builtIn.elim
  | float x =>
    cases m with
    | round => exact (isSome_onFloat_round x args).symm
    | _ => exact rfl
  | str s =>
    cases m with
    | startsWith | endsWith | contains => exact (isSome_testText _ _).symm
    | _ => exact rfl
  | map entries =>
    cases m with
    | merge => exact (isSome_onMap_merge (.map entries) entries args).symm
    | _ => exact rfl
  | _ => cases m <;> exact rfl

theorem operational_call {m : Method} {v : Value} {args : List Value} (has : m.isOn v args = true) :
    StopsOnly Fault.Operational (m.call v args) := by
  unfold call
  split
  · intro f h
    cases h
  · next other =>
    rw [isOn, decide_eq_false other, Bool.false_or, Option.isSome_iff_exists] at has
    obtain ⟨result, found⟩ := has
    rw [found]
    exact operationalResult_onReceiver m v args result found

/-- A value without a method says that it has no such method. -/
theorem call_eq_fail {m : Method} {v : Value} {args : List Value} (lacks : m.isOn v args = false) :
    m.call v args = Stop.fail (.noSuchMethod m.name (some v.typeName)) := by
  rw [isOn, Bool.or_eq_false_iff, decide_eq_false_iff_not, Option.isSome_eq_false_iff,
    Option.isNone_iff_eq_none] at lacks
  rw [call, if_neg lacks.1, lacks.2]

end Method

theorem Value.send_name (v : Value) (m : Method) (args : List Value) :
    v.send m.name args = m.call v args := by
  rw [send, Method.ofName?_name]

/-! ### Calls -/

namespace Whitelist

variable {v : Value} {args : List Value}

/-- What the standard whitelist permits on a value of a built-in type, the value has. -/
theorem operational_of_permits {name : String} (builtIn : v.IsBuiltIn)
    (h : standard.Permits v name args) : StopsOnly Fault.Operational (v.send name args) := by
  obtain ⟨rules, rule, found, first, -⟩ := h
  obtain ⟨m, rfl, rfl⟩ := exists_method_of_matcher?_standard found
  rw [v.send_name]
  apply Method.operational_call
  rw [← Method.any_standardRules builtIn]
  have covers := List.find?_some first
  exact List.any_eq_true.mpr ⟨rule, List.mem_of_find?_eq_some first, covers⟩

/-- A method that a value of a built-in type has stands in the standard whitelist, under its own
name and with a rule for the value. -/
theorem exists_rule_of_send {name : String} (builtIn : v.IsBuiltIn)
    (has : ∀ method type, v.send name args ≠ Stop.fail (.noSuchMethod method type)) :
    ∃ rules, standard.matcher? name = some (.rules rules) ∧
      ∃ rule ∈ rules, v.isA rule.receiver = true := by
  cases known : Method.ofName? name with
  | none =>
    refine absurd ?_ (has name (some v.typeName))
    rw [Value.send, known]
  | some m =>
    obtain rfl := Method.name_of_ofName? known
    refine ⟨_, matcher?_standard m, List.any_eq_true.mp ?_⟩
    rw [Method.any_standardRules builtIn m args]
    by_contra lacks
    refine has m.name (some v.typeName) ?_
    rw [v.send_name, Method.call_eq_fail (Bool.eq_false_iff.mpr lacks)]

end Whitelist

namespace Setting

variable {σ : Type}

/-- A permitted call on a value of a built-in type logs the call and sends the method. -/
theorem run_callMethod_of_permit {s : Setting σ} {home : Nat} {v : Value} (builtIn : v.IsBuiltIn)
    {name target : String} {args : List Value}
    (permitted : (s.whitelistOf home).permit v name args = .ok target) (w : World σ) :
    (s.callMethod home v name args).run.run w =
      (s.builtIns v target args, w.logged (.method home v target args)) := by
  have sent : s.runMethod v target args = Eval.ofOutcome (s.builtIns v target args) := by
    cases v with
    | foreign _ _ => exact builtIn.elim
    | _ => rfl
  rw [callMethod_of_takesMethods builtIn.takesMethods, permitted, Eval.ofExcept_ok, pure_bind,
    run_bind, Eval.run_record, sent]
  exact Eval.run_ofOutcome _ _

/-- The standard whitelist and the built-in methods cover each other.

Let code that is held to the standard whitelist call a method on a value of a built-in type, by its
name or by another name for it. A call that the whitelist permits does not end with the complaint
that there is no such method, in whatever world it runs. And a method that the value has, so that it
does anything but complain of this, stands in the whitelist under its own name, with a rule whose
type the value is of. -/
theorem standard_covers (s : Setting σ) (methods : s.builtIns = Value.send) (home : Nat)
    (held : s.whitelistOf home = .standard) (v : Value) (builtIn : v.IsBuiltIn) (name : String)
    (args : List Value) :
    (∀ target, Whitelist.standard.permit v name args = .ok target →
      ∀ w f w', (s.callMethod home v name args).run.run w = (.error (.fault f), w') →
        ∀ method type, f.cause ≠ .noSuchMethod method type) ∧
    ((∀ method type, v.send name args ≠ Stop.fail (.noSuchMethod method type)) →
      ∃ rules, Whitelist.standard.matcher? name = some (.rules rules) ∧
        ∃ rule ∈ rules, v.isA rule.receiver = true) := by
  refine ⟨fun target permitted w f w' ran method type missing ↦ ?_,
    Whitelist.exists_rule_of_send builtIn⟩
  rw [run_callMethod_of_permit builtIn (held ▸ permitted), methods] at ran
  obtain broken | ⟨_, same, operational⟩ := Whitelist.operational_of_permits builtIn
    (Whitelist.permits_of_permit permitted).2 _ (congrArg Prod.fst ran)
  · cases broken
  · cases same
    have known := operational.known
    rw [missing] at known
    cases known

namespace Plain

/-- A setting with the standard whitelist for all modules. -/
def setting : Setting Unit := ⟨{}, Host.bare, .standard, Value.send⟩

/-- A text has a size, which is its length, and the whitelist has a rule for that. -/
theorem size_covered :
    setting.whitelistOf 0 = .standard ∧ (Value.str "ab").IsBuiltIn ∧
      Whitelist.standard.permit (.str "ab") "size" [] = .ok "length" ∧
      (∀ w f w', (setting.callMethod 0 (.str "ab") "size" []).run.run w = (.error (.fault f), w') →
        ∀ method type, f.cause ≠ .noSuchMethod method type) ∧
      ∃ rules, Whitelist.standard.matcher? "length" = some (.rules rules) ∧
        ∃ rule ∈ rules, (Value.str "ab").isA rule.receiver = true := by
  have permitted : Whitelist.standard.permit (.str "ab") "size" [] = .ok "length" := rfl
  have sent : (Value.str "ab").send "length" [] = .ok (.int 2) := rfl
  refine ⟨rfl, trivial, permitted,
    (setting.standard_covers rfl 0 rfl (.str "ab") trivial "size" []).1 "length" permitted,
    (setting.standard_covers rfl 0 rfl (.str "ab") trivial "length" []).2 fun method type h ↦ ?_⟩
  rw [sent] at h
  cases h

end Plain

end Setting

end Formulary
