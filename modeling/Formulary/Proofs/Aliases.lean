import Formulary.Method
import Formulary.Proofs.Keyed
import Formulary.Proofs.Permission
import Mathlib.Data.List.Induction

/-!
# Aliases

A whitelist is built by registrations, of which the last one under a name counts
(`Whitelist.matcher?_ofRegistrations`). A call of a method follows the aliases that its name leads
to, eight names at most. If it comes to a method by then, the call is a call of that method, under
its name and by its rules; otherwise there is no such method, and nothing is run
(`Setting.aliases_followed`).
-/

namespace Formulary

/-! ### Registrations -/

/-- What is said of a name when a whitelist is built. -/
inductive Registration where
  /-- The name is a method with these rules. -/
  | method (name : String) (rules : List Rule)
  /-- The name is another one for the target. -/
  | synonym (name target : String)

namespace Registration

/-- The name that something is said of. -/
def name : Registration → String
  | method name _ | synonym name _ => name

/-- What then stands under the name. -/
def matcher : Registration → Matcher
  | method _ rules => .rules rules
  | synonym _ target => .sameAs target

/-- The last registration under a name. -/
def last? (rs : List Registration) (name : String) : Option Registration :=
  rs.reverse.find? fun r ↦ r.name == name

variable {rs : List Registration}

theorem last?_append (rs rs' : List Registration) (name : String) :
    last? (rs ++ rs') name = (last? rs' name).or (last? rs name) := by
  rw [last?, List.reverse_append, List.find?_append]
  rfl

theorem last?_singleton (r : Registration) (name : String) :
    last? [r] name = if r.name = name then some r else none := by
  by_cases here : r.name = name <;> simp [last?, here]

theorem name_of_last? {name : String} {r : Registration} (h : last? rs name = some r) :
    r.name = name := by
  simpa using List.find?_some h

/-- A registration counts for nothing once another one under its name has come. -/
theorem last?_of_replaced {before after : List Registration} {r : Registration}
    (replaced : ∃ later ∈ after, later.name = r.name) (name : String) :
    last? (before ++ r :: after) name = last? (before ++ after) name := by
  rw [List.append_cons, last?_append, last?_append, last?_append, last?_singleton]
  split
  · next here =>
    obtain ⟨later, hl, same⟩ := replaced
    have kept : (last? after name).isSome := by
      rw [last?, List.find?_isSome]
      exact ⟨later, List.mem_reverse.mpr hl, by simp [same, here]⟩
    obtain ⟨last, hlast⟩ := Option.isSome_iff_exists.mp kept
    rw [hlast, Option.some_or, Option.some_or]
  · rw [Option.none_or]

/-- From one name, going on by as many aliases as are said, one comes to another name. -/
inductive Follows (rs : List Registration) : (aliases : Nat) → String → String → Prop where
  | here (name : String) : Follows rs 0 name name
  | step {n : Nat} {name next target : String} (h : last? rs name = some (.synonym name next))
      (rest : Follows rs n next target) : Follows rs (n + 1) name target

/-- One more alias at the end. -/
theorem Follows.snoc {n : Nat} {name target next : String} (h : Follows rs n name target)
    (last : last? rs target = some (.synonym target next)) : Follows rs (n + 1) name next := by
  induction h with
  | here name => exact .step last (.here next)
  | step h _ ih => exact .step h (ih last)

/-- A chain that goes far enough also goes less far. -/
theorem Follows.shorten {n : Nat} {name target : String} (h : Follows rs n name target) {k : Nat}
    (hk : k ≤ n) : ∃ t, Follows rs k name t := by
  induction h generalizing k with
  | here name => exact ⟨name, by rw [Nat.le_zero.mp hk]; exact .here name⟩
  | step h _ ih =>
    cases k with
    | zero => exact ⟨_, .here _⟩
    | succ k =>
      obtain ⟨t, ht⟩ := ih (Nat.le_of_succ_le_succ hk)
      exact ⟨t, .step h ht⟩

theorem Follows.append {n m : Nat} {name middle target : String} (h : Follows rs n name middle)
    (h' : Follows rs m middle target) : Follows rs (n + m) name target := by
  induction h with
  | here name => rwa [Nat.zero_add]
  | step h _ ih => exact Nat.add_right_comm .. ▸ .step h (ih h')

/-- Aliases that lead round in a circle go on for ever. -/
theorem Follows.around {n m : Nat} {name target : String} (h : Follows rs n name target)
    (circle : Follows rs (m + 1) target target) (k : Nat) : ∃ t, Follows rs k name t := by
  have turns : ∀ k, ∃ far, k ≤ far ∧ Follows rs far name target := by
    intro k
    induction k with
    | zero => exact ⟨n, Nat.zero_le n, h⟩
    | succ k ih =>
      obtain ⟨far, hfar, there⟩ := ih
      exact ⟨far + (m + 1), by omega, there.append circle⟩
  obtain ⟨far, hfar, there⟩ := turns k
  exact there.shorten hfar

/-- Some way along the aliases there is a method, or a name under which nothing was registered, or
else they go on to the end of the way. -/
theorem follows_cases (limit : Nat) (name : String) :
    (∃ n < limit, ∃ t rules, Follows rs n name t ∧ last? rs t = some (.method t rules)) ∨
      (∃ n < limit, ∃ t, Follows rs n name t ∧ last? rs t = none) ∨
      ∃ t, Follows rs limit name t := by
  induction limit with
  | zero => exact .inr (.inr ⟨name, .here name⟩)
  | succ limit ih =>
    rcases ih with ⟨n, hn, h⟩ | ⟨n, hn, h⟩ | ⟨t, ht⟩
    · exact .inl ⟨n, by omega, h⟩
    · exact .inr (.inl ⟨n, by omega, h⟩)
    · cases last : last? rs t with
      | none => exact .inr (.inl ⟨limit, by omega, t, ht, last⟩)
      | some r =>
        have named := name_of_last? last
        cases r with
        | method name rules =>
          cases named
          exact .inl ⟨limit, by omega, _, rules, ht, last⟩
        | synonym name next =>
          cases named
          exact .inr (.inr ⟨next, ht.snoc last⟩)

end Registration

namespace Whitelist

open Registration (Follows last?)

/-- The whitelist after one more registration. -/
def register (w : Whitelist) : Registration → Whitelist
  | .method name rules => w.addMethod name rules
  | .synonym name target => w.addAlias name target

/-- The whitelist that registrations build. -/
def ofRegistrations (rs : List Registration) : Whitelist := rs.foldl register empty

theorem matcher?_register (w : Whitelist) (r : Registration) (name : String) :
    (w.register r).matcher? name = if r.name = name then some r.matcher else w.matcher? name := by
  have put : (w.register r).matcher? name =
      Ordered.get? name (Ordered.put r.name r.matcher w.matchers) := by cases r <;> rfl
  rw [put, Ordered.get?_put]
  by_cases here : r.name = name
  · simp [here]
  · rw [if_neg here, if_neg (by simpa using Ne.symm here)]
    rfl

/-- Under a name stands what was registered last. -/
theorem matcher?_ofRegistrations (rs : List Registration) (name : String) :
    (ofRegistrations rs).matcher? name = (last? rs name).map Registration.matcher := by
  induction rs using List.reverseRecOn with
  | nil => rfl
  | append_singleton rs r ih =>
    have step : ofRegistrations (rs ++ [r]) = (ofRegistrations rs).register r := by
      simp [ofRegistrations]
    rw [step, matcher?_register, Registration.last?_append, Registration.last?_singleton, ih]
    split <;> rfl

variable {rs : List Registration} {n lookups : Nat} {name target : String} {rules : List Rule}

/-- Looking a name up goes along the aliases. -/
theorem resolveWithin_of_follows (h : Follows rs n name target) (lookups : Nat) :
    (ofRegistrations rs).resolveWithin (n + lookups) name =
      (ofRegistrations rs).resolveWithin lookups target := by
  induction h with
  | here name => rw [Nat.zero_add]
  | @step n name next target h _ ih =>
    rw [Nat.add_right_comm, resolveWithin, matcher?_ofRegistrations, h]
    exact ih

theorem resolve_of_method (h : Follows rs n name target) (near : n < aliasLimit)
    (last : last? rs target = some (.method target rules)) :
    (ofRegistrations rs).resolve name = .ok (target, rules) := by
  obtain ⟨more, hm⟩ := Nat.exists_eq_add_of_lt near
  rw [resolve, hm, Nat.add_assoc, resolveWithin_of_follows h, resolveWithin,
    matcher?_ofRegistrations, last]
  rfl

theorem resolve_of_none (h : Follows rs n name target) (near : n < aliasLimit)
    (none : last? rs target = none) :
    (ofRegistrations rs).resolve name = Fault.fail (.noSuchMethod target .none) := by
  obtain ⟨more, hm⟩ := Nat.exists_eq_add_of_lt near
  rw [resolve, hm, Nat.add_assoc, resolveWithin_of_follows h, resolveWithin,
    matcher?_ofRegistrations, none]
  rfl

theorem resolve_of_far (h : Follows rs aliasLimit name target) :
    (ofRegistrations rs).resolve name = Fault.fail (.noSuchMethod target none) := by
  have far := resolveWithin_of_follows h 0
  rwa [Nat.add_zero, resolveWithin] at far

/-- Resolving depends on nothing but what stands under names. -/
theorem resolve_congr {w w' : Whitelist} (same : ∀ name, w.matcher? name = w'.matcher? name)
    (name : String) : w.resolve name = w'.resolve name := by
  have within : ∀ lookups name, w.resolveWithin lookups name = w'.resolveWithin lookups name := by
    intro lookups
    induction lookups with
    | zero => exact fun name ↦ rfl
    | succ lookups ih =>
      intro name
      rw [resolveWithin, resolveWithin, same]
      cases w'.matcher? name with
      | none => rfl
      | some m =>
        cases m with
        | rules rules => rfl
        | sameAs target => exact ih target
  exact within aliasLimit name

end Whitelist

/-! ### Calls -/

/-- Refusing a method by its rules names the method. -/
theorem Rule.check_eq_error {method : String} {rules : List Rule} {receiver : Value}
    {args : List Value} {f : Fault} (h : Rule.check method rules receiver args = .error f) :
    f = ⟨.noSuchMethod method (some receiver.typeName), []⟩ ∨
      ∃ detail, f = ⟨.badArgument method detail, []⟩ := by
  have misfit : ∀ (specs : List ArgSpec) (i : Nat) (args : List Value),
      Rule.checkArgs method i specs args = .error f →
        ∃ detail, f = ⟨.badArgument method detail, []⟩ := by
    intro specs
    induction specs with
    | nil => exact fun i args h ↦ by cases h
    | cons spec specs ih =>
      intro i args h
      rw [Rule.checkArgs] at h
      split at h
      · exact ih _ _ h
      · cases h
        exact ⟨_, rfl⟩
  unfold Rule.check at h
  split at h
  · cases h
    exact .inl rfl
  · split at h
    · cases h
      exact .inr ⟨_, rfl⟩
    · exact .inr (misfit _ _ _ h)

/-- Values that have methods, in the sense that calls on them are checked by a whitelist: all but
host classes and nodes. -/
def Value.TakesMethods : Value → Prop
  | hostClass _ | node _ => False
  | _ => True

namespace Setting

open Registration (Follows last?)

variable {σ : Type} {s : Setting σ} {home : Nat} {receiver : Value}

theorem callMethod_of_takesMethods (plain : receiver.TakesMethods) (method : String)
    (args : List Value) :
    s.callMethod home receiver method args = (do
      let method ← Eval.ofExcept ((s.whitelistOf home).permit receiver method args)
      Eval.record (.method home receiver method args)
      s.runMethod receiver method args) := by
  cases receiver with
  | hostClass _ | node _ => exact plain.elim
  | _ => rfl

/-- A call of a method that is found is checked by the rules of that method. -/
theorem callMethod_of_resolve (plain : receiver.TakesMethods) {method target : String}
    {rules : List Rule} (found : (s.whitelistOf home).resolve method = .ok (target, rules))
    (args : List Value) :
    s.callMethod home receiver method args = (do
      Eval.ofExcept (Rule.check target rules receiver args)
      Eval.record (.method home receiver target args)
      s.runMethod receiver target args) := by
  have permitted : (s.whitelistOf home).permit receiver method args =
      (Rule.check target rules receiver args).map fun _ ↦ target := by
    rw [Whitelist.permit, found]
    rfl
  rw [callMethod_of_takesMethods plain, permitted]
  cases Rule.check target rules receiver args <;> rfl

/-- A call of a method that is not found does nothing but fail. -/
theorem callMethod_of_resolve_error (plain : receiver.TakesMethods) {method name : String}
    (missing : (s.whitelistOf home).resolve method = Fault.fail (.noSuchMethod name none))
    (args : List Value) :
    s.callMethod home receiver method args = Eval.fail (.noSuchMethod name none) := by
  rw [callMethod_of_takesMethods plain, Whitelist.permit, missing]
  rfl

/-- Calls follow aliases exactly, and to an end.

Let the whitelist for code that is written in a module be built by any registrations, and let a
method be called there on a value other than a host class or a node. Going on from its name by
aliases, of the last registrations under each name, one comes within seven aliases to a method or to
a name that was never registered, or else one passes eight aliases.

If it is a method, then the call is one of that method: its rules are checked and no others, its
name is the one in what a check may complain of, and what is run is run under that name. In the
other cases there is no such method, and nothing is run; so it is with aliases that lead round in a
circle. A registration that was replaced by a later one makes no difference, whatever it was. -/
theorem aliases_followed (s : Setting σ) (home : Nat) (rs : List Registration)
    (built : s.whitelistOf home = .ofRegistrations rs) (receiver : Value)
    (plain : receiver.TakesMethods) (method : String) (args : List Value) :
    ((∃ n ≤ 7, ∃ t rules, Follows rs n method t ∧ last? rs t = some (.method t rules)) ∨
      (∃ n ≤ 7, ∃ t, Follows rs n method t ∧ last? rs t = none) ∨ ∃ t, Follows rs 8 method t) ∧
    (∀ n ≤ 7, ∀ t rules, Follows rs n method t → last? rs t = some (.method t rules) →
      s.callMethod home receiver method args = s.callMethod home receiver t args ∧
      s.callMethod home receiver method args = (do
        Eval.ofExcept (Rule.check t rules receiver args)
        Eval.record (.method home receiver t args)
        s.runMethod receiver t args) ∧
      ∀ f, Rule.check t rules receiver args = .error f →
        f = ⟨.noSuchMethod t (some receiver.typeName), []⟩ ∨
          ∃ detail, f = ⟨.badArgument t detail, []⟩) ∧
    (∀ n t, Follows rs n method t → n ≤ 7 ∧ last? rs t = none ∨ n = 8 →
      s.callMethod home receiver method args = Eval.fail (.noSuchMethod t none)) ∧
    (∀ n m t, Follows rs n method t → Follows rs (m + 1) t t →
      ∃ name, s.callMethod home receiver method args = Eval.fail (.noSuchMethod name none)) ∧
    ∀ before r after, rs = before ++ r :: after → (∃ later ∈ after, later.name = r.name) →
      ∀ s' : Setting σ, s'.host = s.host → s'.builtIns = s.builtIns →
        s'.whitelistOf home = .ofRegistrations (before ++ after) →
        s'.callMethod home receiver method args = s.callMethod home receiver method args := by
  have found : ∀ {n t rules}, n ≤ 7 → Follows rs n method t →
      last? rs t = some (.method t rules) → (s.whitelistOf home).resolve method = .ok (t, rules) :=
    fun near h last ↦ built ▸ Whitelist.resolve_of_method h (Nat.lt_succ_of_le near) last
  have far : ∀ {t}, Follows rs 8 method t →
      s.callMethod home receiver method args = Eval.fail (.noSuchMethod t none) :=
    fun h ↦ callMethod_of_resolve_error plain (built ▸ Whitelist.resolve_of_far h) args
  refine ⟨?_, ?_, ?_, ?_, ?_⟩
  · simpa only [Nat.lt_succ_iff] using @Registration.follows_cases rs 8 method
  · intro n near t rules h last
    have direct : (s.whitelistOf home).resolve t = .ok (t, rules) :=
      built ▸ Whitelist.resolve_of_method (.here t) (by decide) last
    have call := callMethod_of_resolve (s := s) plain (found near h last) args
    exact ⟨call.trans (callMethod_of_resolve plain direct args).symm, call,
      fun f ↦ Rule.check_eq_error⟩
  · rintro n t h (⟨near, none⟩ | rfl)
    · exact callMethod_of_resolve_error plain
        (built ▸ Whitelist.resolve_of_none h (Nat.lt_succ_of_le near) none) args
    · exact far h
  · intro n m t h circle
    obtain ⟨name, around⟩ := h.around circle 8
    exact ⟨name, far around⟩
  · rintro before r after rfl replaced s' host builtIns built'
    have same : (s'.whitelistOf home).resolve method = (s.whitelistOf home).resolve method := by
      rw [built, built']
      refine Whitelist.resolve_congr (fun name ↦ ?_) method
      rw [Whitelist.matcher?_ofRegistrations, Whitelist.matcher?_ofRegistrations,
        Registration.last?_of_replaced replaced]
    rw [callMethod_of_takesMethods plain, callMethod_of_takesMethods plain, Whitelist.permit,
      Whitelist.permit, same]
    unfold runMethod
    rw [host, builtIns]

end Setting

/-! ### An alias in place of a method -/

namespace Renamed

/-- First `len` is a method of maps, then another name for `count`, and that one for `size`, which
is a method of lists. -/
def registrations : List Registration :=
  [.method "len" [⟨"Map", []⟩], .synonym "len" "count", .synonym "count" "size",
    .method "size" [⟨"List", []⟩], .synonym "loop" "loop"]

/-- A setting with this whitelist for all modules. -/
def setting : Setting Unit := ⟨{}, Host.bare, .ofRegistrations registrations, Value.send⟩

/-- The setting without the method of maps. -/
def shortened : Setting Unit := ⟨{}, Host.bare, .ofRegistrations registrations.tail, Value.send⟩

/-- On a list `len` is `size`, on a map there is no such method any more, and `loop` is none. -/
theorem len_followed :
    setting.whitelistOf 0 = .ofRegistrations registrations ∧
      setting.callMethod 0 (.list [.nil]) "len" [] =
        setting.callMethod 0 (.list [.nil]) "size" [] ∧
      (∃ name, setting.callMethod 0 (.list [.nil]) "loop" [] =
        Eval.fail (.noSuchMethod name none)) ∧
      shortened.callMethod 0 (.map []) "len" [] = setting.callMethod 0 (.map []) "len" [] := by
  have len : Registration.Follows registrations 2 "len" "size" :=
    .step rfl (.step rfl (.here _))
  have loop : Registration.Follows registrations 1 "loop" "loop" := .step rfl (.here _)
  exact ⟨rfl, ((setting.aliases_followed 0 registrations rfl (.list [.nil]) trivial "len" []).2.1 2
      (by decide) "size" [⟨"List", []⟩] len rfl).1,
    (setting.aliases_followed 0 registrations rfl (.list [.nil]) trivial "loop" []).2.2.2.1 0 0
      "loop" (.here _) loop,
    (setting.aliases_followed 0 registrations rfl (.map []) trivial "len" []).2.2.2.2 []
      (.method "len" [⟨"Map", []⟩]) registrations.tail rfl
      ⟨.synonym "len" "count", by simp [registrations], rfl⟩ shortened rfl rfl rfl⟩

end Renamed

end Formulary
