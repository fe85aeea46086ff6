import Formulary.Proofs.EvalLaws
import Formulary.Scope.Lower

/-!
# The meaning of expressions

What an expression means as it is written, with comprehension variables by name: an identifier is
the innermost variable of that name, or else an attribute of the node being computed. Running the
code of an expression does just what its meaning does (`run_of_lower`).
-/

namespace Formulary

/-- Comprehension variables with their values, innermost first. -/
abbrev Bindings := List (String × Value)

/-- The variables that a comprehension binds to an item. The second of two is the inner one. -/
def Binding.bind : Binding → Value → Except Fault Bindings
  | single name, item => .ok [(name, item)]
  | pair first second, .list [a, b] => .ok [(second, b), (first, a)]
  | pair _ _, other => Fault.mismatch "for k, v in" other none

variable {σ : Type}

/-- Runs a body for each item that passes the filter, in order, and collects the results. -/
def forEach {α : Type} (binding : Binding) (vars : Bindings) (filter : Bindings → Eval σ Bool)
    (body : Bindings → Eval σ α) : (items : List Value) → Eval σ (List α)
  | [] => pure []
  | item :: items => do
    let bound ← Eval.ofExcept (binding.bind item)
    if ← filter (bound ++ vars) then
      let result ← body (bound ++ vars)
      let results ← forEach binding vars filter body items
      return result :: results
    else forEach binding vars filter body items

namespace Expr

mutual

/-- What an expression computes. Capitalised names mean what they mean in the scope that the
expression was checked in; a name that is unknown there is a fault. -/
def meaning (s : Setting σ) (read : Read (Eval σ)) (cx : Context) (sc : Scope) (vars : Bindings) :
    Expr → Eval σ Value
  | .literal _ l => pure l.value
  | .ident _ name =>
    match vars.lookup name with
    | some v => pure v
    | none => read cx.held cx.env cx.node name
  | .params _ => return .map (← Eval.visibleParams cx.env)
  | .path _ p =>
    match sc.resolveTarget p with
    | .ok (.node target) => pure (.node (target.ref cx.home cx.homeName))
    | .ok (.hostClass signature) => pure (.hostClass signature.name)
    | .error _ => Eval.fail (.undefinedNode p.text)
  | .unary _ op a => do
    let a ← meaning s read cx sc vars a
    Eval.ofExcept (Value.unary op a)
  | .binary _ .and a b => do
    let a ← meaning s read cx sc vars a
    if a.truthy then meaning s read cx sc vars b else pure a
  | .binary _ .or a b => do
    let a ← meaning s read cx sc vars a
    if a.truthy then pure a else meaning s read cx sc vars b
  | .binary _ op a b => do
    let a ← meaning s read cx sc vars a
    let b ← meaning s read cx sc vars b
    applyBinary read cx.held op a b
  | .cond _ test positive negative => do
    let test ← meaning s read cx sc vars test
    if test.truthy then meaning s read cx sc vars positive else meaning s read cx sc vars negative
  | .attr _ receiver name => do
    let receiver ← meaning s read cx sc vars receiver
    Access.getAttr s read cx receiver name
  | .index _ receiver args => do
    let receiver ← meaning s read cx sc vars receiver
    let args ← meaningAll s read cx sc vars args
    Access.index s read cx receiver args
  | .method _ receiver name args => do
    let receiver ← meaning s read cx sc vars receiver
    let args ← meaningAll s read cx sc vars args
    s.callMethod cx.home receiver name args
  | .call _ target args => do
    let target ← meaning s read cx sc vars target
    let params ← meaningNamed s read cx sc vars args
    NodeCall.apply cx.node target (Indexed.ofEntries params)
  | .raise _ args => do
    let args ← meaningAll s read cx sc vars args
    Eval.fail (.raised (String.intercalate ", " (args.map Value.text)))
  | .list _ items => return .list (← meaningAll s read cx sc vars items)
  | .set _ items => return .set (Indexed.ofElements (← meaningAll s read cx sc vars items))
  | .map _ entries => return .map (Indexed.ofEntries (← meaningEntries s read cx sc vars entries))
  | .comprehension _ yield binding source filter => do
    let source ← meaning s read cx sc vars source
    let items ← Eval.ofExcept source.iterate
    meaningYield s read cx sc vars binding items
      (fun vars ↦ meaningFilter s read cx sc vars filter) yield

/-- What several expressions compute, in order. -/
def meaningAll (s : Setting σ) (read : Read (Eval σ)) (cx : Context) (sc : Scope)
    (vars : Bindings) : List Expr → Eval σ (List Value)
  | [] => pure []
  | e :: es => do
    let v ← meaning s read cx sc vars e
    let vs ← meaningAll s read cx sc vars es
    return v :: vs

/-- The parameters that the arguments of a node call give. -/
def meaningNamed (s : Setting σ) (read : Read (Eval σ)) (cx : Context) (sc : Scope)
    (vars : Bindings) : List (Entry String Expr) → Eval σ (List (Value × Value))
  | [] => pure []
  | .pair name e :: rest => do
    let v ← meaning s read cx sc vars e
    let entries ← meaningNamed s read cx sc vars rest
    return (.str name, v) :: entries
  | .spread e :: rest => do
    let v ← meaning s read cx sc vars e
    let extra ← Eval.ofExcept (spreadEntries v)
    let entries ← meaningNamed s read cx sc vars rest
    return extra ++ entries

/-- The entries that a map literal gives. -/
def meaningEntries (s : Setting σ) (read : Read (Eval σ)) (cx : Context) (sc : Scope)
    (vars : Bindings) : List (Entry Expr Expr) → Eval σ (List (Value × Value))
  | [] => pure []
  | .pair k v :: rest => do
    let k ← meaning s read cx sc vars k
    let v ← meaning s read cx sc vars v
    let entries ← meaningEntries s read cx sc vars rest
    return (k, v) :: entries
  | .spread e :: rest => do
    let v ← meaning s read cx sc vars e
    let extra ← Eval.ofExcept (spreadEntries v)
    let entries ← meaningEntries s read cx sc vars rest
    return extra ++ entries

/-- Whether a filter lets an item pass; without one every item passes. -/
def meaningFilter (s : Setting σ) (read : Read (Eval σ)) (cx : Context) (sc : Scope)
    (vars : Bindings) : Option Expr → Eval σ Bool
  | none => pure true
  | some e => do
    let v ← meaning s read cx sc vars e
    return v.truthy

/-- What a comprehension makes of its items. -/
def meaningYield (s : Setting σ) (read : Read (Eval σ)) (cx : Context) (sc : Scope)
    (vars : Bindings) (binding : Binding) (items : List Value) (filter : Bindings → Eval σ Bool) :
    Yield Expr → Eval σ Value
  | .list e => do
    let vs ← forEach binding vars filter (fun vars ↦ meaning s read cx sc vars e) items
    return .list vs
  | .set e => do
    let vs ← forEach binding vars filter (fun vars ↦ meaning s read cx sc vars e) items
    return .set (Indexed.ofElements vs)
  | .map k v => do
    let es ← forEach binding vars filter (fun vars ↦ do
      let k ← meaning s read cx sc vars k
      let v ← meaning s read cx sc vars v
      return (k, v)) items
    return .map (Indexed.ofEntries es)

end

end Expr

/-! ### Names and positions -/

/-- The place of a name among the variables leads to the value of the innermost one. -/
theorem getElem?_of_idxOf?_eq_some {vars : Bindings} {name : String} {i : Nat}
    (h : (vars.map Prod.fst).idxOf? name = some i) :
    ∃ v, vars.lookup name = some v ∧ (vars.map Prod.snd)[i]? = some v := by
  induction vars generalizing i with
  | nil => simp at h
  | cons var vars ih =>
    rw [List.map_cons, List.idxOf?_cons] at h
    rw [List.lookup_cons]
    by_cases hn : var.1 = name
    · subst hn
      simp only [beq_self_eq_true, if_true, Option.some.injEq] at h
      subst h
      exact ⟨var.2, by simp, rfl⟩
    · simp only [beq_iff_eq, hn, if_false, Option.map_eq_some_iff] at h
      obtain ⟨j, hj, rfl⟩ := h
      obtain ⟨v, hv, hi⟩ := ih hj
      refine ⟨v, ?_, by simpa using hi⟩
      simp [beq_eq_false_iff_ne.mpr (Ne.symm hn), hv]

/-- A name without a place among the variables is none of them. -/
theorem lookup_of_idxOf?_eq_none {vars : Bindings} {name : String}
    (h : (vars.map Prod.fst).idxOf? name = none) : vars.lookup name = none := by
  rw [List.lookup_eq_none_iff]
  rw [List.idxOf?_eq_none_iff] at h
  intro var hv
  have hn : name ≠ var.1 := fun he ↦ h (he ▸ List.mem_map_of_mem hv)
  simpa using hn

/-- Without their names, the variables bound to an item are those that running code binds. -/
theorem bindItem_eq (binding : Binding) (item : Value) :
    bindItem (binding.names.length == 2) item =
      (binding.bind item).map (List.map Prod.snd) := by
  cases binding with
  | single name => rfl
  | pair first second =>
    unfold bindItem
    simp only [Binding.names, List.length_cons, List.length_nil, Nat.zero_add, Nat.reduceAdd,
      beq_self_eq_true, if_true]
    split
    · rfl
    · next other =>
      rw [Binding.bind]
      · rfl
      · exact other

/-- The variables bound to an item have the names of the binding. -/
theorem names_of_bind {binding : Binding} {item : Value} {bound : Bindings}
    (h : binding.bind item = .ok bound) : bound.map Prod.fst = binding.names.reverse := by
  unfold Binding.bind at h
  split at h
  · cases h; rfl
  · cases h; rfl
  · cases h

variable {σ : Type}

/-- Collecting by positions is collecting by names, if filter and body do the same under the
variables of every item. -/
theorem collect_eq_forEach {α : Type} (binding : Binding) (vars : Bindings) (items : List Value)
    {filter : List Value → Eval σ Bool} {body : List Value → Eval σ α}
    {namedFilter : Bindings → Eval σ Bool} {namedBody : Bindings → Eval σ α}
    (hf : ∀ inner : Bindings, inner.map Prod.fst = binding.names.reverse ++ vars.map Prod.fst →
      filter (inner.map Prod.snd) = namedFilter inner)
    (hb : ∀ inner : Bindings, inner.map Prod.fst = binding.names.reverse ++ vars.map Prod.fst →
      body (inner.map Prod.snd) = namedBody inner) :
    collect (binding.names.length == 2) (vars.map Prod.snd) items filter body =
      forEach binding vars namedFilter namedBody items := by
  induction items with
  | nil => rfl
  | cons item items ih =>
    rw [collect_cons, forEach, bindItem_eq]
    cases hi : binding.bind item with
    | error f => rfl
    | ok bound =>
      have names : (bound ++ vars).map Prod.fst = binding.names.reverse ++ vars.map Prod.fst := by
        rw [List.map_append, names_of_bind hi]
      simp only [Except.map, Eval.ofExcept_ok, Machine.step_eq, pure_bind, ← List.map_append,
        hf _ names, hb _ names, ih]

/-! ### Code does what the expression means -/

/-- The code of a method call is made of the code of its parts. One that is written on the name of
a host class calls the function at once. -/
theorem lower_method {sc : Scope} {names : List String} {span : Span} {receiver : Expr}
    {name : String} {args : List Expr} {code : Code}
    (h : sc.lower names (.method span receiver name args) = .ok code) :
    ∃ r as, sc.lower names receiver = .ok r ∧ sc.lowerAll names args = .ok as ∧
      (code = .method r name as ∨
        ∃ hostClass, r = .hostClass hostClass ∧ code = .function hostClass name as) := by
  by_cases hp : ∃ place p, receiver = .path place p
  · obtain ⟨place, p, rfl⟩ := hp
    rw [Scope.lower] at h
    obtain ⟨target, ht, h⟩ := bind_eq_ok h
    cases target with
    | node target =>
      obtain ⟨as, has, h⟩ := bind_eq_ok h
      cases h
      refine ⟨.node target, as, ?_, has, Or.inl rfl⟩
      rw [Scope.lower, ht]
      rfl
    | hostClass signature =>
      obtain ⟨as, has, h⟩ := bind_eq_ok h
      cases h
      refine ⟨.hostClass signature.name, as, ?_, has, Or.inr ⟨signature.name, rfl, rfl⟩⟩
      rw [Scope.lower, ht]
      rfl
  · rw [Scope.lower] at h
    · obtain ⟨r, hr, h⟩ := bind_eq_ok h
      obtain ⟨as, has, h⟩ := bind_eq_ok h
      cases h
      exact ⟨r, as, hr, has, Or.inl rfl⟩
    · intro place p he
      exact hp ⟨place, p, he⟩

section

variable {s : Setting σ} {read : Read (Eval σ)} {cx : Context} {sc : Scope}

mutual

/-- Running the code of an expression is its meaning, under the same variables. -/
theorem run_of_lower (vars : Bindings) : ∀ (e : Expr) (code : Code),
    sc.lower (vars.map Prod.fst) e = .ok code →
      run s read cx (vars.map Prod.snd) code = e.meaning s read cx sc vars
  | .literal _ l, code, h => by
    rw [Scope.lower] at h
    cases h
    rw [run, Expr.meaning]
  | .ident _ name, code, h => by
    rw [Scope.lower] at h
    rw [Expr.meaning]
    split at h
    · next i hi =>
      cases h
      obtain ⟨v, hv, hp⟩ := getElem?_of_idxOf?_eq_some hi
      rw [run, hv, hp]
    · next hi =>
      cases h
      rw [run, lookup_of_idxOf?_eq_none hi]
      rfl
  | .params _, code, h => by
    rw [Scope.lower] at h
    cases h
    rw [run, Expr.meaning]
    rfl
  | .path _ p, code, h => by
    rw [Scope.lower] at h
    obtain ⟨target, ht, h⟩ := bind_eq_ok h
    rw [Expr.meaning, ht]
    cases target with
    | node target | hostClass signature => cases h; rw [run]
  | .unary _ op a, code, h => by
    rw [Scope.lower] at h
    obtain ⟨c, ha, h⟩ := bind_eq_ok h
    cases h
    rw [run, Expr.meaning, run_of_lower vars a c ha]
    rfl
  | .binary _ op a b, code, h => by
    rw [Scope.lower] at h
    obtain ⟨c, d, ha, hb, rfl⟩ := bind₂_eq_ok h
    cases op <;> rw [run, Expr.meaning, run_of_lower vars a c ha, run_of_lower vars b d hb] <;>
      simp
  | .cond _ test positive negative, code, h => by
    rw [Scope.lower] at h
    obtain ⟨c, p, n, hc, hp, hn, rfl⟩ := bind₃_eq_ok h
    rw [run, Expr.meaning, run_of_lower vars test c hc, run_of_lower vars positive p hp,
      run_of_lower vars negative n hn]
  | .attr _ receiver name, code, h => by
    rw [Scope.lower] at h
    obtain ⟨r, hr, h⟩ := bind_eq_ok h
    cases h
    rw [run, Expr.meaning, run_of_lower vars receiver r hr]
  | .index _ receiver args, code, h => by
    rw [Scope.lower] at h
    obtain ⟨r, as, hr, has, rfl⟩ := bind₂_eq_ok h
    rw [run, Expr.meaning, run_of_lower vars receiver r hr, runAll_of_lowerAll vars args as has]
  | .method _ receiver name args, code, h => by
    obtain ⟨r, as, hr, has, hcode⟩ := lower_method h
    rw [Expr.meaning, ← run_of_lower vars receiver r hr, ← runAll_of_lowerAll vars args as has]
    rcases hcode with rfl | ⟨hostClass, rfl, rfl⟩
    · rw [run]
      rfl
    · rw [run, run, pure_bind]
      rfl
  | .call _ target args, code, h => by
    rw [Scope.lower] at h
    obtain ⟨t, as, ht, has, rfl⟩ := bind₂_eq_ok h
    rw [run, Expr.meaning, run_of_lower vars target t ht,
      runEntries_of_lowerNamed vars args as has]
    rfl
  | .raise _ args, code, h => by
    rw [Scope.lower] at h
    obtain ⟨as, has, h⟩ := bind_eq_ok h
    cases h
    rw [run, Expr.meaning, runAll_of_lowerAll vars args as has]
    rfl
  | .list _ items, code, h | .set _ items, code, h => by
    rw [Scope.lower] at h
    obtain ⟨cs, hcs, h⟩ := bind_eq_ok h
    cases h
    rw [run, Expr.meaning, runAll_of_lowerAll vars items cs hcs]
  | .map _ entries, code, h => by
    rw [Scope.lower] at h
    obtain ⟨es, hes, h⟩ := bind_eq_ok h
    cases h
    rw [run, Expr.meaning, runEntries_of_lowerEntries vars entries es hes]
  | .comprehension _ yield binding source filter, code, h => by
    rw [Scope.lower] at h
    obtain ⟨src, y, f, hsrc, hy, hf, rfl⟩ := bind₃_eq_ok h
    rw [run, Expr.meaning, run_of_lower vars source src hsrc]
    congr 1
    funext value
    congr 1
    funext items
    exact runYield_of_lowerYield vars binding items _ _
      (fun inner names ↦ runFilter_of_lowerOptional inner filter f (by rw [names, hf])) yield y hy

theorem runAll_of_lowerAll (vars : Bindings) : ∀ (es : List Expr) (codes : List Code),
    sc.lowerAll (vars.map Prod.fst) es = .ok codes →
      runAll s read cx (vars.map Prod.snd) codes = Expr.meaningAll s read cx sc vars es
  | [], codes, h => by
    rw [Scope.lowerAll] at h
    cases h
    rw [runAll, Expr.meaningAll]
  | e :: es, codes, h => by
    rw [Scope.lowerAll] at h
    obtain ⟨c, cs, hc, hcs, rfl⟩ := bind₂_eq_ok h
    rw [runAll, Expr.meaningAll, run_of_lower vars e c hc, runAll_of_lowerAll vars es cs hcs]

theorem runEntries_of_lowerNamed (vars : Bindings) :
    ∀ (args : List (Entry String Expr)) (codes : List (Entry Code Code)),
    sc.lowerNamed (vars.map Prod.fst) args = .ok codes →
      runEntries s read cx (vars.map Prod.snd) codes = Expr.meaningNamed s read cx sc vars args
  | [], codes, h => by
    rw [Scope.lowerNamed] at h
    cases h
    rw [runEntries, Expr.meaningNamed]
  | .pair name e :: rest, codes, h => by
    rw [Scope.lowerNamed] at h
    obtain ⟨c, cs, hc, hcs, rfl⟩ := bind₂_eq_ok h
    rw [runEntries, Expr.meaningNamed, run, pure_bind, run_of_lower vars e c hc,
      runEntries_of_lowerNamed vars rest cs hcs]
  | .spread e :: rest, codes, h => by
    rw [Scope.lowerNamed] at h
    obtain ⟨c, cs, hc, hcs, rfl⟩ := bind₂_eq_ok h
    rw [runEntries, Expr.meaningNamed, run_of_lower vars e c hc,
      runEntries_of_lowerNamed vars rest cs hcs]
    rfl

theorem runEntries_of_lowerEntries (vars : Bindings) :
    ∀ (entries : List (Entry Expr Expr)) (codes : List (Entry Code Code)),
    sc.lowerEntries (vars.map Prod.fst) entries = .ok codes →
      runEntries s read cx (vars.map Prod.snd) codes =
        Expr.meaningEntries s read cx sc vars entries
  | [], codes, h => by
    rw [Scope.lowerEntries] at h
    cases h
    rw [runEntries, Expr.meaningEntries]
  | .pair k v :: rest, codes, h => by
    rw [Scope.lowerEntries] at h
    obtain ⟨ck, cv, cs, hk, hv, hcs, rfl⟩ := bind₃_eq_ok h
    rw [runEntries, Expr.meaningEntries, run_of_lower vars k ck hk, run_of_lower vars v cv hv,
      runEntries_of_lowerEntries vars rest cs hcs]
  | .spread e :: rest, codes, h => by
    rw [Scope.lowerEntries] at h
    obtain ⟨c, cs, hc, hcs, rfl⟩ := bind₂_eq_ok h
    rw [runEntries, Expr.meaningEntries, run_of_lower vars e c hc,
      runEntries_of_lowerEntries vars rest cs hcs]
    rfl

theorem runFilter_of_lowerOptional (vars : Bindings) :
    ∀ (filter : Option Expr) (code : Option Code),
    sc.lowerOptional (vars.map Prod.fst) filter = .ok code →
      runFilter s read cx (vars.map Prod.snd) code = Expr.meaningFilter s read cx sc vars filter
  | none, code, h => by
    rw [Scope.lowerOptional] at h
    cases h
    rw [runFilter, Expr.meaningFilter]
  | some e, code, h => by
    rw [Scope.lowerOptional] at h
    obtain ⟨c, hc, h⟩ := bind_eq_ok h
    cases h
    rw [runFilter, Expr.meaningFilter, run_of_lower vars e c hc]

theorem runYield_of_lowerYield (vars : Bindings) (binding : Binding) (items : List Value)
    (filter : List Value → Eval σ Bool) (namedFilter : Bindings → Eval σ Bool)
    (hf : ∀ inner : Bindings, inner.map Prod.fst = binding.names.reverse ++ vars.map Prod.fst →
      filter (inner.map Prod.snd) = namedFilter inner) :
    ∀ (yield : Yield Expr) (code : Yield Code),
    sc.lowerYield (binding.names.reverse ++ vars.map Prod.fst) yield = .ok code →
      runYield s read cx (vars.map Prod.snd) (binding.names.length == 2) items filter code =
        Expr.meaningYield s read cx sc vars binding items namedFilter yield
  | .list e, code, h | .set e, code, h => by
    rw [Scope.lowerYield] at h
    obtain ⟨c, hc, h⟩ := bind_eq_ok h
    cases h
    rw [runYield, Expr.meaningYield, collect_eq_forEach binding vars items hf]
    intro inner names
    exact run_of_lower inner e c (by rw [names, hc])
  | .map k v, code, h => by
    rw [Scope.lowerYield] at h
    obtain ⟨ck, cv, hk, hv, rfl⟩ := bind₂_eq_ok h
    rw [runYield, Expr.meaningYield, collect_eq_forEach binding vars items hf]
    intro inner names
    rw [run_of_lower inner k ck (by rw [names, hk]), run_of_lower inner v cv (by rw [names, hv])]

end

end

end Formulary
