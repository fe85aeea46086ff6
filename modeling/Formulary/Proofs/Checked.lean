import Formulary.Proofs.EvalLaws
import Formulary.Proofs.Members
import Formulary.Scope.Check
import Formulary.Scope.Lower

/-!
# Checked expressions

An expression that passes the check has code: the check has looked at every name that resolving
looks at (`Scope.lowerOptional_of_references`). The names that it refers to are known on the open
node (`Scope.sees_of_references`). An expression that does not pass is refused for an unknown name
or a call that cannot be made, never for a cycle (`Scope.blameless_references`).
-/

namespace Formulary

namespace Scope

variable {sc : Scope}

/-- A function call that passes the check is written on the name of a host class. -/
theorem resolveTarget_of_checkFunction {p : NodePath} {function : String} {count : Nat}
    (h : sc.checkFunction p function count = .ok ()) :
    ∃ signature, sc.resolveTarget p = .ok (.hostClass signature) := by
  unfold checkFunction at h
  obtain ⟨target, ht, h⟩ := bind_eq_ok h
  cases target with
  | node target => cases h
  | hostClass signature => exact ⟨signature, ht⟩

/-- A method call passes the check if its parts do; the name of a host class needs no check but
that it has the function. -/
theorem mentions_method {vars : List String} {span : Span} {receiver : Expr} {name : String}
    {args : List Expr} {ds : List String}
    (h : sc.mentions vars (.method span receiver name args) = .ok ds) :
    (∃ dr, sc.mentions vars receiver = .ok dr) ∧ ∃ da, sc.mentionsAll vars args = .ok da := by
  by_cases hp : ∃ place p, receiver = .path place p
  · obtain ⟨place, p, rfl⟩ := hp
    rw [mentions] at h
    obtain ⟨_, hc, h⟩ := bind_eq_ok h
    obtain ⟨signature, ht⟩ := resolveTarget_of_checkFunction hc
    refine ⟨⟨[], ?_⟩, ds, h⟩
    rw [mentions, ht]
    rfl
  · rw [mentions] at h
    · obtain ⟨dr, hr, h⟩ := bind_eq_ok h
      obtain ⟨da, ha, h⟩ := bind_eq_ok h
      exact ⟨⟨dr, hr⟩, da, ha⟩
    · intro place p he
      exact hp ⟨place, p, he⟩

mutual

/-- An expression of known names has code. -/
theorem lower_of_mentions (vars : List String) : ∀ (e : Expr) (ds : List String),
    sc.mentions vars e = .ok ds → ∃ code, sc.lower vars e = .ok code
  | .literal _ l, ds, h => by
    rw [lower]
    exact ⟨_, rfl⟩
  | .ident _ name, ds, h => by
    rw [lower]
    split
    · exact ⟨_, rfl⟩
    · exact ⟨_, rfl⟩
  | .params _, ds, h => by
    rw [lower]
    exact ⟨_, rfl⟩
  | .path _ p, ds, h => by
    rw [mentions] at h
    obtain ⟨target, ht, -⟩ := bind_eq_ok h
    rw [lower, ht]
    cases target with
    | node target | hostClass signature => exact ⟨_, rfl⟩
  | .unary _ op a, ds, h => by
    rw [mentions] at h
    obtain ⟨c, hc⟩ := lower_of_mentions vars a ds h
    rw [lower, hc]
    exact ⟨_, rfl⟩
  | .binary _ op a b, ds, h => by
    rw [mentions] at h
    obtain ⟨da, ha, h⟩ := bind_eq_ok h
    obtain ⟨db, hb, -⟩ := bind_eq_ok h
    obtain ⟨c, hc⟩ := lower_of_mentions vars a da ha
    obtain ⟨d, hd⟩ := lower_of_mentions vars b db hb
    rw [lower, hc, hd]
    exact ⟨_, rfl⟩
  | .cond _ test positive negative, ds, h => by
    rw [mentions] at h
    obtain ⟨dt, ht, h⟩ := bind_eq_ok h
    obtain ⟨dp, hp, h⟩ := bind_eq_ok h
    obtain ⟨dn, hn, -⟩ := bind_eq_ok h
    obtain ⟨t, ht⟩ := lower_of_mentions vars test dt ht
    obtain ⟨p, hp⟩ := lower_of_mentions vars positive dp hp
    obtain ⟨n, hn⟩ := lower_of_mentions vars negative dn hn
    rw [lower, ht, hp, hn]
    exact ⟨_, rfl⟩
  | .attr _ receiver name, ds, h => by
    rw [mentions] at h
    obtain ⟨r, hr⟩ := lower_of_mentions vars receiver ds h
    rw [lower, hr]
    exact ⟨_, rfl⟩
  | .index _ receiver args, ds, h => by
    rw [mentions] at h
    obtain ⟨dr, hr, h⟩ := bind_eq_ok h
    obtain ⟨da, ha, -⟩ := bind_eq_ok h
    obtain ⟨r, hr⟩ := lower_of_mentions vars receiver dr hr
    obtain ⟨as, has⟩ := lowerAll_of_mentionsAll vars args da ha
    rw [lower, hr, has]
    exact ⟨_, rfl⟩
  | .method _ receiver name args, ds, h => by
    obtain ⟨⟨dr, hr⟩, da, ha⟩ := mentions_method h
    obtain ⟨r, hr⟩ := lower_of_mentions vars receiver dr hr
    obtain ⟨as, has⟩ := lowerAll_of_mentionsAll vars args da ha
    by_cases hp : ∃ place p, receiver = .path place p
    · obtain ⟨place, p, rfl⟩ := hp
      rw [lower] at hr
      obtain ⟨target, ht, -⟩ := bind_eq_ok hr
      rw [lower, ht, has]
      cases target with
      | node target | hostClass signature => exact ⟨_, rfl⟩
    · rw [lower]
      · rw [hr, has]
        exact ⟨_, rfl⟩
      · intro place p he
        exact hp ⟨place, p, he⟩
  | .call _ target args, ds, h => by
    rw [mentions] at h
    obtain ⟨dt, ht, h⟩ := bind_eq_ok h
    obtain ⟨da, ha, -⟩ := bind_eq_ok h
    obtain ⟨t, ht⟩ := lower_of_mentions vars target dt ht
    obtain ⟨as, has⟩ := lowerNamed_of_mentionsNamed vars args da ha
    rw [lower, ht, has]
    exact ⟨_, rfl⟩
  | .raise _ args, ds, h => by
    rw [mentions] at h
    obtain ⟨as, has⟩ := lowerAll_of_mentionsAll vars args ds h
    rw [lower, has]
    exact ⟨_, rfl⟩
  | .list _ items, ds, h | .set _ items, ds, h => by
    rw [mentions] at h
    obtain ⟨cs, hcs⟩ := lowerAll_of_mentionsAll vars items ds h
    rw [lower, hcs]
    exact ⟨_, rfl⟩
  | .map _ entries, ds, h => by
    rw [mentions] at h
    obtain ⟨es, hes⟩ := lowerEntries_of_mentionsEntries vars entries ds h
    rw [lower, hes]
    exact ⟨_, rfl⟩
  | .comprehension _ yield binding source filter, ds, h => by
    rw [mentions] at h
    obtain ⟨dsrc, hsrc, h⟩ := bind_eq_ok h
    obtain ⟨dy, hy, h⟩ := bind_eq_ok h
    obtain ⟨df, hf, -⟩ := bind_eq_ok h
    obtain ⟨src, hsrc⟩ := lower_of_mentions vars source dsrc hsrc
    obtain ⟨y, hy⟩ := lowerYield_of_mentionsYield _ yield dy hy
    obtain ⟨f, hf⟩ := lowerOptional_of_mentionsOptional _ filter df hf
    rw [lower, hsrc]
    simp only [hy, hf]
    exact ⟨_, rfl⟩

theorem lowerAll_of_mentionsAll (vars : List String) : ∀ (es : List Expr) (ds : List String),
    sc.mentionsAll vars es = .ok ds → ∃ codes, sc.lowerAll vars es = .ok codes
  | [], ds, h => ⟨[], by rw [lowerAll]⟩
  | e :: es, ds, h => by
    rw [mentionsAll] at h
    obtain ⟨de, he, h⟩ := bind_eq_ok h
    obtain ⟨des, hes, -⟩ := bind_eq_ok h
    obtain ⟨c, hc⟩ := lower_of_mentions vars e de he
    obtain ⟨cs, hcs⟩ := lowerAll_of_mentionsAll vars es des hes
    rw [lowerAll, hc, hcs]
    exact ⟨_, rfl⟩

theorem lowerNamed_of_mentionsNamed (vars : List String) :
    ∀ (args : List (Entry String Expr)) (ds : List String),
    sc.mentionsNamed vars args = .ok ds → ∃ codes, sc.lowerNamed vars args = .ok codes
  | [], ds, h => ⟨[], by rw [lowerNamed]⟩
  | .pair name e :: rest, ds, h | .spread e :: rest, ds, h => by
    rw [mentionsNamed] at h
    obtain ⟨de, he, h⟩ := bind_eq_ok h
    obtain ⟨dr, hr, -⟩ := bind_eq_ok h
    obtain ⟨c, hc⟩ := lower_of_mentions vars e de he
    obtain ⟨cs, hcs⟩ := lowerNamed_of_mentionsNamed vars rest dr hr
    rw [lowerNamed, hc, hcs]
    exact ⟨_, rfl⟩

theorem lowerEntries_of_mentionsEntries (vars : List String) :
    ∀ (entries : List (Entry Expr Expr)) (ds : List String),
    sc.mentionsEntries vars entries = .ok ds → ∃ codes, sc.lowerEntries vars entries = .ok codes
  | [], ds, h => ⟨[], by rw [lowerEntries]⟩
  | .pair k v :: rest, ds, h => by
    rw [mentionsEntries] at h
    obtain ⟨dk, hk, h⟩ := bind_eq_ok h
    obtain ⟨dv, hv, h⟩ := bind_eq_ok h
    obtain ⟨dr, hr, -⟩ := bind_eq_ok h
    obtain ⟨ck, hck⟩ := lower_of_mentions vars k dk hk
    obtain ⟨cv, hcv⟩ := lower_of_mentions vars v dv hv
    obtain ⟨cs, hcs⟩ := lowerEntries_of_mentionsEntries vars rest dr hr
    rw [lowerEntries, hck, hcv, hcs]
    exact ⟨_, rfl⟩
  | .spread e :: rest, ds, h => by
    rw [mentionsEntries] at h
    obtain ⟨de, he, h⟩ := bind_eq_ok h
    obtain ⟨dr, hr, -⟩ := bind_eq_ok h
    obtain ⟨c, hc⟩ := lower_of_mentions vars e de he
    obtain ⟨cs, hcs⟩ := lowerEntries_of_mentionsEntries vars rest dr hr
    rw [lowerEntries, hc, hcs]
    exact ⟨_, rfl⟩

theorem lowerYield_of_mentionsYield (vars : List String) :
    ∀ (yield : Yield Expr) (ds : List String),
    sc.mentionsYield vars yield = .ok ds → ∃ code, sc.lowerYield vars yield = .ok code
  | .list a, ds, h | .set a, ds, h => by
    rw [mentionsYield] at h
    obtain ⟨c, hc⟩ := lower_of_mentions vars a ds h
    rw [lowerYield, hc]
    exact ⟨_, rfl⟩
  | .map k v, ds, h => by
    rw [mentionsYield] at h
    obtain ⟨dk, hk, h⟩ := bind_eq_ok h
    obtain ⟨dv, hv, -⟩ := bind_eq_ok h
    obtain ⟨ck, hck⟩ := lower_of_mentions vars k dk hk
    obtain ⟨cv, hcv⟩ := lower_of_mentions vars v dv hv
    rw [lowerYield, hck, hcv]
    exact ⟨_, rfl⟩

theorem lowerOptional_of_mentionsOptional (vars : List String) :
    ∀ (body : Option Expr) (ds : List String),
    sc.mentionsOptional vars body = .ok ds → ∃ code, sc.lowerOptional vars body = .ok code
  | none, ds, h => ⟨none, by rw [lowerOptional]⟩
  | some e, ds, h => by
    rw [mentionsOptional] at h
    obtain ⟨c, hc⟩ := lower_of_mentions vars e ds h
    rw [lowerOptional, hc]
    exact ⟨_, rfl⟩

end

/-- A definition that passes the check has code. -/
theorem lowerOptional_of_references {body : Option Expr} {deps : List String}
    (h : sc.references body = .ok deps) : ∃ code, sc.lowerOptional [] body = .ok code := by
  unfold references at h
  cases hm : sc.mentionsOptional [] body with
  | error problem => rw [hm] at h; cases h
  | ok ds => exact lowerOptional_of_mentionsOptional [] body ds hm

end Scope

/-! ### What a check finds -/

/-- If a check fails, it is not for a cycle. -/
def Blameless {α : Type} (x : Except Problem α) : Prop :=
  ∀ problem, x = .error problem → problem.kind ≠ .recursion

section

variable {α β : Type}

theorem blameless_ok (a : α) : Blameless (.ok a) := fun problem h ↦ by cases h

theorem blameless_error {problem : Problem} (h : problem.kind ≠ .recursion) :
    Blameless (.error problem : Except Problem α) := by
  intro problem' same
  cases same
  exact h

theorem Blameless.bind {x : Except Problem α} {f : α → Except Problem β} (hx : Blameless x)
    (hf : ∀ a, Blameless (f a)) : Blameless (x >>= f) := by
  cases x with
  | ok a => exact hf a
  | error problem => exact blameless_error (hx problem rfl)

end

namespace Scope

variable (sc : Scope)

theorem blameless_resolveNode (path : NodePath) : Blameless (sc.resolveNode path) := by
  unfold resolveNode
  split
  · split
    · exact blameless_ok _
    · exact blameless_error (by simp [Problem.kind])
  · split
    · exact blameless_error (by simp [Problem.kind])
    · split
      · exact blameless_ok _
      · exact blameless_error (by simp [Problem.kind])

theorem blameless_resolveTarget (path : NodePath) : Blameless (sc.resolveTarget path) := by
  unfold resolveTarget
  split
  · exact blameless_ok _
  · next problem failed =>
    split
    · exact blameless_ok _
    · exact blameless_error (sc.blameless_resolveNode path problem failed)

theorem blameless_checkFunction (path : NodePath) (function : String) (count : Nat) :
    Blameless (sc.checkFunction path function count) := by
  refine (sc.blameless_resolveTarget path).bind fun target ↦ ?_
  cases target with
  | node target => exact blameless_error (by simp [Problem.kind])
  | hostClass signature =>
    dsimp only
    split
    · exact blameless_error (by simp [Problem.kind])
    · split
      · exact blameless_ok ()
      · exact blameless_error (by simp [Problem.kind])

/-- A look for names: if it fails, it is not for a cycle, and if it does not, every name found is a
variable or is known on the open node. -/
structure Finds (vars : List String) (x : Except Problem (List String)) : Prop where
  blameless : Blameless x
  known : ∀ names, x = .ok names → ∀ name ∈ names, name ∈ vars ∨ sc.sees name = true

section

variable {sc} {vars : List String} {x y : Except Problem (List String)}

theorem finds_ok {names : List String}
    (known : ∀ name ∈ names, name ∈ vars ∨ sc.sees name = true) : sc.Finds vars (.ok names) where
  blameless := blameless_ok names
  known names' same := by
    cases same
    exact known

theorem finds_error {problem : Problem} (h : problem.kind ≠ .recursion) :
    sc.Finds vars (.error problem) where
  blameless := blameless_error h
  known names same := by cases same

theorem finds_nothing : sc.Finds vars (.ok []) := finds_ok fun name h ↦ by cases h

/-- A look for names after some other check. -/
theorem Finds.after {α : Type} {check : Except Problem α} {f : α → Except Problem (List String)}
    (hc : Blameless check) (hf : ∀ a, sc.Finds vars (f a)) : sc.Finds vars (check >>= f) := by
  cases check with
  | ok a => exact hf a
  | error problem => exact finds_error (hc problem rfl)

/-- Two looks in turn, of which the results are put together. -/
theorem Finds.append (hx : sc.Finds vars x) (hy : sc.Finds vars y) :
    sc.Finds vars (do return (← x) ++ (← y)) := by
  cases x with
  | error problem => exact finds_error (hx.blameless problem rfl)
  | ok names =>
    cases y with
    | error problem => exact finds_error (hy.blameless problem rfl)
    | ok names' =>
      exact finds_ok (List.forall_mem_append.mpr ⟨hx.known names rfl, hy.known names' rfl⟩)

/-- Names found further in, without those that are bound there. -/
theorem Finds.unbound {bound : List String} (h : sc.Finds (bound.reverse ++ vars) x) :
    sc.Finds vars (do return (← x).filter fun name ↦ !bound.contains name) := by
  cases x with
  | error problem => exact finds_error (h.blameless problem rfl)
  | ok names =>
    refine finds_ok fun name hname ↦ ?_
    obtain ⟨found, free⟩ := List.mem_filter.mp hname
    have free : name ∉ bound := by simpa using free
    rcases h.known names rfl name found with here | sees
    · rcases List.mem_append.mp here with inner | outer
      · exact absurd (List.mem_reverse.mp inner) free
      · exact .inl outer
    · exact .inr sees

end

mutual

theorem finds_mentions (vars : List String) : ∀ e : Expr, sc.Finds vars (sc.mentions vars e)
  | .literal _ _ | .params _ => by
    rw [mentions]
    exact finds_nothing
  | .ident _ name => by
    rw [mentions]
    split
    · next known => exact finds_ok (by simpa using known)
    · exact finds_error (by simp [Problem.kind])
  | .path _ p => by
    rw [mentions]
    exact .after (sc.blameless_resolveTarget p) fun _ ↦ finds_nothing
  | .unary _ _ a | .attr _ a _ => by
    rw [mentions]
    exact finds_mentions vars a
  | .binary _ _ a b => by
    rw [mentions]
    exact (finds_mentions vars a).append (finds_mentions vars b)
  | .cond _ a b c => by
    have all := (finds_mentions vars a).append
      ((finds_mentions vars b).append (finds_mentions vars c))
    simpa [mentions] using all
  | .index _ a args => by
    rw [mentions]
    exact (finds_mentions vars a).append (finds_mentionsAll vars args)
  | .method _ a name args => by
    by_cases hp : ∃ place p, a = .path place p
    · obtain ⟨place, p, rfl⟩ := hp
      rw [mentions]
      exact .after (sc.blameless_checkFunction p name args.length) fun _ ↦
        finds_mentionsAll vars args
    · rw [mentions]
      · exact (finds_mentions vars a).append (finds_mentionsAll vars args)
      · intro place p he
        exact hp ⟨place, p, he⟩
  | .call _ a args => by
    rw [mentions]
    exact (finds_mentions vars a).append (finds_mentionsNamed vars args)
  | .raise _ items | .list _ items | .set _ items => by
    rw [mentions]
    exact finds_mentionsAll vars items
  | .map _ entries => by
    rw [mentions]
    exact finds_mentionsEntries vars entries
  | .comprehension _ yield binding source filter => by
    have inner := ((finds_mentionsYield (binding.names.reverse ++ vars) yield).append
      (finds_mentionsOptional (binding.names.reverse ++ vars) filter)).unbound
    simpa [mentions] using (finds_mentions vars source).append inner

theorem finds_mentionsAll (vars : List String) :
    ∀ es : List Expr, sc.Finds vars (sc.mentionsAll vars es)
  | [] => by
    rw [mentionsAll]
    exact finds_nothing
  | e :: es => by
    rw [mentionsAll]
    exact (finds_mentions vars e).append (finds_mentionsAll vars es)

theorem finds_mentionsNamed (vars : List String) :
    ∀ es : List (Entry String Expr), sc.Finds vars (sc.mentionsNamed vars es)
  | [] => by
    rw [mentionsNamed]
    exact finds_nothing
  | .pair _ e :: es | .spread e :: es => by
    rw [mentionsNamed]
    exact (finds_mentions vars e).append (finds_mentionsNamed vars es)

theorem finds_mentionsEntries (vars : List String) :
    ∀ es : List (Entry Expr Expr), sc.Finds vars (sc.mentionsEntries vars es)
  | [] => by
    rw [mentionsEntries]
    exact finds_nothing
  | .pair k v :: es => by
    have all := (finds_mentions vars k).append
      ((finds_mentions vars v).append (finds_mentionsEntries vars es))
    simpa [mentionsEntries] using all
  | .spread e :: es => by
    rw [mentionsEntries]
    exact (finds_mentions vars e).append (finds_mentionsEntries vars es)

theorem finds_mentionsYield (vars : List String) :
    ∀ y : Yield Expr, sc.Finds vars (sc.mentionsYield vars y)
  | .list a | .set a => by
    rw [mentionsYield]
    exact finds_mentions vars a
  | .map k v => by
    rw [mentionsYield]
    exact (finds_mentions vars k).append (finds_mentions vars v)

theorem finds_mentionsOptional (vars : List String) :
    ∀ o : Option Expr, sc.Finds vars (sc.mentionsOptional vars o)
  | none => by
    rw [mentionsOptional]
    exact finds_nothing
  | some e => by
    rw [mentionsOptional]
    exact finds_mentions vars e

end

/-- Checking an expression fails for unknown names and the like, never for a cycle. -/
theorem blameless_references (body : Option Expr) : Blameless (sc.references body) := by
  unfold references
  cases checked : sc.mentionsOptional [] body with
  | ok names => exact blameless_ok _
  | error problem =>
    exact blameless_error ((sc.finds_mentionsOptional [] body).blameless problem checked)

/-- The names that a definition refers to are those that its check has found. -/
theorem mem_references_iff {body : Option Expr} {deps : List String}
    (h : sc.references body = .ok deps) :
    ∃ names, sc.mentionsOptional [] body = .ok names ∧ ∀ name, name ∈ deps ↔ name ∈ names := by
  obtain ⟨names, found, rfl⟩ := map_eq_ok h
  refine ⟨names, found, fun name ↦ ?_⟩
  rw [Indexed.ofElements_eq, Ordered.ofElements, Ordered.mem_union_iff]
  simp

/-- What a definition refers to is known on the node that it stands in. -/
theorem sees_of_references {body : Option Expr} {deps : List String}
    (h : sc.references body = .ok deps) : ∀ name ∈ deps, sc.sees name = true := by
  obtain ⟨names, found, same⟩ := sc.mem_references_iff h
  intro name hname
  have known := (sc.finds_mentionsOptional [] body).known names found name ((same name).mp hname)
  simpa using known

end Scope

end Formulary
