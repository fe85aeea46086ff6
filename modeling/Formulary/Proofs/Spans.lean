import Formulary.Proofs.Spelling
import Formulary.Scope.Check
import Formulary.Scope.Lower

/-!
# Spans mean nothing

What an expression mentions, and its code, do not depend on where the expression was read. What it
mentions depends on the scope only by the names that are known there (`Scope.Concurs`).
-/

namespace Formulary.Scope

/-- Two scopes know the same names and paths, and the same functions. -/
structure Concurs (sc sc' : Scope) : Prop where
  sees : ∀ name, sc.sees name = sc'.sees name
  path : ∀ p, sc.mentions [] (.path default p) = sc'.mentions [] (.path default p)
  function : ∀ p name count, sc.checkFunction p name count = sc'.checkFunction p name count

namespace Concurs

theorem refl (sc : Scope) : sc.Concurs sc := ⟨fun _ ↦ rfl, fun _ ↦ rfl, fun _ _ _ ↦ rfl⟩

variable {sc sc' : Scope}

mutual

theorem mentions_plain (h : sc.Concurs sc') (vars : List String) : ∀ e : Expr,
    sc.mentions vars e.plain = sc'.mentions vars e
  | .literal _ _ | .params _ => by simp only [Expr.plain, mentions]
  | .ident _ name => by simp only [Expr.plain, mentions, h.sees]
  | .path _ p => by simpa only [Expr.plain, mentions] using h.path p
  | .unary _ _ a | .attr _ a _ => by simp only [Expr.plain, mentions, mentions_plain h vars a]
  | .binary _ _ a b => by
    simp only [Expr.plain, mentions, mentions_plain h vars a, mentions_plain h vars b]
  | .cond _ a b c => by
    simp only [Expr.plain, mentions, mentions_plain h vars a, mentions_plain h vars b,
      mentions_plain h vars c]
  | .index _ a args => by
    simp only [Expr.plain, mentions, mentions_plain h vars a, mentionsAll_plain h vars args]
  | .method _ a name args => by
    have ha := mentions_plain h vars a
    have has := mentionsAll_plain h vars args
    by_cases path : ∃ s p, a = .path s p
    · obtain ⟨s, p, rfl⟩ := path
      simp only [Expr.plain, mentions, has, h.function, Expr.length_plainAll]
    · rw [Expr.plain, mentions, mentions, ha, has]
      · intro s p here
        exact path ⟨s, p, here⟩
      · intro s p here
        obtain ⟨s', here'⟩ := Expr.eq_path_of_plain here
        exact path ⟨s', p, here'⟩
  | .call _ a args => by
    simp only [Expr.plain, mentions, mentions_plain h vars a, mentionsNamed_plain h vars args]
  | .raise _ items | .list _ items | .set _ items => by
    simp only [Expr.plain, mentions, mentionsAll_plain h vars items]
  | .map _ entries => by
    simp only [Expr.plain, mentions, mentionsEntries_plain h vars entries]
  | .comprehension _ yield binding source filter => by
    simp only [Expr.plain, mentions, mentions_plain h vars source, mentionsYield_plain h _ yield,
      mentionsOptional_plain h _ filter]

theorem mentionsAll_plain (h : sc.Concurs sc') (vars : List String) : ∀ es : List Expr,
    sc.mentionsAll vars (Expr.plainAll es) = sc'.mentionsAll vars es
  | [] => rfl
  | e :: es => by
    simp only [Expr.plainAll, mentionsAll, mentions_plain h vars e, mentionsAll_plain h vars es]

theorem mentionsNamed_plain (h : sc.Concurs sc') (vars : List String) :
    ∀ es : List (Entry String Expr),
      sc.mentionsNamed vars (Expr.plainNamed es) = sc'.mentionsNamed vars es
  | [] => rfl
  | .pair _ e :: es | .spread e :: es => by
    simp only [Expr.plainNamed, mentionsNamed, mentions_plain h vars e,
      mentionsNamed_plain h vars es]

theorem mentionsEntries_plain (h : sc.Concurs sc') (vars : List String) :
    ∀ es : List (Entry Expr Expr),
      sc.mentionsEntries vars (Expr.plainEntries es) = sc'.mentionsEntries vars es
  | [] => rfl
  | .pair k v :: es => by
    simp only [Expr.plainEntries, mentionsEntries, mentions_plain h vars k, mentions_plain h vars v,
      mentionsEntries_plain h vars es]
  | .spread e :: es => by
    simp only [Expr.plainEntries, mentionsEntries, mentions_plain h vars e,
      mentionsEntries_plain h vars es]

theorem mentionsYield_plain (h : sc.Concurs sc') (vars : List String) : ∀ y : Yield Expr,
    sc.mentionsYield vars (Expr.plainYield y) = sc'.mentionsYield vars y
  | .list a | .set a => by simp only [Expr.plainYield, mentionsYield, mentions_plain h vars a]
  | .map k v => by
    simp only [Expr.plainYield, mentionsYield, mentions_plain h vars k, mentions_plain h vars v]

theorem mentionsOptional_plain (h : sc.Concurs sc') (vars : List String) : ∀ o : Option Expr,
    sc.mentionsOptional vars (Expr.plainFilter o) = sc'.mentionsOptional vars o
  | none => rfl
  | some e => by simp only [Expr.plainFilter, mentionsOptional, mentions_plain h vars e]

end

/-- A definition refers to the same in both scopes, or is refused for the same reason. -/
theorem references (h : sc.Concurs sc') (body : Option Expr) :
    sc.references body = sc'.references body := by
  rw [Scope.references, Scope.references, ← (refl sc).mentionsOptional_plain,
    h.mentionsOptional_plain]

end Concurs

variable (sc : Scope)

mutual

theorem lower_plain (vars : List String) : ∀ e : Expr, sc.lower vars e.plain = sc.lower vars e
  | .literal _ _ | .ident _ _ | .params _ | .path _ _ => by simp only [Expr.plain, lower]
  | .unary _ _ a | .attr _ a _ => by simp only [Expr.plain, lower, lower_plain vars a]
  | .binary _ _ a b => by
    simp only [Expr.plain, lower, lower_plain vars a, lower_plain vars b]
  | .cond _ a b c => by
    simp only [Expr.plain, lower, lower_plain vars a, lower_plain vars b, lower_plain vars c]
  | .index _ a args => by
    simp only [Expr.plain, lower, lower_plain vars a, lowerAll_plain vars args]
  | .method _ a name args => by
    have ha := lower_plain vars a
    have has := lowerAll_plain vars args
    by_cases path : ∃ s p, a = .path s p
    · obtain ⟨s, p, rfl⟩ := path
      simp only [Expr.plain, lower, has]
    · rw [Expr.plain, lower, lower, ha, has]
      · intro s p h
        exact path ⟨s, p, h⟩
      · intro s p h
        obtain ⟨s', h'⟩ := Expr.eq_path_of_plain h
        exact path ⟨s', p, h'⟩
  | .call _ a args => by
    simp only [Expr.plain, lower, lower_plain vars a, lowerNamed_plain vars args]
  | .raise _ items | .list _ items | .set _ items => by
    simp only [Expr.plain, lower, lowerAll_plain vars items]
  | .map _ entries => by
    simp only [Expr.plain, lower, lowerEntries_plain vars entries]
  | .comprehension _ yield binding source filter => by
    simp only [Expr.plain, lower, lower_plain vars source, lowerYield_plain _ yield,
      lowerOptional_plain _ filter]

theorem lowerAll_plain (vars : List String) : ∀ es : List Expr,
    sc.lowerAll vars (Expr.plainAll es) = sc.lowerAll vars es
  | [] => rfl
  | e :: es => by
    simp only [Expr.plainAll, lowerAll, lower_plain vars e, lowerAll_plain vars es]

theorem lowerNamed_plain (vars : List String) : ∀ es : List (Entry String Expr),
    sc.lowerNamed vars (Expr.plainNamed es) = sc.lowerNamed vars es
  | [] => rfl
  | .pair _ e :: es | .spread e :: es => by
    simp only [Expr.plainNamed, lowerNamed, lower_plain vars e, lowerNamed_plain vars es]

theorem lowerEntries_plain (vars : List String) : ∀ es : List (Entry Expr Expr),
    sc.lowerEntries vars (Expr.plainEntries es) = sc.lowerEntries vars es
  | [] => rfl
  | .pair k v :: es => by
    simp only [Expr.plainEntries, lowerEntries, lower_plain vars k, lower_plain vars v,
      lowerEntries_plain vars es]
  | .spread e :: es => by
    simp only [Expr.plainEntries, lowerEntries, lower_plain vars e, lowerEntries_plain vars es]

theorem lowerYield_plain (vars : List String) : ∀ y : Yield Expr,
    sc.lowerYield vars (Expr.plainYield y) = sc.lowerYield vars y
  | .list a | .set a => by simp only [Expr.plainYield, lowerYield, lower_plain vars a]
  | .map k v => by
    simp only [Expr.plainYield, lowerYield, lower_plain vars k, lower_plain vars v]

theorem lowerOptional_plain (vars : List String) : ∀ o : Option Expr,
    sc.lowerOptional vars (Expr.plainFilter o) = sc.lowerOptional vars o
  | none => rfl
  | some e => by simp only [Expr.plainFilter, lowerOptional, lower_plain vars e]

end

end Formulary.Scope
