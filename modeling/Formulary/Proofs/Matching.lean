import Formulary.Proofs.EvalLaws
import Mathlib.Data.List.Forall2

/-!
# Computations side by side

Two computations match if, from related states, they lead to related states, and either both succeed
with related results or both fail for the same reason. Computations that match step by step match as
a whole.
-/

namespace Formulary

/-- Items that are related have the same images. -/
theorem map_eq_map_of_forall₂ {α β γ : Type} {R : α → β → Prop} {g : α → γ} {h : β → γ}
    {as : List α} {bs : List β} (items : List.Forall₂ R as bs)
    (same : ∀ a b, R a b → g a = h b) : as.map g = bs.map h := by
  induction items with
  | nil => rfl
  | cons first _ ih => rw [List.map_cons, List.map_cons, same _ _ first, ih]

theorem exists_of_forall₂_left {α β : Type} {R : α → β → Prop} {as : List α} {bs : List β} {a : α}
    (items : List.Forall₂ R as bs) (ha : a ∈ as) : ∃ b ∈ bs, R a b := by
  induction items with
  | nil => cases ha
  | cons first _ ih =>
    rcases List.mem_cons.mp ha with rfl | later
    · exact ⟨_, List.mem_cons_self, first⟩
    · obtain ⟨b, hb, rel⟩ := ih later
      exact ⟨b, List.mem_cons_of_mem _ hb, rel⟩

theorem rel_getElem? {α β : Type} {R : α → β → Prop} {as : List α} {bs : List β}
    (items : List.Forall₂ R as bs) (i : Nat) : Option.Rel R as[i]? bs[i]? := by
  induction items generalizing i with
  | nil => exact .none
  | cons first _ ih =>
    cases i with
    | zero => exact .some first
    | succ i => exact ih i

/-- Two options are related if there is nothing in either, or what is in them is related. -/
theorem rel_cases {α β : Type} {R : α → β → Prop} {a : Option α} {b : Option β}
    (rel : Option.Rel R a b) :
    (a = none ∧ b = none) ∨ ∃ x y, a = some x ∧ b = some y ∧ R x y := by
  cases rel with
  | none => exact .inl ⟨rfl, rfl⟩
  | some rel => exact .inr ⟨_, _, rfl, rfl, rel⟩

theorem map_eq_map_of_rel {α β γ : Type} {R : α → β → Prop} {g : α → γ} {h : β → γ}
    {a : Option α} {b : Option β} (rel : Option.Rel R a b) (same : ∀ a b, R a b → g a = h b) :
    a.map g = b.map h := by
  cases rel with
  | none => rfl
  | some rel => exact congrArg some (same _ _ rel)

/-! ### Results -/

section

variable {ε ε' α β γ δ : Type}

/-- Both succeed, with related results, or both fail for the same reason. -/
inductive Agree (P : α → β → Prop) : Except ε α → Except ε β → Prop where
  | ok {a : α} {b : β} (h : P a b) : Agree P (.ok a) (.ok b)
  | error (e : ε) : Agree P (.error e) (.error e)

namespace Agree

variable {P : α → β → Prop} {Q : γ → δ → Prop} {x : Except ε α} {y : Except ε β}

theorem imp {P' : α → β → Prop} (h : Agree P x y) (weaker : ∀ a b, P a b → P' a b) :
    Agree P' x y := by
  cases h with
  | ok h => exact .ok (weaker _ _ h)
  | error e => exact .error e

theorem bind {f : α → Except ε γ} {g : β → Except ε δ} (h : Agree P x y)
    (next : ∀ a b, P a b → Agree Q (f a) (g b)) : Agree Q (x >>= f) (y >>= g) := by
  cases h with
  | ok h => exact next _ _ h
  | error e => exact .error e

theorem map {f : α → γ} {g : β → δ} (h : Agree P x y) (next : ∀ a b, P a b → Q (f a) (g b)) :
    Agree Q (x.map f) (y.map g) := by
  cases h with
  | ok h => exact .ok (next _ _ h)
  | error e => exact .error e

theorem mapError (h : Agree P x y) (f : ε → ε') : Agree P (x.mapError f) (y.mapError f) := by
  cases h with
  | ok h => exact .ok h
  | error e => exact .error (f e)

theorem refl (x : Except ε α) : Agree Eq x x := by
  cases x with
  | ok a => exact .ok rfl
  | error e => exact .error e

theorem eq {x y : Except ε α} (h : Agree Eq x y) : x = y := by
  cases h with
  | ok same => rw [same]
  | error e => rfl

theorem exists_right {a : α} (h : Agree P (.ok a) y) : ∃ b, y = .ok b ∧ P a b := by
  cases h with
  | ok h => exact ⟨_, rfl, h⟩

end Agree

end

/-! ### Computations -/

section

variable {ε ρ ρ' α β γ δ : Type}

/-- From related states, two computations agree and lead to related states. -/
def Matches (I : ρ → ρ' → Prop) (P : α → β → Prop) (x : ExceptT ε (StateM ρ) α)
    (y : ExceptT ε (StateM ρ') β) : Prop :=
  ∀ r r', I r r' →
    Agree P (x.run.run r).1 (y.run.run r').1 ∧ I (x.run.run r).2 (y.run.run r').2

variable {I : ρ → ρ' → Prop} {P : α → β → Prop} {Q : γ → δ → Prop}
  {x : ExceptT ε (StateM ρ) α} {y : ExceptT ε (StateM ρ') β}

theorem matches_pure {a : α} {b : β} (h : P a b) :
    Matches I P (pure a : ExceptT ε (StateM ρ) α) (pure b : ExceptT ε (StateM ρ') β) :=
  fun _ _ related ↦ ⟨.ok h, related⟩

theorem matches_throw (e : ε) :
    Matches I P (throw e : ExceptT ε (StateM ρ) α) (throw e : ExceptT ε (StateM ρ') β) :=
  fun _ _ related ↦ ⟨.error e, related⟩

namespace Matches

theorem imp {P' : α → β → Prop} (h : Matches I P x y) (weaker : ∀ a b, P a b → P' a b) :
    Matches I P' x y :=
  fun r r' related ↦ ⟨(h r r' related).1.imp weaker, (h r r' related).2⟩

theorem bind {f : α → ExceptT ε (StateM ρ) γ} {g : β → ExceptT ε (StateM ρ') δ}
    (h : Matches I P x y) (next : ∀ a b, P a b → Matches I Q (f a) (g b)) :
    Matches I Q (x >>= f) (y >>= g) := by
  intro r r' related
  rw [run_bind, run_bind]
  obtain ⟨agree, related'⟩ := h r r' related
  cases hx : x.run.run r with
  | mk result q =>
    cases hy : y.run.run r' with
    | mk result' q' =>
      rw [hx, hy] at agree related'
      cases agree with
      | ok hab => exact next _ _ hab q q' related'
      | error e => exact ⟨.error e, related'⟩

/-- What is done about a failure may depend on the reason alone. -/
theorem tryCatch {handle : ε → ExceptT ε (StateM ρ) α} {handle' : ε → ExceptT ε (StateM ρ') β}
    (h : Matches I P x y) (handles : ∀ e, Matches I P (handle e) (handle' e)) :
    Matches I P (tryCatch x handle) (tryCatch y handle') := by
  intro r r' related
  rw [run_tryCatch, run_tryCatch]
  obtain ⟨agree, related'⟩ := h r r' related
  cases hx : x.run.run r with
  | mk result q =>
    cases hy : y.run.run r' with
    | mk result' q' =>
      rw [hx, hy] at agree related'
      cases agree with
      | ok hab => exact ⟨.ok hab, related'⟩
      | error e => exact handles e q q' related'

theorem mapM {f : α → ExceptT ε (StateM ρ) γ} {g : β → ExceptT ε (StateM ρ') δ} {as : List α}
    {bs : List β} (items : List.Forall₂ P as bs) (h : ∀ a b, P a b → Matches I Q (f a) (g b)) :
    Matches I (List.Forall₂ Q) (as.mapM f) (bs.mapM g) := by
  induction items with
  | nil => exact matches_pure .nil
  | cons first _ ih =>
    rw [List.mapM_cons, List.mapM_cons]
    exact (h _ _ first).bind fun _ _ here ↦ ih.bind fun _ _ later ↦ matches_pure (.cons here later)

theorem filterMapM {f : α → ExceptT ε (StateM ρ) (Option γ)}
    {g : β → ExceptT ε (StateM ρ') (Option δ)} {as : List α} {bs : List β}
    (items : List.Forall₂ P as bs) (h : ∀ a b, P a b → Matches I (Option.Rel Q) (f a) (g b)) :
    Matches I (List.Forall₂ Q) (as.filterMapM f) (bs.filterMapM g) := by
  induction items with
  | nil => exact matches_pure .nil
  | cons first _ ih =>
    rw [List.filterMapM_cons, List.filterMapM_cons]
    refine (h _ _ first).bind fun _ _ here ↦ ?_
    cases here with
    | none => exact ih
    | some here => exact ih.bind fun _ _ later ↦ matches_pure (.cons here later)

end Matches

end

end Formulary
