import Formulary.Sorting

/-!
# Comparisons that can fail

Sorting goes on after a comparison that fails, as if neither item were less, and the first failure
is noted. Computations of this kind depend on nothing that was noted before, and keep it.
-/

namespace Formulary.Sorting

/-- Computations that note the first failure of kind `ε` and go on, and that can break off. -/
structure Noting (ε β : Type) where
  /-- From what was noted before to the result, unless this broke off, and what is noted then. -/
  run : Option ε → Option β × Option ε
  run_eq : ∀ noted, run noted = ((run none).1, noted.or (run none).2)

namespace Noting

variable {ε β γ : Type}

/-- Notes a failure, if none was noted before, and goes on with a result. -/
@[always_inline, inline] def note (failure : ε) (b : β) : Noting ε β where
  run noted := (some b, noted.or (some failure))
  run_eq _ := rfl

/-- The result, or the default for one that is missing because of a failure. -/
@[always_inline, inline] def ofExcept (default : β) : Except ε β → Noting ε β
  | .error failure => note failure default
  | .ok b => { run := fun noted ↦ (some b, noted), run_eq := by simp }

/-- Does `x` and then, unless it broke off, what follows from its result. -/
@[always_inline, inline] def bind (x : Noting ε β) (f : β → Noting ε γ) : Noting ε γ where
  run noted :=
    match x.run noted with
    | (some b, noted) => (f b).run noted
    | (none, noted) => (none, noted)
  run_eq noted := by
    rw [x.run_eq noted]
    obtain ⟨result, first⟩ := x.run none
    cases result with
    | none => rfl
    | some b =>
      dsimp only
      rw [(f b).run_eq (noted.or first), (f b).run_eq first, Option.or_assoc]

instance : Monad (Noting ε) where
  pure b := ofExcept b (.ok b)
  bind := bind

instance : BreaksOff (Noting ε) where
  breakOff := { run := fun noted ↦ (none, noted), run_eq := by simp }

section

variable {x : Noting ε β} {f : β → Noting ε γ} {before after : Option ε}

theorem run_bind_some {b : β} (h : x.run before = (some b, after)) :
    (x >>= f).run before = (f b).run after := by
  change (bind x f).run before = _
  simp [bind, h]

theorem run_bind_none (h : x.run before = (none, after)) :
    (x >>= f).run before = (none, after) := by
  change (bind x f).run before = _
  simp [bind, h]

end

end Noting

end Formulary.Sorting
