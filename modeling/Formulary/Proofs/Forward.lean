import Formulary.Proofs.EvalLaws
import Formulary.Proofs.Taking

/-!
# Readers go forward

A reader leaves tokens that were ahead of it. So whatever holds of the tokens of a text holds of
those that are ahead at any time (`Reader.Keeps`), and a name that is read is that of one of them
(`Reader.ensures_ident`). The rules below follow the readers step by step, except that an expression
is taken as a whole.
-/

namespace Formulary.Reader

open Token (Kind)

variable {T : Token → Prop} {α β : Type} {P : α → Prop} {Q : β → Prop}

/-- While all tokens ahead are of some kind, so are those that the reader leaves, and what it
returns is as described. -/
def Ensures (T : Token → Prop) (Q : α → Prop) (r : Reader α) : Prop :=
  ∀ c a c', (∀ t ∈ c.ahead, T t) → r.run c = .ok (a, c') → (∀ t ∈ c'.ahead, T t) ∧ Q a

/-- While all tokens ahead are of some kind, so are those that the reader leaves. -/
abbrev Keeps (T : Token → Prop) (r : Reader α) : Prop := Ensures T (fun _ ↦ True) r

theorem ensures_pure {a : α} (h : P a) : Ensures T P (pure a : Reader α) := by
  intro c b c' all ran
  cases ran
  exact ⟨all, h⟩

theorem keeps_pure (a : α) : Keeps T (pure a : Reader α) := ensures_pure trivial

theorem Ensures.bind {r : Reader α} {f : α → Reader β} (hr : Ensures T P r)
    (hf : ∀ a, P a → Ensures T Q (f a)) : Ensures T Q (r >>= f) := by
  intro c b c' all ran
  obtain ⟨⟨a, c₁⟩, first, rest⟩ := bind_eq_ok ran
  have ⟨all₁, ha⟩ := hr c a c₁ all first
  exact hf a ha c₁ b c' all₁ rest

theorem Keeps.bind {r : Reader α} {f : α → Reader β} (hr : Keeps T r)
    (hf : ∀ a, Ensures T Q (f a)) : Ensures T Q (r >>= f) :=
  Ensures.bind hr fun a _ ↦ hf a

theorem ensures_ite {c : Prop} [Decidable c] {r r' : Reader α} (h : Ensures T P r)
    (h' : Ensures T P r') : Ensures T P (if c then r else r') := by
  split
  · exact h
  · exact h'

/-! ### Single tokens -/

theorem keeps_get : Keeps T (get : Reader Cursor) := by
  intro c a c' all ran
  cases ran
  exact ⟨all, trivial⟩

theorem keeps_kind : Keeps T kind := keeps_get.bind fun _ ↦ keeps_pure _

/-- Unless the end of the file is reached, the current token is ahead. -/
theorem ensures_kind : Ensures T (fun k ↦ k ≠ .eof → ∃ t, T t ∧ t.kind = k) kind := by
  intro c k c' all ran
  cases ran
  refine ⟨all, fun more ↦ ?_⟩
  cases ha : c.ahead with
  | nil =>
    rw [Cursor.current, ha] at more
    exact absurd rfl more
  | cons t ts =>
    refine ⟨t, all t (by simp [ha]), ?_⟩
    rw [Cursor.current, ha]
    rfl

theorem keeps_span : Keeps T span := keeps_get.bind fun _ ↦ keeps_pure _

theorem keeps_previous : Keeps T previous := keeps_get.bind fun _ ↦ keeps_pure _

theorem keeps_remaining : Keeps T remaining := keeps_get.bind fun _ ↦ keeps_pure _

theorem keeps_spanFrom (start : Span) : Keeps T (spanFrom start) :=
  keeps_previous.bind fun _ ↦ keeps_pure _

theorem keeps_atLineEnd : Keeps T atLineEnd :=
  keeps_kind.bind fun _ ↦ keeps_kind.bind fun _ ↦ keeps_pure _

theorem keeps_advance : Keeps T advance := by
  intro c a c' all ran
  cases ran
  exact ⟨fun t ht ↦ all t (c.advance_suffix.subset ht), trivial⟩

theorem ensures_refuse (cause : Refusal.Cause) : Ensures T P (refuse cause : Reader α) :=
  keeps_span.bind fun _ ↦ fun _ _ _ _ ran ↦ by cases ran

theorem ensures_expected (what : String) : Ensures T P (expected what : Reader α) :=
  keeps_kind.bind fun _ ↦ ensures_refuse _

theorem keeps_eat (k : Kind) : Keeps T (eat k) :=
  keeps_kind.bind fun _ ↦ ensures_ite (keeps_advance.bind fun _ ↦ keeps_pure _) (keeps_pure _)

theorem keeps_require (k : Kind) (what : String) : Keeps T (require k what) :=
  (keeps_eat k).bind fun _ ↦ ensures_ite (keeps_pure _) (ensures_expected _)

/-- A capitalised name that is taken is that of a token. -/
theorem ensures_const (what : String) :
    Ensures T (fun name ↦ ∃ t, T t ∧ t.kind = .const name) (const what) := by
  refine ensures_kind.bind fun k hk ↦ ?_
  split
  · next name => exact keeps_advance.bind fun _ ↦ ensures_pure (hk (by simp))
  · exact ensures_expected _

theorem keeps_const (what : String) : Keeps T (const what) :=
  fun c a c' all ran ↦ ⟨(ensures_const what c a c' all ran).1, trivial⟩

/-- So is a lower-case one. -/
theorem ensures_ident (what : String) :
    Ensures T (fun name ↦ ∃ t, T t ∧ t.kind = .ident name) (ident what) := by
  refine ensures_kind.bind fun k hk ↦ ?_
  split
  · next name => exact keeps_advance.bind fun _ ↦ ensures_pure (hk (by simp))
  · exact ensures_expected _

/-! ### Expressions -/

/-- A reader that takes tokens leaves the rest of those that were ahead. -/
theorem keeps_of_takes {r : Reader α} {P : List Token → α → Prop} (h : ∀ c, Takes c r P) :
    Keeps T r := by
  intro c a c' all ran
  obtain ⟨ts, passes, -⟩ := h c a c' ran
  refine ⟨fun t ht ↦ all t ?_, trivial⟩
  rw [passes.ahead]
  exact List.mem_append_right ts ht

theorem keeps_nodePath : Keeps T nodePath := keeps_of_takes takes_nodePath

theorem keeps_expression : Keeps T expression := keeps_of_takes takes_expression

end Formulary.Reader
