import Formulary.Method
import Formulary.Proofs.StableSort
import Mathlib.Data.List.FinRange
import Mathlib.Data.Quot

/-!
# Sorting values

Values that are sorted are put in another order and nothing else (`Method.perm_of_sortItems`). If
sorting fails, it is because a comparison failed, or because it broke off
(`Method.arrange_eq_error`).
-/

namespace Formulary

namespace Sorting

variable {ε : Type}

/-- How computations that note failures may end: with one of these failures noted, broken off if
that may be, and otherwise with a result of some kind. -/
structure EndsIn (failure : ε → Prop) (broken : Prop) {β : Type} (P : β → Prop)
    (outcome : Option β × Option ε) : Prop where
  failures : ∀ f, outcome.2 = some f → failure f
  breaks : outcome.1 = none → broken
  results : ∀ b, outcome.1 = some b → P b

/-- What computations give that may end in these ways. -/
def outcomes (failure : ε → Prop) (broken : Prop) : Lifting (Noting ε) where
  Gives P x := EndsIn failure broken P (x.run none)
  gives_pure hb := ⟨fun f h ↦ (by cases h), fun h ↦ (by cases h), fun b h ↦ (by cases h; exact hb)⟩
  gives_bind := by
    intro β γ P R x f hx hf
    rcases h : x.run none with ⟨_ | b, noted⟩
    · rw [h] at hx
      rw [Noting.run_bind_none h]
      exact ⟨hx.failures, fun _ ↦ hx.breaks rfl, fun c h ↦ by cases h⟩
    · rw [h] at hx
      have next := hf b (hx.results b rfl)
      rw [Noting.run_bind_some h, (f b).run_eq]
      refine ⟨fun failed noted_either ↦ ?_, next.breaks, next.results⟩
      rcases Option.or_eq_some_iff.mp noted_either with first | second
      · exact hx.failures failed first
      · exact next.failures failed second.2
  gives_mono hx h := ⟨hx.failures, hx.breaks, fun b hb ↦ h b (hx.results b hb)⟩

/-- What computations give that come to an end without noting a failure. -/
def unmarred : Lifting (Noting ε) where
  Gives P x := ∀ b, x.run none = (some b, none) → P b
  gives_pure hb := by
    intro b h
    cases h
    exact hb
  gives_bind := by
    intro β γ P R x f hx hf c hc
    rcases h : x.run none with ⟨_ | b, noted⟩
    · rw [Noting.run_bind_none h] at hc
      cases hc
    · rw [Noting.run_bind_some h, (f b).run_eq] at hc
      obtain ⟨result, failed⟩ := Prod.mk.inj hc
      obtain ⟨rfl, failed⟩ := Option.or_eq_none_iff.mp failed
      exact hf b (hx b h) c (Prod.ext result failed)
  gives_mono hx h := fun b hb ↦ h b (hx b hb)

section

variable {α : Type} {m : Type → Type} [Monad m] {L : Lifting m} {less : α → α → m Bool}
  (hless : ∀ x y, L.Gives (fun _ ↦ True) (less x y))

include hless

/-- Every comparison goes by the ranking that has all items level. -/
theorem compares_level : Compares L (.level trueSetoid) less := by
  refine fun x y ↦ (hless x y).mono fun b _ ↦ ?_
  cases b with
  | true | false => exact trivial

/-- Whatever a comparison says, sorting by it loses nothing and makes up nothing. -/
theorem gives_perm [BreaksOff m] (hbreak : ∀ P : List α → Prop, L.Gives P breakOff)
    (items : List α) : L.Gives (·.Perm items) (stableSort less items) :=
  (gives_stableSort (compares_level hless) (fun _ ↦ hbreak) items).mono fun _ h ↦ h.perm

end

end Sorting

namespace Method

variable {n : Nat} {item : Fin n → Value}

/-- What comes of comparing all that has to be compared. -/
abbrev sorting (item : Fin n → Value) : Option (List (Fin n)) × Option Fault :=
  (Sorting.stableSort (isLess item) (List.finRange n)).run none

theorem arrange_eq_ok_iff {out : List Value} :
    arrange item = .ok out ↔
      ∃ places, sorting item = (some places, none) ∧ places.map item = out := by
  unfold arrange
  constructor
  · intro h
    split at h
    · cases h
    · cases h
    · next places sorted => exact ⟨places, sorted, Except.ok.inj h⟩
  · rintro ⟨places, sorted, rfl⟩
    rw [sorting] at sorted
    rw [sorted]

theorem arrange_eq_error {stop : Stop} (h : arrange item = .error stop) :
    (sorting item).1 = none ∧ stop = .disorder ∨
      ∃ fault, (sorting item).2 = some fault ∧ stop = .fault fault := by
  unfold arrange at h
  split at h
  · next broken =>
    cases h
    exact .inl ⟨by rw [sorting, broken], rfl⟩
  · next noted =>
    cases h
    exact .inr ⟨_, by rw [sorting, noted], rfl⟩
  · cases h

theorem arrange_congr {k : Nat} {other : Fin k → Value} (size : n = k)
    (same : ∀ i, item i = other (i.cast size)) : arrange item = arrange other := by
  subst size
  exact congrArg arrange (funext same)

/-- The faults of comparisons. -/
def Incomparable (item : Fin n → Value) (fault : Fault) : Prop :=
  ∃ i j, Value.order "sort" (item i) (item j) = .error fault

/-- What a comparison says, and what it notes. -/
theorem endsIn_isLess {P : Bool → Prop} {i j : Fin n} (broken : Prop)
    (fails : ∀ fault, Value.order "sort" (item i) (item j) = .error fault → P false)
    (compares : ∀ o, Value.order "sort" (item i) (item j) = .ok o → P (o == .lt)) :
    (Sorting.outcomes (Incomparable item) broken).Gives P (isLess item i j) := by
  change Sorting.EndsIn _ _ _ ((isLess item i j).run none)
  cases h : Value.order "sort" (item i) (item j) with
  | ok o =>
    have run : (isLess item i j).run none = (some (o == .lt), none) := by
      rw [isLess, h]
      rfl
    rw [run]
    refine ⟨fun f eq ↦ ?_, fun eq ↦ ?_, fun b eq ↦ ?_⟩
    all_goals cases eq
    exact compares o h
  | error fault =>
    have run : (isLess item i j).run none = (some false, some fault) := by
      rw [isLess, h]
      rfl
    rw [run]
    refine ⟨fun f eq ↦ ?_, fun eq ↦ ?_, fun b eq ↦ ?_⟩
    all_goals cases eq
    · exact ⟨i, j, h⟩
    · exact fails fault h

/-- Comparisons note what they fail with, and go on. -/
theorem gives_isLess (item : Fin n → Value) (broken : Prop) (i j : Fin n) :
    (Sorting.outcomes (Incomparable item) broken).Gives (fun _ ↦ True) (isLess item i j) :=
  endsIn_isLess broken (fun _ _ ↦ trivial) fun _ _ ↦ trivial

/-- Sorting puts the places in another order, and notes what comparisons failed with. -/
theorem endsIn_sorting (item : Fin n → Value) :
    Sorting.EndsIn (Incomparable item) True (·.Perm (List.finRange n)) (sorting item) := by
  refine Sorting.gives_perm (gives_isLess item True) (fun P ↦ ?_) (List.finRange n)
  refine ⟨fun f eq ↦ ?_, fun _ ↦ trivial, fun b eq ↦ ?_⟩
  all_goals cases eq

theorem perm_of_arrange {out : List Value} (h : arrange item = .ok out) :
    out.Perm ((List.finRange n).map item) := by
  obtain ⟨places, sorted, rfl⟩ := arrange_eq_ok_iff.mp h
  exact ((endsIn_sorting item).results places (by rw [sorted])).map item

/-- Sorting fails with what a comparison failed with, or because it broke off. -/
theorem incomparable_of_arrange {stop : Stop} (h : arrange item = .error stop) :
    stop = .disorder ∨ ∃ fault, stop = .fault fault ∧ Incomparable item fault := by
  rcases arrange_eq_error h with broken | ⟨fault, noted, rfl⟩
  · exact .inl broken.2
  · exact .inr ⟨fault, rfl, (endsIn_sorting item).failures fault noted⟩

theorem sortItems_eq (items : List Value) :
    sortItems items = arrange fun i : Fin items.length ↦ items[i] := rfl

/-- A sorted list has the items of the list. -/
theorem perm_of_sortItems {items out : List Value} (h : sortItems items = .ok out) :
    out.Perm items := by
  rw [sortItems_eq] at h
  calc out.Perm ((List.finRange items.length).map items.get) := perm_of_arrange h
    _ |>.Perm items := by rw [List.map_get_finRange]

end Method

end Formulary
