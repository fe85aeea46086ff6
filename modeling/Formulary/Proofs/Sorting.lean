import Formulary.Sorting
import Mathlib.Data.List.Basic
import Mathlib.Data.List.Pairwise

/-!
# Sorting small pieces

What is shown of sorting is shown for any kind of computation and any statement about its results
that is kept when computations are put together (`Sorting.Lifting`), and for any ranking that the
comparison goes by (`Sorting.Ranking`). A ranking need be no order: under the one by which all items
of a kind are level, a list that is sorted holds items of one kind. Under a proper one, merging from
both ends meets in the middle, and sorting does not break off.
-/

namespace Formulary.Sorting

variable {α : Type} {m : Type → Type} [Monad m]

/-! ### What computations give -/

/-- A way to say of computations that they give results of some kind, which follows for those that
are put together. -/
structure Lifting (m : Type → Type) [Monad m] where
  Gives : {β : Type} → (β → Prop) → m β → Prop
  gives_pure : ∀ {β : Type} {P : β → Prop} {b : β}, P b → Gives P (pure b)
  gives_bind : ∀ {β γ : Type} {P : β → Prop} {R : γ → Prop} {x : m β} {f : β → m γ},
    Gives P x → (∀ b, P b → Gives R (f b)) → Gives R (x >>= f)
  gives_mono : ∀ {β : Type} {P R : β → Prop} {x : m β}, Gives P x → (∀ b, P b → R b) → Gives R x

namespace Lifting

variable {L : Lifting m} {β γ : Type} {P : β → Prop} {R : γ → Prop}

theorem Gives.bind {x : m β} {f : β → m γ} (hx : L.Gives P x) (hf : ∀ b, P b → L.Gives R (f b)) :
    L.Gives R (x >>= f) :=
  L.gives_bind hx hf

theorem Gives.mono {P' : β → Prop} {x : m β} (hx : L.Gives P x) (h : ∀ b, P b → P' b) :
    L.Gives P' x :=
  L.gives_mono hx h

theorem gives_ite {c : Prop} [Decidable c] {x y : m β} (hx : c → L.Gives P x)
    (hy : ¬c → L.Gives P y) : L.Gives P (if c then x else y) := by
  split
  · next h => exact hx h
  · next h => exact hy h

end Lifting

open Lifting (gives_ite)

/-! ### What comparisons go by -/

/-- What a comparison goes by: items that may stand before others, and items that must. -/
structure Ranking (α : Type) where
  Le : α → α → Prop
  Lt : α → α → Prop
  le_refl : ∀ x, Le x x
  le_trans : ∀ {x y z}, Le x y → Le y z → Le x z
  le_of_lt : ∀ {x y}, Lt x y → Le x y
  lt_of_lt_of_le : ∀ {x y z}, Lt x y → Le y z → Lt x z
  lt_of_le_of_lt : ∀ {x y z}, Le x y → Lt y z → Lt x z

namespace Ranking

variable (K : Ranking α)

/-- The ranking by which all items of a kind are level. -/
def level (kind : Setoid α) : Ranking α where
  Le := kind.r
  Lt := kind.r
  le_refl := kind.refl
  le_trans := kind.trans
  le_of_lt := id
  lt_of_lt_of_le := kind.trans
  lt_of_le_of_lt := kind.trans

/-- The ranking by keys. -/
def byKey {κ : Type} [Ord κ] [Std.TransOrd κ] (key : α → κ) : Ranking α where
  Le x y := (compare (key x) (key y)).isLE = true
  Lt x y := compare (key x) (key y) = .lt
  le_refl _ := Std.ReflCmp.isLE_rfl
  le_trans := Std.TransCmp.isLE_trans
  le_of_lt h := by rw [h]; rfl
  lt_of_lt_of_le := Std.TransCmp.lt_of_lt_of_isLE
  lt_of_le_of_lt := Std.TransCmp.lt_of_isLE_of_lt

/-- An item that must stand before another one may not stand after it. -/
def Proper : Prop := ∀ x y, K.Lt x y → ¬K.Le y x

theorem proper_byKey {κ : Type} [Ord κ] [Std.TransOrd κ] (key : α → κ) : (byKey key).Proper :=
  fun _ _ ↦ Std.OrientedCmp.not_isLE_of_lt

/-- What the answer to whether `x` is less than `y` tells. -/
def Tells (x y : α) (less : Bool) : Prop := if less then K.Lt x y else K.Le y x

theorem tells_byKey {κ : Type} [Ord κ] [Std.TransOrd κ] (key : α → κ) (x y : α) :
    (byKey key).Tells x y (compare (key x) (key y) == .lt) := by
  cases h : compare (key x) (key y) with
  | lt => exact h
  | eq | gt =>
    refine Std.OrientedCmp.isGE_iff_isLE.mp ?_
    rw [h]
    rfl

/-- Later items may not stand after earlier ones. -/
abbrev Ge (x y : α) : Prop := K.Le y x

/-- A list in order. -/
abbrev Sorted (items : List α) : Prop := items.Pairwise K.Le

/-- The items of a list, in order. -/
structure Sorts (items out : List α) : Prop where
  perm : out.Perm items
  sorted : K.Sorted out

/-- The items of a list, in reverse order. -/
structure Stacks (items out : List α) : Prop where
  perm : out.Perm items
  sorted : out.Pairwise K.Ge

variable {K}

theorem Tells.eq_true {x y : α} (h : K.Tells x y true) : K.Lt x y := h

theorem Tells.eq_false {x y : α} (h : K.Tells x y false) : K.Le y x := h

theorem sorted_append {xs ys : List α} :
    K.Sorted (xs ++ ys) ↔ K.Sorted xs ∧ K.Sorted ys ∧ ∀ x ∈ xs, ∀ y ∈ ys, K.Le x y :=
  List.pairwise_append

theorem sorted_reverse {xs : List α} : K.Sorted xs.reverse ↔ xs.Pairwise K.Ge :=
  List.pairwise_reverse

theorem sorted_of_length_lt_two {xs : List α} (h : xs.length < 2) : K.Sorted xs := by
  rcases xs with _ | ⟨x, _ | ⟨y, rest⟩⟩
  · exact .nil
  · exact List.pairwise_singleton _ _
  · simp only [List.length_cons] at h
    omega

/-- Items that are sorted by a ranking that has them level are of one kind. -/
theorem related_of_sorted_level {kind : Setoid α} {xs : List α} (h : (level kind).Sorted xs)
    {x y : α} (hx : x ∈ xs) (hy : y ∈ xs) : kind.r x y := by
  have symmetric : Std.Symm (level kind).Le := ⟨fun _ _ ↦ kind.symm⟩
  have self : ∀ x ∈ xs, (level kind).Le x x := fun x _ ↦ kind.refl x
  exact List.Pairwise.forall_of_forall self h hx hy

/-- Lists one after the other are in order if something stands between them. -/
theorem sorted_append_of_between {xs ys : List α} {p : α} (hx : K.Sorted xs) (hy : K.Sorted ys)
    (below : ∀ x ∈ xs, K.Le x p) (above : ∀ y ∈ ys, K.Le p y) : K.Sorted (xs ++ ys) :=
  sorted_append.mpr ⟨hx, hy, fun x hx y hy ↦ K.le_trans (below x hx) (above y hy)⟩

end Ranking

variable {L : Lifting m} {K : Ranking α} {less : α → α → m Bool}

/-- A comparison goes by a ranking. -/
abbrev Compares (L : Lifting m) (K : Ranking α) (less : α → α → m Bool) : Prop :=
  ∀ x y, L.Gives (K.Tells x y) (less x y)

/-! ### Insertion -/

section

variable (hless : Compares L K less)

include hless

/-- An item finds its place among those that are sorted already, in reverse. -/
theorem gives_insertLast {x : α} {sorted : List α} (hs : sorted.Pairwise K.Ge) :
    L.Gives (K.Stacks (x :: sorted)) (insertLast less x sorted) := by
  induction sorted with
  | nil => exact L.gives_pure ⟨.refl _, List.pairwise_singleton _ _⟩
  | cons y rest ih =>
    obtain ⟨hy, hrest⟩ := List.pairwise_cons.mp hs
    rw [insertLast]
    refine (hless x y).bind fun b tells ↦ ?_
    cases b with
    | true =>
      refine (ih hrest).bind fun out h ↦ L.gives_pure ⟨?_, ?_⟩
      · exact (h.perm.cons y).trans (.swap x y rest)
      · refine List.pairwise_cons.mpr ⟨fun z hz ↦ ?_, h.sorted⟩
        rcases List.mem_cons.mp (h.perm.mem_iff.mp hz) with rfl | hz
        · exact K.le_of_lt tells.eq_true
        · exact hy z hz
    | false =>
      refine L.gives_pure ⟨.refl _, List.pairwise_cons.mpr ⟨fun z hz ↦ ?_, hs⟩⟩
      rcases List.mem_cons.mp hz with rfl | hz
      · exact tells.eq_false
      · exact K.le_trans (hy z hz) tells.eq_false

theorem gives_insertAll {sorted : List α} (items : List α) (hs : sorted.Pairwise K.Ge) :
    L.Gives (K.Stacks (sorted ++ items)) (insertAll less sorted items) := by
  unfold insertAll
  induction items generalizing sorted with
  | nil => exact L.gives_pure ⟨by rw [List.append_nil], hs⟩
  | cons x items ih =>
    rw [List.foldlM_cons]
    refine (gives_insertLast hless hs).bind fun longer one ↦ ?_
    refine (ih one.sorted).mono fun out h ↦ ⟨?_, h.sorted⟩
    calc out.Perm (longer ++ items) := h.perm
      _ |>.Perm (x :: sorted ++ items) := one.perm.append_right items
      _ |>.Perm (sorted ++ x :: items) := List.perm_middle.symm

theorem gives_insertionSort (items : List α) : L.Gives (K.Sorts items) (insertionSort less items) :=
  (gives_insertAll hless items .nil).bind fun out h ↦
    L.gives_pure ⟨out.reverse_perm.trans h.perm, Ranking.sorted_reverse.mpr h.sorted⟩

/-! ### Small pieces -/

omit hless in
/-- Two items, swapped if the comparison of the second with the first says so. -/
theorem sorted_swap {x y : α} {swap : Bool} (tells : K.Tells y x swap) :
    K.Sorts [x, y] [(if swap then (y, x) else (x, y)).1, (if swap then (y, x) else (x, y)).2] := by
  cases swap with
  | true => exact ⟨.swap x y [], List.pairwise_pair.mpr (K.le_of_lt tells.eq_true)⟩
  | false => exact ⟨.refl _, List.pairwise_pair.mpr tells.eq_false⟩

/-- Five comparisons sort four items: two order the items of each pair, two find the ends, and the
last one orders what is left. -/
theorem gives_sortFour (a b c d : α) : L.Gives (K.Sorts [a, b, c, d]) (sortFour less a b c d) := by
  have ends : ∀ {least left right greatest : α},
      [least, left, right, greatest].Perm [a, b, c, d] → K.Le least left → K.Le least right →
      K.Le left greatest → K.Le right greatest → L.Gives (K.Sorts [a, b, c, d]) (do
        if ← less right left then return [least, right, left, greatest]
        else return [least, left, right, greatest]) := by
    intro least left right greatest perm h₁ h₂ h₃ h₄
    have across : K.Le least greatest := K.le_trans h₁ h₃
    refine (hless right left).bind fun swap tells ↦ ?_
    cases swap with
    | true =>
      have ordered := K.le_of_lt tells.eq_true
      have swapped := (List.Perm.swap left right [greatest]).cons least
      exact L.gives_pure ⟨swapped.trans perm, by simp [*]⟩
    | false =>
      have ordered := tells.eq_false
      exact L.gives_pure ⟨perm, by simp [*]⟩
  unfold sortFour
  refine (hless b a).bind fun swapFirst first ↦ (hless d c).bind fun swapSecond second ↦ ?_
  obtain ⟨first_perm, first_sorted⟩ := sorted_swap first
  obtain ⟨second_perm, second_sorted⟩ := sorted_swap second
  generalize (if swapFirst then (b, a) else (a, b)) = p at *
  generalize (if swapSecond then (d, c) else (c, d)) = q at *
  obtain ⟨a', b'⟩ := p
  obtain ⟨c', d'⟩ := q
  have perm : [a', b', c', d'].Perm [a, b, c, d] := first_perm.append second_perm
  have first := List.pairwise_pair.mp first_sorted
  have second := List.pairwise_pair.mp second_sorted
  refine (hless c' a').bind fun leastSecond least ↦ ?_
  refine (hless d' b').bind fun greatestFirst greatest ↦ ?_
  have last_first : [a', c', d', b'].Perm [a, b, c, d] :=
    ((List.perm_append_comm : ([c', d'] ++ [b']).Perm ([b'] ++ [c', d'])).cons a').trans perm
  have third_first : [c', a', b', d'].Perm [a, b, c, d] :=
    (List.perm_middle.symm : (c' :: ([a', b'] ++ [d'])).Perm ([a', b'] ++ c' :: [d'])).trans perm
  cases leastSecond with
  | true =>
    have least := K.le_of_lt least.eq_true
    cases greatestFirst with
    | true =>
      have greatest := K.le_of_lt greatest.eq_true
      exact ends ((List.Perm.swap a' c' [d', b']).trans last_first) least second first greatest
    | false =>
      have greatest := greatest.eq_false
      exact ends third_first least (K.le_trans least first) (K.le_trans first greatest) greatest
  | false =>
    have least := least.eq_false
    cases greatestFirst with
    | true =>
      have greatest := K.le_of_lt greatest.eq_true
      exact ends last_first least (K.le_trans least second) (K.le_trans second greatest) greatest
    | false => exact ends perm first least greatest.eq_false second

theorem gives_sortStart (four : Bool) (items : List α) :
    L.Gives (fun parts ↦ (parts.1 ++ parts.2).Perm items ∧ parts.1.Pairwise K.Ge)
      (sortStart less four items) := by
  unfold sortStart
  split
  · exact L.gives_pure ⟨.refl _, .nil⟩
  · next x rest =>
    split
    · next b c d rest =>
      refine (gives_sortFour hless x b c d).bind fun out h ↦ L.gives_pure ⟨?_, ?_⟩
      · exact (out.reverse_perm.trans h.perm).append_right rest
      · rw [← Ranking.sorted_reverse, List.reverse_reverse]
        exact h.sorted
    · exact L.gives_pure ⟨.refl _, List.pairwise_singleton _ _⟩

end

/-! ### Merging inwards -/

/-- Two sorted lists, each cut in two, so that what is below the cuts may stand before what is
above. Items of the right list are below only if they must stand before those of the left one. -/
structure Cut (K : Ranking α) (left right below₁ above₁ below₂ above₂ : List α) : Prop where
  left_sorted : K.Sorted left
  right_sorted : K.Sorted right
  left_eq : left = below₁ ++ above₁
  right_eq : right = below₂ ++ above₂
  left_first : ∀ l ∈ below₁, ∀ r ∈ above₂, K.Le l r
  right_first : ∀ r ∈ below₂, ∀ l ∈ above₁, K.Lt r l

namespace Cut

variable {left right below₁ above₁ below₂ above₂ : List α} {l r : α}

theorem left_le (h : Cut K left right below₁ above₁ below₂ above₂) :
    K.Sorted below₁ ∧ K.Sorted above₁ ∧ ∀ x ∈ below₁, ∀ y ∈ above₁, K.Le x y :=
  Ranking.sorted_append.mp (h.left_eq ▸ h.left_sorted)

theorem right_le (h : Cut K left right below₁ above₁ below₂ above₂) :
    K.Sorted below₂ ∧ K.Sorted above₂ ∧ ∀ x ∈ below₂, ∀ y ∈ above₂, K.Le x y :=
  Ranking.sorted_append.mp (h.right_eq ▸ h.right_sorted)

theorem le (h : Cut K left right below₁ above₁ below₂ above₂) :
    ∀ x ∈ below₁ ++ below₂, ∀ y ∈ above₁ ++ above₂, K.Le x y := by
  intro x hx y hy
  rcases List.mem_append.mp hx with hx | hx <;> rcases List.mem_append.mp hy with hy | hy
  · exact h.left_le.2.2 x hx y hy
  · exact h.left_first x hx y hy
  · exact K.le_of_lt (h.right_first x hx y hy)
  · exact h.right_le.2.2 x hx y hy

/-- The first item above on the right moves below. -/
theorem raise_right (h : Cut K left right below₁ (l :: above₁) below₂ (r :: above₂))
    (less : K.Lt r l) : Cut K left right below₁ (l :: above₁) (below₂ ++ [r]) above₂ where
  left_sorted := h.left_sorted
  right_sorted := h.right_sorted
  left_eq := h.left_eq
  right_eq := by rw [h.right_eq, List.append_assoc, List.singleton_append]
  left_first x hx y hy := h.left_first x hx y (List.mem_cons_of_mem r hy)
  right_first x hx y hy := by
    have nearest := (List.pairwise_cons.mp h.left_le.2.1).1
    simp only [List.mem_append, List.mem_singleton] at hx
    rcases hx with hx | rfl
    · exact h.right_first x hx y hy
    · rcases List.mem_cons.mp hy with rfl | hy
      · exact less
      · exact K.lt_of_lt_of_le less (nearest y hy)

/-- The first item above on the left moves below. -/
theorem raise_left (h : Cut K left right below₁ (l :: above₁) below₂ (r :: above₂))
    (le : K.Le l r) : Cut K left right (below₁ ++ [l]) above₁ below₂ (r :: above₂) where
  left_sorted := h.left_sorted
  right_sorted := h.right_sorted
  left_eq := by rw [h.left_eq, List.append_assoc, List.singleton_append]
  right_eq := h.right_eq
  left_first x hx y hy := by
    have nearest := (List.pairwise_cons.mp h.right_le.2.1).1
    simp only [List.mem_append, List.mem_singleton] at hx
    rcases hx with hx | rfl
    · exact h.left_first x hx y hy
    · rcases List.mem_cons.mp hy with rfl | hy
      · exact le
      · exact K.le_trans le (nearest y hy)
  right_first x hx y hy := h.right_first x hx y (List.mem_cons_of_mem l hy)

/-- The last item below on the left moves above. -/
theorem lower_left (h : Cut K left right (below₁ ++ [l]) above₁ (below₂ ++ [r]) above₂)
    (less : K.Lt r l) : Cut K left right below₁ (l :: above₁) (below₂ ++ [r]) above₂ where
  left_sorted := h.left_sorted
  right_sorted := h.right_sorted
  left_eq := by rw [h.left_eq, List.append_assoc, List.singleton_append]
  right_eq := h.right_eq
  left_first x hx y hy := h.left_first x (List.mem_append_left _ hx) y hy
  right_first x hx y hy := by
    have nearest := (Ranking.sorted_append.mp h.right_le.1).2.2
    rcases List.mem_cons.mp hy with rfl | hy
    · simp only [List.mem_append, List.mem_singleton] at hx
      rcases hx with hx | rfl
      · exact K.lt_of_le_of_lt (nearest x hx r (by simp)) less
      · exact less
    · exact h.right_first x hx y hy

/-- The last item below on the right moves above. -/
theorem lower_right (h : Cut K left right (below₁ ++ [l]) above₁ (below₂ ++ [r]) above₂)
    (le : K.Le l r) : Cut K left right (below₁ ++ [l]) above₁ below₂ (r :: above₂) where
  left_sorted := h.left_sorted
  right_sorted := h.right_sorted
  left_eq := h.left_eq
  right_eq := by rw [h.right_eq, List.append_assoc, List.singleton_append]
  left_first x hx y hy := by
    have nearest := (Ranking.sorted_append.mp h.left_le.1).2.2
    rcases List.mem_cons.mp hy with rfl | hy
    · simp only [List.mem_append, List.mem_singleton] at hx
      rcases hx with hx | rfl
      · exact K.le_trans (nearest x hx l (by simp)) le
      · exact le
    · exact h.left_first x hx y hy
  right_first x hx y hy := h.right_first x (List.mem_append_left _ hx) y hy

end Cut

/-- What the merge from the start has done when `steps` steps are left: `low₁` and `low₂` are taken
from the two lists, and stand in `front`, in reverse. -/
structure Front (K : Ranking α) (left right : List α) (steps : Nat)
    (low₁ low₂ front ahead₁ ahead₂ : List α) : Prop where
  cut : Cut K left right low₁ ahead₁ low₂ ahead₂
  perm : front.Perm (low₁ ++ low₂)
  sorted : front.Pairwise K.Ge
  steps_eq : low₁.length + low₂.length + steps = left.length

/-- What the merge from the end has done when `steps` steps are left: `high₁` and `high₂` are taken
from the two lists, of which the rest is given in reverse. -/
structure Back (K : Ranking α) (left right : List α) (steps : Nat)
    (high₁ high₂ back behind₁ behind₂ : List α) : Prop where
  cut : Cut K left right behind₁.reverse high₁ behind₂.reverse high₂
  perm : back.Perm (high₁ ++ high₂)
  sorted : K.Sorted back
  steps_eq : high₁.length + high₂.length + steps = left.length

section Inward

variable {left right low₁ low₂ front ahead₁ ahead₂ high₁ high₂ back behind₁ behind₂ : List α}
  {steps : Nat} {l r : α}

theorem Cut.bottom (hl : K.Sorted left) (hr : K.Sorted right) :
    Cut K left right [] left [] right := by
  refine ⟨hl, hr, rfl, rfl, ?_, ?_⟩ <;> simp

theorem Cut.top (hl : K.Sorted left) (hr : K.Sorted right) : Cut K left right left [] right [] := by
  refine ⟨hl, hr, (List.append_nil _).symm, (List.append_nil _).symm, ?_, ?_⟩ <;> simp

theorem Front.start (hl : K.Sorted left) (hr : K.Sorted right) :
    Front K left right left.length [] [] [] left right :=
  ⟨.bottom hl hr, .refl _, .nil, Nat.zero_add _⟩

theorem Back.start (hl : K.Sorted behind₁.reverse) (hr : K.Sorted behind₂.reverse) :
    Back K behind₁.reverse behind₂.reverse behind₁.reverse.length [] [] [] behind₁ behind₂ :=
  ⟨.top hl hr, .refl _, .nil, Nat.zero_add _⟩

theorem Front.step_right
    (h : Front K left right (steps + 1) low₁ low₂ front (l :: ahead₁) (r :: ahead₂))
    (less : K.Lt r l) :
    Front K left right steps low₁ (low₂ ++ [r]) (r :: front) (l :: ahead₁) ahead₂ where
  cut := h.cut.raise_right less
  perm := by
    rw [← List.append_assoc]
    exact (h.perm.cons r).trans (List.perm_append_singleton r _).symm
  sorted := by
    refine List.pairwise_cons.mpr ⟨fun x hx ↦ ?_, h.sorted⟩
    exact h.cut.le x (h.perm.mem_iff.mp hx) r (by simp)
  steps_eq := by
    have := h.steps_eq
    simp only [List.length_append, List.length_singleton]
    omega

theorem Front.step_left
    (h : Front K left right (steps + 1) low₁ low₂ front (l :: ahead₁) (r :: ahead₂))
    (le : K.Le l r) :
    Front K left right steps (low₁ ++ [l]) low₂ (l :: front) ahead₁ (r :: ahead₂) where
  cut := h.cut.raise_left le
  perm := by
    rw [List.append_assoc, List.singleton_append]
    exact (h.perm.cons l).trans List.perm_middle.symm
  sorted := by
    refine List.pairwise_cons.mpr ⟨fun x hx ↦ ?_, h.sorted⟩
    exact h.cut.le x (h.perm.mem_iff.mp hx) l (by simp)
  steps_eq := by
    have := h.steps_eq
    simp only [List.length_append, List.length_singleton]
    omega

theorem Back.step_left
    (h : Back K left right (steps + 1) high₁ high₂ back (l :: behind₁) (r :: behind₂))
    (less : K.Lt r l) :
    Back K left right steps (l :: high₁) high₂ (l :: back) behind₁ (r :: behind₂) := by
  have cut := h.cut
  rw [List.reverse_cons, List.reverse_cons] at cut
  refine ⟨?_, h.perm.cons l, List.pairwise_cons.mpr ⟨fun x hx ↦ ?_, h.sorted⟩, ?_⟩
  · rw [List.reverse_cons]
    exact cut.lower_left less
  · exact cut.le l (by simp) x (h.perm.mem_iff.mp hx)
  · have := h.steps_eq
    rw [List.length_cons]
    omega

theorem Back.step_right
    (h : Back K left right (steps + 1) high₁ high₂ back (l :: behind₁) (r :: behind₂))
    (le : K.Le l r) :
    Back K left right steps high₁ (r :: high₂) (r :: back) (l :: behind₁) behind₂ := by
  have cut := h.cut
  rw [List.reverse_cons, List.reverse_cons] at cut
  refine ⟨?_, (h.perm.cons r).trans List.perm_middle.symm,
    List.pairwise_cons.mpr ⟨fun x hx ↦ ?_, h.sorted⟩, ?_⟩
  · rw [List.reverse_cons]
    exact cut.lower_right le
  · exact cut.le r (by simp) x (h.perm.mem_iff.mp hx)
  · have := h.steps_eq
    rw [List.length_cons]
    omega

/-- While steps are left, both lists go on, from either end. -/
theorem Front.ahead_cons (h : Front K left right (steps + 1) low₁ low₂ front ahead₁ ahead₂)
    (longer : left.length ≤ right.length) :
    (∃ l rest, ahead₁ = l :: rest) ∧ ∃ r rest, ahead₂ = r :: rest := by
  have size₁ := congrArg List.length h.cut.left_eq
  have size₂ := congrArg List.length h.cut.right_eq
  have hsteps := h.steps_eq
  rw [List.length_append] at size₁ size₂
  exact ⟨List.exists_cons_of_length_pos (by omega), List.exists_cons_of_length_pos (by omega)⟩

@[inherit_doc Front.ahead_cons]
theorem Back.behind_cons (h : Back K left right (steps + 1) high₁ high₂ back behind₁ behind₂)
    (longer : left.length ≤ right.length) :
    (∃ l rest, behind₁ = l :: rest) ∧ ∃ r rest, behind₂ = r :: rest := by
  have size₁ := congrArg List.length h.cut.left_eq
  have size₂ := congrArg List.length h.cut.right_eq
  have hsteps := h.steps_eq
  rw [List.length_append, List.length_reverse] at size₁ size₂
  exact ⟨List.exists_cons_of_length_pos (by omega), List.exists_cons_of_length_pos (by omega)⟩

/-- The two ends have met, with at most one item between them. -/
theorem Front.sorts (f : Front K left right 0 low₁ low₂ front ahead₁ ahead₂)
    (b : Back K left right 0 high₁ high₂ back behind₁ behind₂) {mid₁ mid₂ : List α}
    (meet₁ : ahead₁ = mid₁ ++ high₁) (meet₂ : ahead₂ = mid₂ ++ high₂)
    (one : (mid₁ ++ mid₂).length ≤ 1) :
    K.Sorts (left ++ right) (front.reverse ++ (mid₁ ++ mid₂) ++ back) := by
  have left_eq : left = low₁ ++ mid₁ ++ high₁ := by
    rw [f.cut.left_eq, meet₁, List.append_assoc]
  have right_eq : right = low₂ ++ mid₂ ++ high₂ := by
    rw [f.cut.right_eq, meet₂, List.append_assoc]
  have before₁ : behind₁.reverse = low₁ ++ mid₁ :=
    (List.append_left_inj high₁).mp (b.cut.left_eq.symm.trans left_eq)
  have before₂ : behind₂.reverse = low₂ ++ mid₂ :=
    (List.append_left_inj high₂).mp (b.cut.right_eq.symm.trans right_eq)
  constructor
  · classical
    rw [List.perm_iff_count]
    intro x
    have hf := List.perm_iff_count.mp f.perm x
    have hb := List.perm_iff_count.mp b.perm x
    simp only [left_eq, right_eq, List.count_append, List.count_reverse] at hf hb ⊢
    omega
  · have inner : K.Sorted (mid₁ ++ mid₂) := Ranking.sorted_of_length_lt_two (by omega)
    rw [Ranking.sorted_append, Ranking.sorted_append]
    refine ⟨⟨Ranking.sorted_reverse.mpr f.sorted, inner, fun x hx y hy ↦ ?_⟩, b.sorted,
      fun x hx y hy ↦ ?_⟩
    · refine f.cut.le x (f.perm.mem_iff.mp (List.mem_reverse.mp hx)) y ?_
      rw [meet₁, meet₂]
      simp only [List.mem_append] at hy ⊢
      tauto
    · rcases List.mem_append.mp hx with hx | hx
      · refine f.cut.le x (f.perm.mem_iff.mp (List.mem_reverse.mp hx)) y ?_
        have hy := b.perm.mem_iff.mp hy
        rw [meet₁, meet₂]
        simp only [List.mem_append] at hy ⊢
        tauto
      · refine b.cut.le x ?_ y (b.perm.mem_iff.mp hy)
        rw [before₁, before₂]
        simp only [List.mem_append] at hx ⊢
        tauto

/-- Two ways to cut a list in two, of which the first is further on, overlap. -/
theorem exists_mem_of_append_eq {xs ys us vs : List α} (same : xs ++ ys = us ++ vs)
    (further : us.length < xs.length) : ∃ x, x ∈ xs ∧ x ∈ vs := by
  rcases List.append_eq_append_iff.mp same with ⟨as, rfl, -⟩ | ⟨cs, rfl, rfl⟩
  · simp only [List.length_append] at further
    omega
  · cases cs with
    | nil => simp at further
    | cons c cs => exact ⟨c, by simp, by simp⟩

/-- Under a proper ranking, neither end goes past the other one: if one did in the left list, the
other list would have an item between them, which is both before and after an item that both ends
have taken. -/
theorem Front.lengths_le (f : Front K left right 0 low₁ low₂ front ahead₁ ahead₂)
    (b : Back K left right 0 high₁ high₂ back behind₁ behind₂) (proper : K.Proper)
    (longer : left.length ≤ right.length) :
    low₁.length ≤ behind₁.length ∧ low₂.length ≤ behind₂.length := by
  have same₁ := f.cut.left_eq.symm.trans b.cut.left_eq
  have same₂ := f.cut.right_eq.symm.trans b.cut.right_eq
  have size₁ := congrArg List.length b.cut.left_eq
  have size₂ := congrArg List.length b.cut.right_eq
  have hf := f.steps_eq
  have hb := b.steps_eq
  simp only [List.length_append, List.length_reverse] at size₁ size₂
  constructor
  · by_contra past
    obtain ⟨x, low, high⟩ :=
      exists_mem_of_append_eq same₁ (by rw [List.length_reverse]; omega)
    obtain ⟨y, behind, ahead⟩ :=
      exists_mem_of_append_eq same₂.symm (by rw [List.length_reverse]; omega)
    exact proper y x (b.cut.right_first y behind x high) (f.cut.left_first x low y ahead)
  · by_contra past
    obtain ⟨y, low, high⟩ :=
      exists_mem_of_append_eq same₂ (by rw [List.length_reverse]; omega)
    obtain ⟨x, behind, ahead⟩ :=
      exists_mem_of_append_eq same₁.symm (by rw [List.length_reverse]; omega)
    exact proper y x (f.cut.right_first y low x ahead) (b.cut.left_first x behind y high)

/-- The rest of a list after one cut, as far as it stands before another cut. -/
theorem eq_take_append {xs ys us vs : List α} {n : Nat} (same : xs ++ ys = us ++ vs)
    (length : ys.length = n + vs.length) : ys = ys.take n ++ vs := by
  rcases List.append_eq_append_iff.mp same with ⟨as, -, rfl⟩ | ⟨cs, -, rfl⟩
  · rw [List.length_append] at length
    rw [List.take_left' (by omega)]
  · rw [List.length_append] at length
    obtain rfl : cs = [] := List.eq_nil_of_length_eq_zero (by omega)
    obtain rfl : n = 0 := by omega
    rfl

end Inward

section

variable [BreaksOff m]

/-- Computations may break off, unless a ranking is proper. -/
abbrev MayBreakOff (L : Lifting m) (K : Ranking α) : Prop :=
  ¬K.Proper → ∀ P : List α → Prop, L.Gives P breakOff

/-- What is done once the two ends are through. -/
theorem gives_meet (hbreak : MayBreakOff L K) (odd : Bool)
    {left right low₁ low₂ front ahead₁ ahead₂ high₁ high₂ back behind₁ behind₂ : List α}
    (f : Front K left right 0 low₁ low₂ front ahead₁ ahead₂)
    (b : Back K left right 0 high₁ high₂ back behind₁ behind₂)
    (sizes : right.length = left.length + odd.toNat) :
    L.Gives (K.Sorts (left ++ right))
      (if low₁.length + high₁.length = left.length then
        pure (front.reverse ++ (if odd then ahead₂.take 1 else []) ++ back)
      else if odd && low₁.length + high₁.length + 1 = left.length then
        pure (front.reverse ++ ahead₁.take 1 ++ back)
      else breakOff) := by
  have same₁ := f.cut.left_eq.symm.trans b.cut.left_eq
  have same₂ := f.cut.right_eq.symm.trans b.cut.right_eq
  have size₁ := congrArg List.length b.cut.left_eq
  have size₂ := congrArg List.length b.cut.right_eq
  have size₃ := congrArg List.length f.cut.left_eq
  have size₄ := congrArg List.length f.cut.right_eq
  have hf := f.steps_eq
  have hb := b.steps_eq
  simp only [List.length_append, List.length_reverse] at size₁ size₂ size₃ size₄
  refine gives_ite (fun met ↦ ?_) fun apart ↦ gives_ite (fun met ↦ ?_) fun far ↦ ?_
  · have meet₁ : ahead₁ = [] ++ high₁ := eq_take_append (n := 0) same₁ (by omega)
    have meet₂ := eq_take_append (n := odd.toNat) same₂ (by omega)
    cases odd with
    | false => exact L.gives_pure (f.sorts b meet₁ meet₂ (Nat.zero_le 1))
    | true => exact L.gives_pure (f.sorts b meet₁ meet₂ (List.length_take_le 1 ahead₂))
  · rw [Bool.and_eq_true, decide_eq_true_iff] at met
    obtain ⟨rfl, met⟩ := met
    rw [Bool.toNat_true] at sizes
    have meet₁ := eq_take_append (n := 1) same₁ (by omega)
    have meet₂ : ahead₂ = [] ++ high₂ := eq_take_append (n := 0) same₂ (by omega)
    have one : (ahead₁.take 1 ++ []).length ≤ 1 := by
      rw [List.append_nil]
      exact List.length_take_le 1 ahead₁
    rw [← List.append_nil (ahead₁.take 1)]
    exact L.gives_pure (f.sorts b meet₁ meet₂ one)
  · refine hbreak (fun proper ↦ ?_) _
    obtain ⟨h₁, h₂⟩ := f.lengths_le b proper (by omega)
    cases odd with
    | false =>
      rw [Bool.toNat_false] at sizes
      omega
    | true =>
      rw [Bool.true_and, decide_eq_true_iff] at far
      rw [Bool.toNat_true] at sizes
      omega

/-- Merging from both ends sorts two halves that are sorted. -/
theorem gives_mergeInward (hless : Compares L K less) (hbreak : MayBreakOff L K) (odd : Bool)
    {left right : List α} (sizes : right.length = left.length + odd.toNat) (steps : Nat) :
    ∀ (low₁ low₂ front ahead₁ ahead₂ high₁ high₂ back behind₁ behind₂ : List α) (taken : Nat),
    Front K left right steps low₁ low₂ front ahead₁ ahead₂ →
    Back K left right steps high₁ high₂ back behind₁ behind₂ →
    taken = low₁.length + high₁.length →
    L.Gives (K.Sorts (left ++ right)) (mergeInward less odd left.length front back taken steps
      ahead₁ ahead₂ behind₁ behind₂) := by
  induction steps with
  | zero =>
    rintro low₁ low₂ front ahead₁ ahead₂ high₁ high₂ back behind₁ behind₂ taken f b rfl
    rw [mergeInward]
    · exact gives_meet hbreak odd f b sizes
    · intro _ _ _ _ _ _ _ _ _ h
      cases h
  | succ steps ih =>
    rintro low₁ low₂ front ahead₁ ahead₂ high₁ high₂ back behind₁ behind₂ taken f b rfl
    obtain ⟨⟨l, ahead₁, rfl⟩, r, ahead₂, rfl⟩ := f.ahead_cons (by omega)
    obtain ⟨⟨y, behind₁, rfl⟩, z, behind₂, rfl⟩ := b.behind_cons (by omega)
    rw [mergeInward]
    refine (hless r l).bind fun upRight up ↦ (hless z y).bind fun downLeft down ↦ ?_
    have longer : (low₁ ++ [l]).length = low₁.length + 1 := List.length_append
    cases upRight with
    | true =>
      have f' := f.step_right up.eq_true
      cases downLeft with
      | true => exact ih _ _ _ _ _ _ _ _ _ _ _ f' (b.step_left down.eq_true) rfl
      | false => exact ih _ _ _ _ _ _ _ _ _ _ _ f' (b.step_right down.eq_false) rfl
    | false =>
      have f' := f.step_left up.eq_false
      cases downLeft with
      | true =>
        refine ih _ _ _ _ _ _ _ _ _ _ _ f' (b.step_left down.eq_true) ?_
        rw [longer, List.length_cons, if_neg Bool.false_ne_true, if_pos rfl]
        omega
      | false =>
        refine ih _ _ _ _ _ _ _ _ _ _ _ f' (b.step_right down.eq_false) ?_
        rw [longer, if_neg Bool.false_ne_true, if_neg Bool.false_ne_true]
        omega

theorem gives_smallSort (hless : Compares L K less) (hbreak : MayBreakOff L K) (items : List α) :
    L.Gives (K.Sorts items) (smallSort less items) := by
  unfold smallSort
  dsimp only
  refine gives_ite (fun short ↦ L.gives_pure ⟨.refl _, Ranking.sorted_of_length_lt_two short⟩)
    fun long ↦ ?_
  rw [List.splitAt_eq]
  refine (gives_sortStart hless _ _).bind fun left left_start ↦ ?_
  refine (gives_sortStart hless _ _).bind fun right right_start ↦ ?_
  refine (gives_insertAll hless left.2 left_start.2).bind fun leftBack h₁ ↦ ?_
  refine (gives_insertAll hless right.2 right_start.2).bind fun rightBack h₂ ↦ ?_
  have first := (leftBack.reverse_perm.trans h₁.perm).trans left_start.1
  have second := (rightBack.reverse_perm.trans h₂.perm).trans right_start.1
  have whole : (leftBack.reverse ++ rightBack.reverse).Perm items := by
    simpa only [List.take_append_drop] using first.append second
  have half : leftBack.reverse.length = items.length / 2 := by
    rw [first.length_eq, List.length_take]
    omega
  have sizes : rightBack.reverse.length =
      leftBack.reverse.length + (decide (items.length % 2 = 1)).toNat := by
    rw [second.length_eq, half, List.length_drop]
    by_cases odd : items.length % 2 = 1
    · rw [decide_eq_true odd, Bool.toNat_true]
      omega
    · rw [decide_eq_false odd, Bool.toNat_false]
      omega
  have sorted₁ := Ranking.sorted_reverse.mpr h₁.sorted
  have sorted₂ := Ranking.sorted_reverse.mpr h₂.sorted
  rw [← half]
  refine (gives_mergeInward hless hbreak _ sizes _ _ _ _ _ _ _ _ _ _ _ _
    (.start sorted₁ sorted₂) (.start sorted₁ sorted₂) rfl).mono fun out h ↦ ?_
  exact ⟨h.perm.trans whole, h.sorted⟩

end

end Formulary.Sorting
