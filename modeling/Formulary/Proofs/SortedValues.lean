import Formulary.Proofs.Arranging
import Formulary.Proofs.Comparable
import Mathlib.Data.List.Pairwise

/-!
# Sorted lists, least items and greatest items

A list is mixed if it has two items that cannot be compared. The least and the greatest item of a
list exist unless it is mixed. Sorting never gives a mixed list an order, since the comparisons that
it makes connect all of the items (`Method.not_mixed_of_sortItems`), but it may break off before it
reports the comparison that failed, if the list is too long for insertion. On integers, and on
strings, the three agree (`Method.sort_min_max`).
-/

namespace Formulary.Method

open Sorting (Ranking)

/-! ### Mixed lists -/

/-- At least two items that are neither all strings nor all numbers other than NaN. -/
def Mixed (items : List Value) : Prop :=
  2 ≤ items.length ∧ ¬(∀ v ∈ items, v.isText = true) ∧ ¬∀ v ∈ items, v.isRanked = true

/-- A mixed list is one with items that cannot be compared. -/
theorem mixed_iff {items : List Value} :
    Mixed items ↔ 2 ≤ items.length ∧ ¬∀ a ∈ items, ∀ b ∈ items, a.Comparable b := by
  constructor
  · rintro ⟨two, texts, numbers⟩
    refine ⟨two, fun all ↦ ?_⟩
    obtain ⟨x, hx⟩ := List.exists_mem_of_length_pos (Nat.lt_of_lt_of_le Nat.two_pos two)
    rcases all x hx x hx with ⟨text, -⟩ | ⟨number, -⟩
    · exact texts fun v hv ↦ (all x hx v hv).isText_eq ▸ text
    · exact numbers fun v hv ↦ (all x hx v hv).isRanked_eq ▸ number
  · rintro ⟨two, apart⟩
    refine ⟨two, fun texts ↦ apart fun a ha b hb ↦ ?_, fun numbers ↦ apart fun a ha b hb ↦ ?_⟩
    · exact .inl ⟨texts a ha, texts b hb⟩
    · exact .inr ⟨numbers a ha, numbers b hb⟩

theorem not_mixed_of_length_lt {items : List Value} (short : items.length < 2) : ¬Mixed items :=
  fun mixed ↦ Nat.not_lt.mpr mixed.1 short

/-- In a list of two or more items that can all be compared with the first one, any two can. -/
theorem comparable_of_first {x y : Value} {xs : List Value} (h : ∀ z ∈ y :: xs, z.Comparable x) :
    ∀ a ∈ x :: y :: xs, ∀ b ∈ x :: y :: xs, a.Comparable b := by
  have self : x.Comparable x :=
    (h y List.mem_cons_self).symm.trans (h y List.mem_cons_self)
  have first : ∀ z ∈ x :: y :: xs, z.Comparable x := List.forall_mem_cons.mpr ⟨self, h⟩
  exact fun a ha b hb ↦ (first a ha).trans (first b hb).symm

/-! ### Least and greatest items -/

section

variable {operation : String} {beats : Ordering}

theorem extreme_eq_error {items : List Value} {fault : Fault}
    (h : extreme operation beats items = .error fault) :
    ∃ left right, fault = ⟨.typeMismatch operation left right, []⟩ := by
  cases items with
  | nil => cases h
  | cons x xs =>
    rw [extreme] at h
    induction xs generalizing x with
    | nil => cases h
    | cons y xs ih =>
      rw [List.foldlM_cons] at h
      cases compared : Value.order operation y x with
      | error failed =>
        rw [compared] at h
        cases h
        exact ⟨_, _, Value.order_eq_error compared⟩
      | ok o =>
        rw [compared] at h
        exact ih _ h

/-- There is a least, or a greatest, item if all can be compared with the first one. -/
theorem exists_extreme_iff {x : Value} {xs : List Value} :
    (∃ v, extreme operation beats (x :: xs) = .ok v) ↔ ∀ y ∈ xs, y.Comparable x := by
  rw [extreme]
  induction xs generalizing x with
  | nil => exact iff_of_true ⟨x, rfl⟩ (List.forall_mem_nil _)
  | cons y xs ih =>
    rw [List.foldlM_cons, List.forall_mem_cons]
    cases compared : Value.order operation y x with
    | error failed =>
      have apart : ¬y.Comparable x := by
        rw [← Value.order_eq_ok_iff operation, compared]
        rintro ⟨o, h⟩
        cases h
      refine iff_of_false ?_ fun h ↦ apart h.1
      rintro ⟨v, h⟩
      cases h
    | ok o =>
      have near : y.Comparable x := (Value.order_eq_ok_iff operation).mp ⟨o, compared⟩
      -- The one that is kept can be compared with the one that is not.
      have kept : (if (o == beats) = true then y else x).Comparable x := by
        split
        · exact near
        · exact near.symm.trans near
      refine (ih (x := if (o == beats) = true then y else x)).trans ?_
      rw [and_iff_right near]
      exact forall₂_congr fun z _ ↦ ⟨fun h ↦ h.trans kept, fun h ↦ h.trans kept.symm⟩

/-- The item that is found is in the list, and stands at the end of any order in which it is looked
for. -/
theorem exists_extreme {R : Value → Value → Prop} (refl : ∀ a, R a a)
    (trans : ∀ {a b c}, R a b → R b c → R a c) {x : Value} {xs : List Value}
    (ordered : ∀ a ∈ x :: xs, ∀ b ∈ x :: xs, ∃ o, Value.order operation a b = .ok o ∧
      if (o == beats) = true then R b a else R a b) :
    ∃ v ∈ x :: xs, extreme operation beats (x :: xs) = .ok v ∧ ∀ z ∈ x :: xs, R z v := by
  induction xs generalizing x with
  | nil => exact ⟨x, List.mem_cons_self, rfl, List.forall_mem_singleton.mpr (refl x)⟩
  | cons y xs ih =>
    obtain ⟨o, compared, keeps⟩ := ordered y (by simp) x (by simp)
    have among (kept : Value) (hk : kept ∈ x :: y :: xs) :
        ∀ z ∈ kept :: xs, z ∈ x :: y :: xs :=
      List.forall_mem_cons.mpr ⟨hk, fun z hz ↦ by simp [hz]⟩
    have step : extreme operation beats (x :: y :: xs) =
        extreme operation beats ((if (o == beats) = true then y else x) :: xs) := by
      rw [extreme, List.foldlM_cons, compared]
      rfl
    by_cases better : (o == beats) = true
    · rw [if_pos better] at keeps step
      have inside := among y (by simp)
      obtain ⟨v, hv, found, most⟩ := ih fun a ha b hb ↦ ordered a (inside a ha) b (inside b hb)
      refine ⟨v, inside v hv, step.trans found, List.forall_mem_cons.mpr ⟨?_, most⟩⟩
      exact trans keeps (most y List.mem_cons_self)
    · rw [if_neg better] at keeps step
      have inside := among x (by simp)
      obtain ⟨v, hv, found, most⟩ := ih fun a ha b hb ↦ ordered a (inside a ha) b (inside b hb)
      obtain ⟨first, rest⟩ := List.forall_mem_cons.mp most
      refine ⟨v, inside v hv, step.trans found, List.forall_mem_cons.mpr ⟨first, ?_⟩⟩
      exact List.forall_mem_cons.mpr ⟨trans keeps first, rest⟩

/-- The item that is found is the one that stands at that end, if there is only one. -/
theorem extreme_eq {R : Value → Value → Prop} (refl : ∀ a, R a a)
    (trans : ∀ {a b c}, R a b → R b c → R a c) {items : List Value} {last : Value}
    (ordered : ∀ a ∈ items, ∀ b ∈ items, ∃ o, Value.order operation a b = .ok o ∧
      if (o == beats) = true then R b a else R a b)
    (inside : last ∈ items) (most : ∀ z ∈ items, R z last)
    (only : ∀ v ∈ items, R v last → R last v → v = last) :
    extreme operation beats items = .ok last := by
  cases items with
  | nil => cases inside
  | cons x xs =>
    obtain ⟨v, hv, found, found_most⟩ := exists_extreme refl trans ordered
    rw [found, only v hv (most v hv) (found_most last inside)]

/-- Looking for the least, or the greatest, item fails on mixed lists. -/
theorem exists_extreme_iff_not_mixed {items : List Value} :
    (∃ v, extreme operation beats items = .ok v) ↔ ¬Mixed items := by
  rcases items with _ | ⟨x, _ | ⟨y, xs⟩⟩
  · exact iff_of_true ⟨.nil, rfl⟩ (not_mixed_of_length_lt Nat.two_pos)
  · exact iff_of_true ⟨x, rfl⟩ (not_mixed_of_length_lt Nat.one_lt_two)
  · rw [exists_extreme_iff, mixed_iff, not_and_not_right]
    constructor
    · exact fun h _ ↦ comparable_of_first h
    · exact fun h z hz ↦ h (Nat.le_add_left 2 _) z (List.mem_cons_of_mem x hz) x List.mem_cons_self

end

/-! ### Sorting mixed lists -/

section

variable {n : Nat} {item : Fin n → Value}

/-- Places whose items can be compared, and each place with itself. -/
def comparablePlaces (item : Fin n → Value) : Setoid (Fin n) where
  r i j := i = j ∨ (item i).Comparable (item j)
  iseqv := {
    refl := fun _ ↦ .inl rfl
    symm := by
      rintro i j (rfl | h)
      · exact .inl rfl
      · exact .inr h.symm
    trans := by
      rintro i j k (rfl | hij) (rfl | hjk)
      · exact .inl rfl
      · exact .inr hjk
      · exact .inr hij
      · exact .inr (hij.trans hjk) }

/-- The comparisons of a sort that notes no failure connect all of the items. -/
theorem comparable_of_arrange {out : List Value} (h : arrange item = .ok out) {i j : Fin n}
    (distinct : i ≠ j) : (item i).Comparable (item j) := by
  have compares : Sorting.Compares Sorting.unmarred (.level (comparablePlaces item))
      (isLess item) := by
    intro i j b ran
    have near : (item i).Comparable (item j) := by
      cases compared : Value.order "sort" (item i) (item j) with
      | ok o => exact (Value.order_eq_ok_iff "sort").mp ⟨o, compared⟩
      | error fault =>
        rw [isLess, compared] at ran
        cases ran
    cases b with
    | true => exact .inr near
    | false => exact .inr near.symm
  have breaks : Sorting.MayBreakOff (Sorting.unmarred (ε := Fault))
      (Ranking.level (comparablePlaces item)) := by
    intro _ P b ran
    cases ran
  obtain ⟨places, sorted, -⟩ := arrange_eq_ok_iff.mp h
  have sorts := Sorting.gives_stableSort compares breaks (List.finRange n) places sorted
  have all (k : Fin n) : k ∈ places := sorts.perm.mem_iff.mpr (List.mem_finRange k)
  exact (Ranking.related_of_sorted_level sorts.sorted (all i) (all j)).resolve_left distinct

end

/-- A mixed list cannot be sorted. -/
theorem not_mixed_of_sortItems {items out : List Value} (h : sortItems items = .ok out) :
    ¬Mixed items := by
  rw [mixed_iff, not_and_not_right]
  intro two a ha b hb
  obtain ⟨i, rfl⟩ := List.mem_iff_get.mp ha
  obtain ⟨j, rfl⟩ := List.mem_iff_get.mp hb
  have near {i j : Fin items.length} (distinct : i ≠ j) : (items.get i).Comparable (items.get j) :=
    comparable_of_arrange h distinct
  by_cases same : i = j
  · subst same
    obtain ⟨k, other⟩ : ∃ k : Fin items.length, i ≠ k := by
      by_cases zero : i.val = 0
      · exact ⟨⟨1, two⟩, fun same ↦ Nat.one_ne_zero (by rw [← zero, same])⟩
      · exact ⟨⟨0, by omega⟩, fun same ↦ zero (by rw [same])⟩
    exact (near other).trans (near other).symm
  · exact near same

theorem sortItems_of_length_lt {items : List Value} (short : items.length < 2) :
    sortItems items = .ok items := by
  rcases items with _ | ⟨x, _ | ⟨y, rest⟩⟩
  · rfl
  · rfl
  · exact absurd short (Nat.not_lt.mpr (Nat.le_add_left 2 _))

theorem sortItems_eq_error {items : List Value} {stop : Stop} (h : sortItems items = .error stop) :
    stop = .disorder ∨ ∃ left right, stop = .fault ⟨.typeMismatch "sort" left right, []⟩ := by
  rcases incomparable_of_arrange h with broken | ⟨fault, rfl, i, j, failed⟩
  · exact .inl broken
  · exact .inr ⟨_, _, congrArg Stop.fault (Value.order_eq_error failed)⟩

/-- Where all items can be compared, no comparison fails. -/
theorem eq_disorder_of_not_mixed {items : List Value} {stop : Stop} (plain : ¬Mixed items)
    (h : sortItems items = .error stop) : stop = .disorder := by
  rcases incomparable_of_arrange h with broken | ⟨fault, rfl, i, j, failed⟩
  · exact broken
  · by_cases short : items.length < 2
    · rw [sortItems_of_length_lt short] at h
      cases h
    · rw [mixed_iff, not_and_not_right] at plain
      have near :=
        plain (Nat.not_lt.mp short) _ (items.get_mem i) _ (items.get_mem j)
      obtain ⟨o, compared⟩ := (Value.order_eq_ok_iff "sort").mpr near
      cases failed.symm.trans compared

/-- Short lists are sorted by insertion, which does not break off. -/
theorem sortItems_ne_disorder {items : List Value}
    (short : items.length ≤ Sorting.insertionLimit) : sortItems items ≠ .error .disorder := by
  intro h
  rcases arrange_eq_error h with ⟨broken, -⟩ | ⟨fault, -, failed⟩
  · have inserts : Sorting.stableSort (isLess items.get) (List.finRange items.length) =
        Sorting.insertionSort (isLess items.get) (List.finRange items.length) :=
      if_pos (by rwa [List.length_finRange])
    have ends := Sorting.gives_insertionSort
      (Sorting.compares_level (gives_isLess items.get False)) (List.finRange items.length)
    refine ends.breaks ?_
    rw [← inserts]
    exact broken
  · cases failed

/-- Sorting breaks off on long lists only. -/
theorem limit_lt_of_disorder {items : List Value} (h : sortItems items = .error .disorder) :
    Sorting.insertionLimit < items.length :=
  Nat.lt_of_not_le fun short ↦ sortItems_ne_disorder short h

/-! ### Sorting by keys -/

/-- Each item may stand before the later ones when they are compared. -/
def Ascending (items : List Value) : Prop :=
  items.Pairwise fun a b ↦ ∃ o, Value.order "sort" a b = .ok o ∧ o ≠ .gt

/-- The sorted list, which is the same whatever the order of the items was, with the least and the
greatest item at its ends. -/
structure SoleOrder (items sorted : List Value) : Prop where
  only : ∀ other : List Value, other.Perm items → sortItems other = .ok sorted
  perm : sorted.Perm items
  ascending : Ascending sorted
  least : extreme "min" .lt items = .ok (sorted.headD .nil)
  greatest : extreme "max" .gt items = .ok (sorted.getLastD .nil)

section

variable {κ : Type} [Ord κ] {key : Value → κ}

/-- Items that are compared by their keys, which tell them apart. -/
structure Keyed (key : Value → κ) (items : List Value) : Prop where
  order_eq : ∀ operation, ∀ a ∈ items, ∀ b ∈ items,
    Value.order operation a b = .ok (compare (key a) (key b))
  injective : ∀ a ∈ items, ∀ b ∈ items, key a = key b → a = b

variable {items : List Value}

theorem Keyed.perm {other : List Value} (h : Keyed key items) (perm : other.Perm items) :
    Keyed key other where
  order_eq operation a ha b hb :=
    h.order_eq operation a (perm.mem_iff.mp ha) b (perm.mem_iff.mp hb)
  injective a ha b hb := h.injective a (perm.mem_iff.mp ha) b (perm.mem_iff.mp hb)

variable [Std.TransOrd κ]

/-- Items with keys are sorted by them. -/
theorem Keyed.exists_sorted (h : Keyed key items) :
    ∃ out, sortItems items = .ok out ∧ (Ranking.byKey key).Sorts items out := by
  have compared (i j : Fin items.length) : Value.order "sort" (items.get i) (items.get j) =
      .ok (compare (key (items.get i)) (key (items.get j))) :=
    h.order_eq _ _ (items.get_mem i) _ (items.get_mem j)
  have compares : Sorting.Compares (Sorting.outcomes (Incomparable items.get) False)
      (Ranking.byKey (key ∘ items.get)) (isLess items.get) := by
    intro i j
    refine endsIn_isLess False (fun fault failed ↦ ?_) fun o eq ↦ ?_
    · cases failed.symm.trans (compared i j)
    · cases eq.symm.trans (compared i j)
      exact Ranking.tells_byKey (key ∘ items.get) i j
  have breaks : Sorting.MayBreakOff (Sorting.outcomes (Incomparable items.get) False)
      (Ranking.byKey (key ∘ items.get)) :=
    fun improper ↦ absurd (Ranking.proper_byKey _) improper
  have ends : Sorting.EndsIn _ _ _ (sorting items.get) :=
    Sorting.gives_stableSort compares breaks (List.finRange items.length)
  rcases sorted : sorting items.get with ⟨_ | places, _ | fault⟩
  all_goals rw [sorted] at ends
  · exact (ends.breaks rfl).elim
  · exact (ends.breaks rfl).elim
  · have sorts := ends.results places rfl
    refine ⟨places.map items.get, arrange_eq_ok_iff.mpr ⟨places, sorted, rfl⟩, ?_, ?_⟩
    · calc (places.map items.get).Perm ((List.finRange items.length).map items.get) :=
            sorts.perm.map items.get
        _ |>.Perm items := by rw [List.map_get_finRange]
    · exact List.pairwise_map.mpr sorts.sorted
  · obtain ⟨i, j, failed⟩ := ends.failures fault rfl
    cases failed.symm.trans (compared i j)

variable [Std.LawfulEqOrd κ]

theorem Keyed.eq_of_le (h : Keyed key items) {a b : Value} (ha : a ∈ items) (hb : b ∈ items)
    (le : (Ranking.byKey key).Le a b) (ge : (Ranking.byKey key).Le b a) : a = b :=
  h.injective a ha b hb (Std.compare_eq_iff_eq.mp (Std.OrientedCmp.isLE_antisymm le ge))

/-- There is one way only to sort items that their keys tell apart. -/
theorem Keyed.sorts_unique (h : Keyed key items) {out out' : List Value}
    (sorts : (Ranking.byKey key).Sorts items out) (sorts' : (Ranking.byKey key).Sorts items out') :
    out = out' := by
  refine List.Perm.eq_of_pairwise (fun a b ha hb ↦ ?_) sorts.sorted sorts'.sorted
    (sorts.perm.trans sorts'.perm.symm)
  exact h.eq_of_le (sorts.perm.mem_iff.mp ha) (sorts'.perm.mem_iff.mp hb)

/-- The least item is the first one of the sorted list. -/
theorem Keyed.extreme_lt (h : Keyed key items) (operation : String) {out : List Value}
    (sorts : (Ranking.byKey key).Sorts items out) :
    extreme operation .lt items = .ok (out.headD .nil) := by
  cases out with
  | nil => rw [sorts.perm.nil_eq.symm, extreme, List.headD_nil]
  | cons first rest =>
    have inside : first ∈ items := sorts.perm.mem_iff.mp List.mem_cons_self
    refine extreme_eq (R := fun a b ↦ (Ranking.byKey key).Le b a) (Ranking.byKey key).le_refl
      (fun hab hbc ↦ (Ranking.byKey key).le_trans hbc hab) (fun a ha b hb ↦ ?_) inside
      (fun z hz ↦ ?_) fun v hv le ge ↦ h.eq_of_le hv inside ge le
    · refine ⟨_, h.order_eq operation a ha b hb, ?_⟩
      have tells := Ranking.tells_byKey key a b
      cases less : compare (key a) (key b) == .lt with
      | true => exact (Ranking.byKey key).le_of_lt (less ▸ tells).eq_true
      | false => exact (less ▸ tells).eq_false
    · rcases List.mem_cons.mp (sorts.perm.mem_iff.mpr hz) with rfl | later
      · exact (Ranking.byKey key).le_refl z
      · exact (List.pairwise_cons.mp sorts.sorted).1 z later

/-- The greatest item is the last one of the sorted list. -/
theorem Keyed.extreme_gt (h : Keyed key items) (operation : String) {out : List Value}
    (sorts : (Ranking.byKey key).Sorts items out) :
    extreme operation .gt items = .ok (out.getLastD .nil) := by
  rcases List.eq_nil_or_concat' out with rfl | ⟨before, last, rfl⟩
  · rw [sorts.perm.nil_eq.symm, extreme, List.getLastD_nil]
  · have inside : last ∈ items := sorts.perm.mem_iff.mp (by simp)
    obtain ⟨-, -, below⟩ := Ranking.sorted_append.mp sorts.sorted
    rw [show (before ++ [last]).getLastD .nil = last by simp]
    refine extreme_eq (Ranking.byKey key).le_refl (Ranking.byKey key).le_trans
      (fun a ha b hb ↦ ?_) inside (fun z hz ↦ ?_) fun v hv ↦ h.eq_of_le hv inside
    · refine ⟨_, h.order_eq operation a ha b hb, ?_⟩
      cases order : compare (key a) (key b) with
      | gt => exact (Ranking.byKey key).le_of_lt (Std.OrientedCmp.lt_of_gt order)
      | lt | eq => exact Ordering.isLE_iff_ne_gt.mpr (by rw [order]; decide)
    · rcases List.mem_append.mp (sorts.perm.mem_iff.mpr hz) with earlier | here
      · exact below z earlier last (List.mem_singleton_self last)
      · rw [List.mem_singleton.mp here]
        exact (Ranking.byKey key).le_refl last

theorem Keyed.exists_soleOrder (h : Keyed key items) : ∃ sorted, SoleOrder items sorted := by
  obtain ⟨sorted, -, sorts⟩ := h.exists_sorted
  refine ⟨sorted, fun other perm ↦ ?_, sorts.perm, ?_, h.extreme_lt "min" sorts,
    h.extreme_gt "max" sorts⟩
  · obtain ⟨out, sorted_out, sorts_out⟩ := (h.perm perm).exists_sorted
    rw [sorted_out, h.sorts_unique ⟨sorts_out.perm.trans perm, sorts_out.sorted⟩ sorts]
  · refine sorts.sorted.imp_of_mem fun ha hb le ↦ ?_
    exact ⟨_, h.order_eq "sort" _ (sorts.perm.mem_iff.mp ha) _ (sorts.perm.mem_iff.mp hb),
      Ordering.isLE_iff_ne_gt.mp le⟩

end

theorem keyed_of_integers {items : List Value} (h : ∀ v ∈ items, v.asInt?.isSome = true) :
    Keyed (fun v ↦ (v.asInt?.getD 0).toInt) items := by
  have integer : ∀ v ∈ items, ∃ n, v = .int n := by
    intro v hv
    cases v with
    | int n => exact ⟨n, rfl⟩
    | _ => cases h _ hv
  constructor
  · intro operation a ha b hb
    obtain ⟨n, rfl⟩ := integer a ha
    obtain ⟨k, rfl⟩ := integer b hb
    rfl
  · intro a ha b hb same
    obtain ⟨n, rfl⟩ := integer a ha
    obtain ⟨k, rfl⟩ := integer b hb
    exact congrArg Value.int (Int64.toInt_inj.mp same)

theorem keyed_of_texts {items : List Value} (h : ∀ v ∈ items, v.isText = true) :
    Keyed (fun v ↦ v.asStr?.getD "") items := by
  constructor
  · intro operation a ha b hb
    obtain ⟨s, rfl⟩ := Value.isText_iff.mp (h a ha)
    obtain ⟨t, rfl⟩ := Value.isText_iff.mp (h b hb)
    rfl
  · intro a ha b hb same
    obtain ⟨s, rfl⟩ := Value.isText_iff.mp (h a ha)
    obtain ⟨t, rfl⟩ := Value.isText_iff.mp (h b hb)
    exact congrArg Value.str same

/-! ### The three methods -/

/-- Failure because of the types of two operands. -/
def Mismatches (result : Except Stop Value) : Prop :=
  ∃ operation left right, result = .error (.fault ⟨.typeMismatch operation left right, []⟩)

theorem send_sort (items args : List Value) :
    (Value.list items).send "sort" args = (sortItems items).map .list := rfl

theorem send_min (items args : List Value) :
    (Value.list items).send "min" args = (extreme "min" .lt items).mapError .fault := rfl

theorem send_max (items args : List Value) :
    (Value.list items).send "max" args = (extreme "max" .gt items).mapError .fault := rfl

theorem mismatches_extreme_iff {operation : String} {beats : Ordering} {items : List Value} :
    Mismatches ((extreme operation beats items).mapError .fault) ↔ Mixed items := by
  cases result : extreme operation beats items with
  | ok v =>
    refine iff_of_false ?_ (exists_extreme_iff_not_mixed.mp ⟨v, result⟩)
    rintro ⟨_, _, _, failed⟩
    cases failed
  | error fault =>
    obtain ⟨left, right, rfl⟩ := extreme_eq_error result
    refine iff_of_true ⟨_, _, _, rfl⟩ (by_contra fun plain ↦ ?_)
    obtain ⟨v, found⟩ := exists_extreme_iff_not_mixed.mpr plain
    cases result.symm.trans found

theorem mixed_of_mismatches {items : List Value}
    (h : Mismatches ((sortItems items).map .list)) : Mixed items := by
  obtain ⟨operation, left, right, failed⟩ := h
  cases result : sortItems items with
  | ok out =>
    rw [result] at failed
    cases failed
  | error fault =>
    rw [result] at failed
    cases failed
    by_contra plain
    cases eq_disorder_of_not_mixed plain result

theorem sortItems_of_mixed {items : List Value} (mixed : Mixed items) :
    Mismatches ((sortItems items).map .list) ∨
      Sorting.insertionLimit < items.length ∧
        (sortItems items).map Value.list = .error .disorder := by
  cases result : sortItems items with
  | ok out => exact absurd mixed (not_mixed_of_sortItems result)
  | error stop =>
    rcases sortItems_eq_error result with rfl | ⟨left, right, rfl⟩
    · exact .inr ⟨limit_lt_of_disorder result, rfl⟩
    · exact .inl ⟨_, _, _, rfl⟩

theorem sortItems_of_not_mixed {items : List Value} (plain : ¬Mixed items) :
    (∃ sorted : List Value, sorted.Perm items ∧
        (sortItems items).map Value.list = .ok (.list sorted)) ∨
      Sorting.insertionLimit < items.length ∧
        (sortItems items).map Value.list = .error .disorder := by
  cases result : sortItems items with
  | ok out => exact .inl ⟨out, perm_of_sortItems result, rfl⟩
  | error stop =>
    obtain rfl := eq_disorder_of_not_mixed plain result
    exact .inr ⟨limit_lt_of_disorder result, rfl⟩

/-- What sorting and looking for the least and the greatest item come to.

The least and the greatest item are refused, because of the types of two items, exactly for mixed
lists. Sorting is refused for no other lists, and a mixed list is never sorted. But sorting may
break off on any list that is too long for insertion: on a mixed one before the failed comparison is
reported, and on one that is not mixed as well.

A list of integers, or of strings, is sorted into the one ascending list of its items, whatever
their order was. Its first item is the least and its last the greatest, or both are `nil` if there
are none, and sorting it again changes nothing. -/
theorem sort_min_max (items args : List Value) :
    (Mismatches ((Value.list items).send "min" args) ↔ Mixed items) ∧
    (Mismatches ((Value.list items).send "max" args) ↔ Mixed items) ∧
    (Mismatches ((Value.list items).send "sort" args) → Mixed items) ∧
    (Mixed items → Mismatches ((Value.list items).send "sort" args) ∨
      20 < items.length ∧ (Value.list items).send "sort" args = .error .disorder) ∧
    (¬Mixed items → (∃ sorted : List Value, sorted.Perm items ∧
        (Value.list items).send "sort" args = .ok (.list sorted)) ∨
      20 < items.length ∧ (Value.list items).send "sort" args = .error .disorder) ∧
    ((∀ v ∈ items, v.asInt?.isSome = true) ∨ (∀ v ∈ items, v.isText = true) →
      ∃ sorted, (Value.list items).send "sort" args = .ok (.list sorted) ∧
        sorted.Perm items ∧ Ascending sorted ∧
        (Value.list items).send "min" args = .ok (sorted.headD .nil) ∧
        (Value.list items).send "max" args = .ok (sorted.getLastD .nil) ∧
        (Value.list sorted).send "sort" args = .ok (.list sorted) ∧
        ∀ other : List Value, other.Perm items →
          (Value.list other).send "sort" args = .ok (.list sorted)) := by
  simp only [send_sort, send_min, send_max]
  refine ⟨mismatches_extreme_iff, mismatches_extreme_iff, mixed_of_mismatches,
    sortItems_of_mixed, sortItems_of_not_mixed, fun alike ↦ ?_⟩
  obtain ⟨sorted, order⟩ : ∃ sorted, SoleOrder items sorted := by
    rcases alike with integers | texts
    · exact (keyed_of_integers integers).exists_soleOrder
    · exact (keyed_of_texts texts).exists_soleOrder
  have sorts (other : List Value) (perm : other.Perm items) :
      (sortItems other).map Value.list = .ok (.list sorted) := by
    rw [order.only other perm]
    rfl
  refine ⟨sorted, sorts items (.refl _), order.perm, order.ascending, ?_, ?_,
    sorts sorted order.perm, sorts⟩
  · rw [order.least]
    rfl
  · rw [order.greatest]
    rfl

/-- A mixed list of 21 items on which sorting breaks off instead of reporting a comparison, and one
of numbers: a floating-point number equals two integers of which one is less. -/
theorem sort_breaks_off :
    let mixed := (List.replicate 7 [Value.int 1, .nil, .int 2]).flatten
    let numbers := (List.replicate 7 [Value.int 9007199254740992,
      .float (.ofInt 9007199254740992), .int 9007199254740993]).flatten
    Mixed mixed ∧ (Value.list mixed).send "sort" [] = .error .disorder ∧
      ¬Mixed numbers ∧ (Value.list numbers).send "sort" [] = .error .disorder := by
  refine ⟨⟨by decide, by decide, by decide⟩, rfl, ?_, by rfl⟩
  rintro ⟨-, -, plain⟩
  exact plain (by decide +kernel)

end Formulary.Method
