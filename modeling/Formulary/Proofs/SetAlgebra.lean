import Formulary.Proofs.Amending
import Formulary.Proofs.EqualityLaws

/-!
# Sets as sets

Sets keep an order, and their elements are told apart by equality, which knows no order at any
depth. Two well-formed sets are equal just if they have the same elements (`Value.set_beq_iff`).
Sums and differences of sets have the elements that they should have, so they obey the laws of sets
up to equality (`Value.set_algebra`).
-/

namespace Formulary

/-! ### Elements that are told apart -/

namespace Ordered

variable {α : Type} [BEq α] {P : α → Prop} {x y : α} {xs ys : List α}

theorem has_eq_true_iff : has x xs = true ↔ ∃ y ∈ xs, (x == y) = true := List.any_eq_true

theorem has_append : has x (xs ++ ys) = (has x xs || has x ys) := List.any_append

theorem has_singleton : has x [y] = (x == y) := by simp [has]

/-- Equal things are equal to the same elements. -/
theorem has_congr (apart : TellsApart P) (hx : P x) (hy : P y) (hxs : ∀ z ∈ xs, P z)
    (same : (x == y) = true) : has x xs = has y xs := by
  induction xs with
  | nil => rfl
  | cons z zs ih =>
    obtain ⟨hz, hzs⟩ := List.forall_mem_cons.mp hxs
    have rest := ih hzs
    simp only [has, List.any_cons] at rest ⊢
    rw [apart.congr hx hy hz same, rest]

theorem has_add (apart : TellsApart P) (hx : P x) (hy : P y) (hxs : ∀ z ∈ xs, P z) :
    has x (add y xs) = (has x xs || x == y) := by
  unfold add
  split
  · next known =>
    by_cases same : (x == y) = true
    · rw [has_congr apart hx hy hxs same, known, Bool.true_or]
    · rw [Bool.eq_false_of_not_eq_true same, Bool.or_false]
  · rw [has_append, has_singleton]

theorem has_union (apart : TellsApart P) (hx : P x) (hxs : ∀ z ∈ xs, P z) (hys : ∀ z ∈ ys, P z) :
    has x (union xs ys) = (has x xs || has x ys) := by
  induction ys generalizing xs with
  | nil => exact (Bool.or_false _).symm
  | cons y ys ih =>
    obtain ⟨hy, hys⟩ := List.forall_mem_cons.mp hys
    have grown : ∀ z ∈ add y xs, P z := fun z hz ↦ (mem_add hz).elim (hxs z) (· ▸ hy)
    calc has x (union (add y xs) ys)
        = (has x (add y xs) || has x ys) := ih grown hys
      _ = (has x xs || (x == y) || has x ys) := by rw [has_add apart hx hy hxs]
      _ = (has x xs || has x (y :: ys)) := Bool.or_assoc _ _ _

theorem has_difference (apart : TellsApart P) (hx : P x) (hxs : ∀ z ∈ xs, P z)
    (hys : ∀ z ∈ ys, P z) : has x (difference xs ys) = (has x xs && !has x ys) := by
  rw [Bool.eq_iff_iff, Bool.and_eq_true, has_eq_true_iff, has_eq_true_iff]
  constructor
  · rintro ⟨z, hz, same⟩
    obtain ⟨hz, other⟩ := List.mem_filter.mp hz
    rw [← has_congr apart hx (hxs z hz) hys same] at other
    exact ⟨⟨z, hz, same⟩, other⟩
  · rintro ⟨⟨z, hz, same⟩, other⟩
    rw [has_congr apart hx (hxs z hz) hys same] at other
    exact ⟨z, List.mem_filter.mpr ⟨hz, other⟩, same⟩

/-- Things of which none is equal to an earlier one are added in their order. -/
theorem union_eq_append (distinct : ys.Pairwise fun a b ↦ (b == a) = false) :
    union xs ys = xs ++ ys.filter fun y ↦ !has y xs := by
  induction ys generalizing xs with
  | nil => exact (List.append_nil xs).symm
  | cons y ys ih =>
    obtain ⟨first, later⟩ := List.pairwise_cons.mp distinct
    have step : union xs (y :: ys) = union (add y xs) ys := rfl
    by_cases known : has y xs = true
    · rw [step, add, if_pos known, ih later, List.filter_cons_of_neg (by simp [known])]
    · have same : ys.filter (fun z ↦ !has z (xs ++ [y])) = ys.filter fun z ↦ !has z xs := by
        refine List.filter_congr fun z hz ↦ ?_
        rw [has_append, has_singleton, first z hz, Bool.or_false]
      rw [step, add, if_neg known, ih later, same, List.filter_cons_of_pos (by simp [known]),
        List.append_assoc]
      rfl

end Ordered

namespace Value

open Ordered (has union difference)

variable {as bs cs : List Value}

/-! ### Sets with the same elements -/

/-- What is in a set is in a set that is equal to it. -/
theorem has_of_set_beq (ha : (set as).WellFormed) (hb : (set bs).WellFormed)
    (same : (set as == set bs) = true) {x : Value} (hx : x.WellFormed) (h : has x as = true) :
    has x bs = true := by
  obtain ⟨a, hm, here⟩ := Ordered.has_eq_true_iff.mp h
  rw [beq_eq_equal] at same
  obtain ⟨_, ⟨rfl⟩, -, each⟩ := equal_set_iff.mp same
  obtain ⟨b, hm', there⟩ := each a hm
  rw [← beq_eq_equal] at there
  have whole := equal_trans hx (ha.member a hm) (hb.member b hm') here there
  exact Ordered.has_eq_true_iff.mpr ⟨b, hm', whole⟩

/-- A set is no larger than one that has all its elements. -/
theorem length_le_of_has (ha : (set as).WellFormed) (hb : (set bs).WellFormed)
    (each : ∀ a ∈ as, has a bs = true) : as.length ≤ bs.length := by
  have apart : as.Pairwise fun a a' ↦ ∀ b ∈ bs, (a == b) = true → ¬(a' == b) = true :=
    partners_apart (List.Pairwise.imp (fun h ↦ by simp [h.1]) ha.self)
      (fun a h b h' same ↦ (equal_symm (hb.member b h') (ha.member a h)).trans same)
      (fun a h b h' a' h'' ↦ equal_trans (ha.member a h) (hb.member b h') (ha.member a' h''))
  obtain ⟨cs, sub, same⟩ :=
    exists_partners apart fun a h ↦ Ordered.has_eq_true_iff.mp (each a h)
  exact same.length_eq.le.trans sub.length_le

/-- Sets are equal just if they have the same elements. -/
theorem set_beq_iff (ha : (set as).WellFormed) (hb : (set bs).WellFormed) :
    (set as == set bs) = true ↔ ∀ x : Value, x.WellFormed → has x as = has x bs := by
  constructor
  · intro same x hx
    have back := (equal_symm hb ha).trans same
    exact Bool.eq_iff_iff.mpr ⟨has_of_set_beq ha hb same hx, has_of_set_beq hb ha back hx⟩
  · intro same
    have self : ∀ {xs : List Value}, ∀ v ∈ xs, has v xs = true := fun v hv ↦
      Ordered.has_eq_true_iff.mpr ⟨v, hv, beq_self_eq_true v⟩
    have forth : ∀ a ∈ as, has a bs = true := fun a h ↦ same a (ha.member a h) ▸ self a h
    have back : ∀ b ∈ bs, has b as = true := fun b h ↦ same b (hb.member b h) ▸ self b h
    rw [beq_eq_equal]
    refine equal_set_iff.mpr ⟨bs, rfl,
      (length_le_of_has ha hb forth).antisymm (length_le_of_has hb ha back), fun a h ↦ ?_⟩
    simpa only [beq_eq_equal] using Ordered.has_eq_true_iff.mp (forth a h)

/-! ### Union and difference -/

theorem wellFormed_union (ha : (set as).WellFormed) (hb : (set bs).WellFormed) :
    (set (union as bs)).WellFormed :=
  every_of_set (distinct_union ha.member hb.member ha.self) fun v hv ↦
    (Ordered.mem_union hv).elim (ha.member v) (hb.member v)

theorem wellFormed_difference (ha : (set as).WellFormed) : (set (difference as bs)).WellFormed :=
  every_of_set (List.Pairwise.filter _ ha.self) fun v hv ↦ ha.member v (List.mem_of_mem_filter hv)

theorem has_union (ha : (set as).WellFormed) (hb : (set bs).WellFormed) {x : Value}
    (hx : x.WellFormed) : has x (union as bs) = (has x as || has x bs) :=
  Ordered.has_union tellsApart_wellFormed hx ha.member hb.member

theorem has_difference (ha : (set as).WellFormed) (hb : (set bs).WellFormed) {x : Value}
    (hx : x.WellFormed) : has x (difference as bs) = (has x as && !has x bs) :=
  Ordered.has_difference tellsApart_wellFormed hx ha.member hb.member

/-- The operators on sets, in terms of the elements and their order. -/
theorem binary_set (hb : (set bs).WellFormed) :
    binary .add (set as) (set bs) = .ok (set (union as bs)) ∧
      union as bs = as ++ (bs.filter fun b ↦ !has b as) ∧
      binary .sub (set as) (set bs) = .ok (set (difference as bs)) ∧
      difference as bs = as.filter fun a ↦ !has a bs := by
  refine ⟨?_, Ordered.union_eq_append (List.Pairwise.imp And.right hb.self), ?_, rfl⟩
  · rw [← Indexed.union_eq]
    rfl
  · rw [← Indexed.difference_eq]
    rfl

/-- Sums and differences of sets obey the laws of sets.

The elements of a sum are those of the two, and the elements of a difference are those of the first
that are not in the second; what is looked for may be any value without an element or a key twice.
Sums and differences are well-formed. A sum lists the elements of the first and then, in their
order, those of the second that are new; a difference keeps the order of the first. Hence, up to
equality, sums are commutative, associative and idempotent, adding a set and taking it away leaves
the difference, taking a set away and adding it leaves the sum, and equal sets have equal sums and
differences. -/
theorem set_algebra (ha : (set as).WellFormed) (hb : (set bs).WellFormed)
    (hc : (set cs).WellFormed) :
    (binary .add (set as) (set bs) = .ok (set (union as bs)) ∧
      union as bs = as ++ (bs.filter fun b ↦ !has b as) ∧
      binary .sub (set as) (set bs) = .ok (set (difference as bs)) ∧
      difference as bs = as.filter fun a ↦ !has a bs) ∧
    (set (union as bs)).WellFormed ∧ (set (difference as bs)).WellFormed ∧
    (∀ x : Value, x.WellFormed → (has x (union as bs) = true ↔ has x as = true ∨ has x bs = true) ∧
      (has x (difference as bs) = true ↔ has x as = true ∧ has x bs = false)) ∧
    (set (union as bs) == set (union bs as)) = true ∧
    (set (union (union as bs) cs) == set (union as (union bs cs))) = true ∧
    (set (union as as) == set as) = true ∧
    (set (difference (union as bs) bs) == set (difference as bs)) = true ∧
    (set (union (difference as bs) bs) == set (union as bs)) = true ∧
    ∀ as' bs', (set as').WellFormed → (set bs').WellFormed →
      (set as == set as') = true → (set bs == set bs') = true →
      (set (union as bs) == set (union as' bs')) = true ∧
        (set (difference as bs) == set (difference as' bs')) = true := by
  have sum := wellFormed_union ha hb
  have diff : (set (difference as bs)).WellFormed := wellFormed_difference ha
  refine ⟨binary_set hb, sum, diff, fun x hx ↦ ?_, ?_, ?_, ?_, ?_, ?_, ?_⟩
  · rw [has_union ha hb hx, has_difference ha hb hx]
    simp
  · refine (set_beq_iff sum (wellFormed_union hb ha)).mpr fun x hx ↦ ?_
    rw [has_union ha hb hx, has_union hb ha hx, Bool.or_comm]
  · have later := wellFormed_union hb hc
    refine (set_beq_iff (wellFormed_union sum hc) (wellFormed_union ha later)).mpr fun x hx ↦ ?_
    rw [has_union sum hc hx, has_union ha hb hx, has_union ha later hx, has_union hb hc hx,
      Bool.or_assoc]
  · refine (set_beq_iff (wellFormed_union ha ha) ha).mpr fun x hx ↦ ?_
    rw [has_union ha ha hx, Bool.or_self]
  · refine (set_beq_iff (wellFormed_difference sum) diff).mpr fun x hx ↦ ?_
    rw [has_difference sum hb hx, has_union ha hb hx, has_difference ha hb hx]
    cases has x bs <;> simp
  · refine (set_beq_iff (wellFormed_union diff hb) sum).mpr fun x hx ↦ ?_
    rw [has_union diff hb hx, has_difference ha hb hx, has_union ha hb hx]
    cases has x bs <;> simp
  · intro as' bs' ha' hb' sameA sameB
    have memA := (set_beq_iff ha ha').mp sameA
    have memB := (set_beq_iff hb hb').mp sameB
    constructor
    · refine (set_beq_iff sum (wellFormed_union ha' hb')).mpr fun x hx ↦ ?_
      rw [has_union ha hb hx, has_union ha' hb' hx, memA x hx, memB x hx]
    · refine (set_beq_iff diff (wellFormed_difference ha')).mpr fun x hx ↦ ?_
      rw [has_difference ha hb hx, has_difference ha' hb' hx, memA x hx, memB x hx]

end Value

/-! ### A set and the same with its elements turned round -/

namespace Shuffled

open Value (binary)
open Ordered (has)

/-- What the two sets have in common, a NaN and a map, is in their sum once, and not in their
difference. -/
theorem sum_turned :
    bag.WellFormed ∧ turned.WellFormed ∧ binary .add bag turned = .ok bag ∧
      binary .add turned bag = .ok turned ∧ (bag == turned) = true ∧
      binary .sub bag turned = .ok (.set []) := by
  obtain ⟨⟨sum, listed, diff, left⟩, -, -, -, comm, -⟩ :=
    Value.set_algebra wellFormed_bag wellFormed_turned wellFormed_bag
  obtain ⟨⟨sum', listed', -⟩, -⟩ :=
    Value.set_algebra wellFormed_turned wellFormed_bag wellFormed_bag
  have none : [Value.float .nan, .map entries].filter
      (fun a ↦ !has a [.map entries.reverse, .float .nan]) = [] := by
    simp only [has, Value.beq_eq_equal]
    decide
  have none' : [Value.map entries.reverse, .float .nan].filter
      (fun a ↦ !has a [.float .nan, .map entries]) = [] := by
    simp only [has, Value.beq_eq_equal]
    decide
  rw [none', List.append_nil] at listed
  rw [none, List.append_nil] at listed'
  rw [listed, listed'] at comm
  rw [listed] at sum
  rw [listed'] at sum'
  rw [left, none] at diff
  exact ⟨wellFormed_bag, wellFormed_turned, sum, sum', comm, diff⟩

end Shuffled

end Formulary
