import Formulary.Ordered

/-!
# Members of collections

Where the entries of a dictionary, and the elements of a set, come from.
-/

namespace Formulary.Ordered

universe u v

variable {α : Type u} {β : Type v} [BEq α] {k : α} {v : β} {entries : List (α × β)} {e : α × β}

theorem mem_of_get?_eq_some (h : get? k entries = some v) : ∃ e ∈ entries, e.2 = v := by
  induction entries with
  | nil => cases h
  | cons first rest ih =>
    rw [get?] at h
    split at h
    · cases h
      exact ⟨first, List.mem_cons_self, rfl⟩
    · obtain ⟨e, he, hv⟩ := ih h
      exact ⟨e, List.mem_cons_of_mem _ he, hv⟩

/-- What is stored under a key is found among those entries, too, to which all with this key
belong. -/
theorem get?_filter (keep : α → Bool) (h : ∀ k', (k == k') = true → keep k' = true)
    (entries : List (α × β)) : get? k (entries.filter fun e ↦ keep e.1) = get? k entries := by
  induction entries with
  | nil => rfl
  | cons first rest ih =>
    by_cases same : (k == first.1) = true
    · simp only [List.filter_cons, h first.1 same, get?, same, if_true]
    · by_cases kept : keep first.1 = true
      · simp only [List.filter_cons, kept, get?, same, if_true, ih]
      · simp only [List.filter_cons, kept, get?, same, ih, Bool.false_eq_true, if_false]

/-- A dictionary keeps its entries when a new key comes. -/
theorem mem_put_of_mem (new : hasKey k entries = false) (h : e ∈ entries) :
    e ∈ put k v entries := by
  induction entries with
  | nil => cases h
  | cons first rest ih =>
    simp only [hasKey, List.any_cons, Bool.or_eq_false_iff] at new
    rw [put, if_neg (by simp [new.1])]
    rcases List.mem_cons.mp h with rfl | h
    · exact List.mem_cons_self
    · exact List.mem_cons_of_mem _ (ih new.2 h)

/-- A new key comes last. -/
theorem put_of_new (new : ∀ e ∈ entries, (k == e.1) = false) :
    put k v entries = entries ++ [(k, v)] := by
  induction entries with
  | nil => rfl
  | cons first rest ih =>
    rw [put, if_neg (by simp [new first List.mem_cons_self]),
      ih fun e he ↦ new e (List.mem_cons_of_mem _ he)]
    rfl

theorem put_of_hasKey_eq_false (new : hasKey k entries = false) :
    put k v entries = entries ++ [(k, v)] :=
  put_of_new fun e he ↦ by simpa using List.any_eq_false.mp new e he

/-- Entries of which no key equals an earlier one are a dictionary as they are. -/
theorem ofEntries_of_distinct (distinct : entries.Pairwise fun a b ↦ (b.1 == a.1) = false) :
    ofEntries entries = entries := by
  have step : ∀ extra acc : List (α × β), (acc ++ extra).Pairwise (fun a b ↦ (b.1 == a.1) = false) →
      merge acc extra = acc ++ extra := by
    intro extra
    induction extra with
    | nil =>
      intro acc _
      simp [merge]
    | cons e extra ih =>
      intro acc distinct
      have new : ∀ a ∈ acc, (e.1 == a.1) = false := fun a ha ↦
        (List.pairwise_append.mp distinct).2.2 a ha e List.mem_cons_self
      have rest := ih (acc ++ [e]) (by simpa using distinct)
      rw [List.append_assoc] at rest
      rw [merge, List.foldl_cons, put_of_new new]
      exact rest
  exact step entries [] distinct

/-- An entry that was not there has the new value, under the new key or one equal to it. -/
theorem mem_put (h : e ∈ put k v entries) :
    e ∈ entries ∨ e.2 = v ∧ (e.1 = k ∨ ∃ old ∈ entries, e.1 = old.1) := by
  induction entries with
  | nil =>
    rw [put, List.mem_singleton] at h
    exact .inr (by simp [h])
  | cons first rest ih =>
    rw [put] at h
    split at h
    · rcases List.mem_cons.mp h with rfl | h
      · exact .inr ⟨rfl, .inr ⟨first, List.mem_cons_self, rfl⟩⟩
      · exact .inl (List.mem_cons_of_mem _ h)
    · rcases List.mem_cons.mp h with rfl | h
      · exact .inl List.mem_cons_self
      · rcases ih h with old | ⟨hv, hk | ⟨old, hold, hk⟩⟩
        · exact .inl (List.mem_cons_of_mem _ old)
        · exact .inr ⟨hv, .inl hk⟩
        · exact .inr ⟨hv, .inr ⟨old, List.mem_cons_of_mem _ hold, hk⟩⟩

/-- The entries of a merged dictionary have keys and values of the two. -/
theorem forall_merge {P : α → Prop} {Q : β → Prop} {extra : List (α × β)}
    (old : ∀ e ∈ entries, P e.1 ∧ Q e.2) (new : ∀ e ∈ extra, P e.1 ∧ Q e.2) :
    ∀ e ∈ merge entries extra, P e.1 ∧ Q e.2 := by
  unfold merge
  induction extra generalizing entries with
  | nil => exact old
  | cons d extra ih =>
    obtain ⟨here, rest⟩ := List.forall_mem_cons.mp new
    refine ih (fun e he ↦ ?_) rest
    rcases mem_put he with he | ⟨hv, hk | ⟨o, ho, hk⟩⟩
    · exact old e he
    · rw [hk, hv]
      exact here
    · rw [hk, hv]
      exact ⟨(old o ho).1, here.2⟩

section

variable {x y : α} {xs ys : List α}

theorem mem_add (h : x ∈ add y xs) : x ∈ xs ∨ x = y := by
  unfold add at h
  split at h
  · exact .inl h
  · simpa using h

theorem mem_add_of_mem (h : x ∈ xs) : x ∈ add y xs := by
  unfold add
  split
  · exact h
  · exact List.mem_append_left _ h

theorem mem_add_self [LawfulBEq α] : y ∈ add y xs := by
  unfold add has
  split
  · next known =>
    obtain ⟨z, hz, same⟩ := List.any_eq_true.mp known
    exact beq_iff_eq.mp same ▸ hz
  · exact List.mem_append_right _ (List.mem_singleton_self y)

/-- The elements of a union are among those of the two. -/
theorem mem_union (h : x ∈ union xs ys) : x ∈ xs ∨ x ∈ ys := by
  unfold union at h
  induction ys generalizing xs with
  | nil => exact .inl h
  | cons y ys ih =>
    rcases ih h with h | h
    · rcases mem_add h with h | rfl
      · exact .inl h
      · exact .inr List.mem_cons_self
    · exact .inr (List.mem_cons_of_mem _ h)

theorem mem_union_iff [LawfulBEq α] : x ∈ union xs ys ↔ x ∈ xs ∨ x ∈ ys := by
  refine ⟨mem_union, ?_⟩
  unfold union
  induction ys generalizing xs with
  | nil => simp
  | cons y ys ih =>
    rintro (h | h)
    · exact ih (.inl (mem_add_of_mem h))
    · rcases List.mem_cons.mp h with rfl | h
      · exact ih (.inl mem_add_self)
      · exact ih (.inr h)

theorem nodup_add [LawfulBEq α] (h : xs.Nodup) : (add y xs).Nodup := by
  unfold add has
  split
  · exact h
  · next new =>
    rw [List.nodup_append]
    refine ⟨h, by simp, ?_⟩
    intro a ha b hb
    rw [List.mem_singleton] at hb
    intro same
    exact new (List.any_eq_true.mpr ⟨a, ha, by simp [same, hb]⟩)

theorem nodup_union [LawfulBEq α] (h : xs.Nodup) : (union xs ys).Nodup := by
  unfold union
  induction ys generalizing xs with
  | nil => exact h
  | cons y ys ih => exact ih (nodup_add h)

end

end Formulary.Ordered
