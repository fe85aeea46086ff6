import Formulary.Ordered

/-!
# Dictionaries by key

What is found in a dictionary, and in which order its keys stand. A dictionary that is carried over
to other keys, along a map that keeps keys apart, is the same dictionary (`merge_map`).
-/

namespace Formulary.Ordered

universe u v

variable {α : Type u} {β : Type v} [BEq α]

/-! ### Keys and values -/

theorem keys_put (k : α) (v : β) (entries : List (α × β)) :
    (put k v entries).map Prod.fst = add k (entries.map Prod.fst) := by
  induction entries with
  | nil => rfl
  | cons e rest ih =>
    by_cases same : (k == e.1) = true
    · simp [put, add, has, same]
    · have later : (put k v rest).map Prod.fst = add k (rest.map Prod.fst) := ih
      simp only [add, has, List.any_map, List.map_cons, List.any_cons, same, Bool.false_or]
        at later ⊢
      rw [put, if_neg same, List.map_cons, later]
      split <;> rfl

/-- The keys of a dictionary stand in the order in which they came first. -/
theorem keys_merge (entries extra : List (α × β)) :
    (merge entries extra).map Prod.fst = union (entries.map Prod.fst) (extra.map Prod.fst) := by
  induction extra generalizing entries with
  | nil => rfl
  | cons e extra ih =>
    calc (merge (put e.1 e.2 entries) extra).map Prod.fst
        = union ((put e.1 e.2 entries).map Prod.fst) (extra.map Prod.fst) := ih _
      _ = union (add e.1 (entries.map Prod.fst)) (extra.map Prod.fst) := by rw [keys_put]

theorem keys_ofEntries (entries : List (α × β)) :
    (ofEntries entries).map Prod.fst = ofElements (entries.map Prod.fst) :=
  keys_merge [] entries

theorem entry_mem_of_get?_eq_some [LawfulBEq α] {k : α} {v : β} {entries : List (α × β)}
    (h : get? k entries = some v) : (k, v) ∈ entries := by
  induction entries with
  | nil => cases h
  | cons e rest ih =>
    rw [get?] at h
    split at h
    · next same =>
      cases h
      rw [beq_iff_eq.mp same]
      exact List.mem_cons_self
    · exact List.mem_cons_of_mem _ (ih h)

theorem get?_put [LawfulBEq α] (k k' : α) (v : β) (entries : List (α × β)) :
    get? k (put k' v entries) = if k == k' then some v else get? k entries := by
  induction entries with
  | nil => rfl
  | cons e rest ih =>
    by_cases same : k' = e.1
    · subst same
      by_cases found : k = e.1 <;> simp [put, get?, found]
    · by_cases found : k = e.1
      · have other : k ≠ k' := fun h ↦ same (h ▸ found)
        simp [put, get?, same, found ▸ other, found]
      · simp [put, get?, same, found, ih]

/-- Entries under other keys do not change what is found. -/
theorem get?_merge_of_forall_ne [LawfulBEq α] {k : α} {extra : List (α × β)}
    (other : ∀ e ∈ extra, e.1 ≠ k) (entries : List (α × β)) :
    get? k (merge entries extra) = get? k entries := by
  induction extra generalizing entries with
  | nil => rfl
  | cons e extra ih =>
    obtain ⟨here, later⟩ := List.forall_mem_cons.mp other
    have apart : (k == e.1) = false := beq_false_of_ne here.symm
    calc get? k (merge (put e.1 e.2 entries) extra)
        = get? k (put e.1 e.2 entries) := ih later _
      _ = get? k entries := by simp [get?_put, apart]

/-- Of several values under one key the last one counts. -/
theorem get?_ofEntries_append [LawfulBEq α] {k : α} {v : β} {before after : List (α × β)}
    (last : ∀ e ∈ after, e.1 ≠ k) : get? k (ofEntries (before ++ (k, v) :: after)) = some v := by
  have split : ofEntries (before ++ (k, v) :: after) =
      merge (put k v (ofEntries before)) after := by
    simp [ofEntries, merge]
  rw [split, get?_merge_of_forall_ne last, get?_put, if_pos (beq_self_eq_true k)]

/-! ### Carried over to other keys -/

section

variable {α' : Type u} {β' : Type v} [BEq α'] {g : α → α'}

theorem get?_map (keeps : ∀ a b, (g a == g b) = (a == b)) (h : β → β') (k : α)
    (entries : List (α × β)) :
    get? (g k) (entries.map (Prod.map g h)) = (get? k entries).map h := by
  induction entries with
  | nil => rfl
  | cons e rest ih =>
    by_cases same : (k == e.1) = true
    · simp [get?, keeps, same]
    · simp [get?, keeps, same, ih]

theorem put_map (keeps : ∀ a b, (g a == g b) = (a == b)) (h : β → β') (k : α) (v : β)
    (entries : List (α × β)) :
    put (g k) (h v) (entries.map (Prod.map g h)) = (put k v entries).map (Prod.map g h) := by
  induction entries with
  | nil => rfl
  | cons e rest ih =>
    obtain ⟨k', v'⟩ := e
    by_cases same : (k == k') = true
    · simp [put, keeps, same]
    · simp [put, keeps, same, ih]

theorem merge_map (keeps : ∀ a b, (g a == g b) = (a == b)) (h : β → β')
    (entries extra : List (α × β)) :
    merge (entries.map (Prod.map g h)) (extra.map (Prod.map g h)) =
      (merge entries extra).map (Prod.map g h) := by
  induction extra generalizing entries with
  | nil => rfl
  | cons e extra ih =>
    calc merge (put (g e.1) (h e.2) (entries.map (Prod.map g h))) (extra.map (Prod.map g h))
        = merge ((put e.1 e.2 entries).map (Prod.map g h)) (extra.map (Prod.map g h)) := by
          rw [put_map keeps]
      _ = (merge (put e.1 e.2 entries) extra).map (Prod.map g h) := ih _

theorem ofEntries_map (keeps : ∀ a b, (g a == g b) = (a == b)) (h : β → β')
    (entries : List (α × β)) :
    ofEntries (entries.map (Prod.map g h)) = (ofEntries entries).map (Prod.map g h) :=
  merge_map keeps h [] entries

theorem hasKey_map (keeps : ∀ a b, (g a == g b) = (a == b)) (h : β → β') (k : α)
    (entries : List (α × β)) :
    hasKey (g k) (entries.map (Prod.map g h)) = hasKey k entries := by
  simp [hasKey, List.any_map, Function.comp_def, keeps]

theorem has_map (keeps : ∀ a b, (g a == g b) = (a == b)) (x : α) (xs : List α) :
    has (g x) (xs.map g) = has x xs := by
  simp [has, List.any_map, Function.comp_def, keeps]

theorem add_map (keeps : ∀ a b, (g a == g b) = (a == b)) (x : α) (xs : List α) :
    add (g x) (xs.map g) = (add x xs).map g := by
  rw [add, add, has_map keeps]
  split <;> simp

theorem union_map (keeps : ∀ a b, (g a == g b) = (a == b)) (xs ys : List α) :
    union (xs.map g) (ys.map g) = (union xs ys).map g := by
  induction ys generalizing xs with
  | nil => rfl
  | cons y ys ih =>
    calc union (add (g y) (xs.map g)) (ys.map g)
        = union ((add y xs).map g) (ys.map g) := by rw [add_map keeps]
      _ = (union (add y xs) ys).map g := ih _

theorem difference_map (keeps : ∀ a b, (g a == g b) = (a == b)) (xs ys : List α) :
    difference (xs.map g) (ys.map g) = (difference xs ys).map g := by
  simp [difference, List.filter_map, Function.comp_def, has_map keeps]

end

end Formulary.Ordered
