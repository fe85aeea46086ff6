import Formulary.Buckets
import Formulary.Ordered

/-!
# Large insertion-ordered collections

The operations that take many members at once, by way of an index of the members' hash codes. Each
gives the same collection as the one that looks at every member in turn: equal members have the same
code, so nothing is missed.
-/

namespace Formulary.Indexed

universe u v

variable {α : Type u} {β : Type v} [BEq α] [Hashable α]

/-- Whether an element equal to `x` is in the index. -/
def has (index : Buckets α) (x : α) : Bool := (index.bucket (hash x)).any fun y ↦ x == y

theorem has_ofList [LawfulHashable α] (xs : List α) (x : α) :
    has (Buckets.ofList hash xs) x = Ordered.has x xs :=
  Buckets.any_bucket_ofList _ _ _ _ fun _ _ h ↦ (LawfulHashable.hash_eq _ _ h).symm

/-- The elements of `ys` that are neither in the index nor repeated, in order, after `fresh`, which
is in reverse. -/
def collect (index : Buckets α) (fresh : List α) : List α → List α
  | [] => fresh.reverse
  | y :: ys =>
    if has index y then collect index fresh ys
    else collect (index.add (hash y) y) (y :: fresh) ys

/-- Elements of `xs`, then those of `ys` that are new, in order. -/
def union (xs ys : List α) : List α :=
  if Buckets.isFew ys then Ordered.union xs ys else xs ++ collect (Buckets.ofList hash xs) [] ys

/-- The set of these elements. -/
def ofElements (xs : List α) : List α := union [] xs

/-- Elements of `xs` that are not in `ys`. -/
def difference (xs ys : List α) : List α :=
  if Buckets.isFew xs then Ordered.difference xs ys
  else
    let index := Buckets.ofList hash ys
    xs.filter fun x ↦ !has index x

omit [BEq α] in
theorem ofList_append_singleton (xs : List α) (x : α) :
    (Buckets.ofList hash xs).add (hash x) x = Buckets.ofList hash (xs ++ [x]) := by
  simp [Buckets.ofList, Buckets.addAll]

theorem append_collect [LawfulHashable α] (xs fresh ys : List α) :
    xs ++ collect (Buckets.ofList hash (xs ++ fresh.reverse)) fresh ys =
      Ordered.union (xs ++ fresh.reverse) ys := by
  induction ys generalizing fresh with
  | nil => rfl
  | cons y ys ih =>
    have step : Ordered.union (xs ++ fresh.reverse) (y :: ys) =
        Ordered.union (Ordered.add y (xs ++ fresh.reverse)) ys := rfl
    rw [step, collect, has_ofList, Ordered.add]
    split
    · exact ih fresh
    · have grown := ih (y :: fresh)
      rw [List.reverse_cons, ← List.append_assoc] at grown
      rw [ofList_append_singleton, grown]

theorem union_eq [LawfulHashable α] (xs ys : List α) : union xs ys = Ordered.union xs ys := by
  unfold union
  split
  · rfl
  · simpa using append_collect xs [] ys

theorem ofElements_eq [LawfulHashable α] (xs : List α) : ofElements xs = Ordered.ofElements xs :=
  union_eq [] xs

theorem difference_eq [LawfulHashable α] (xs ys : List α) :
    difference xs ys = Ordered.difference xs ys := by
  unfold difference Ordered.difference
  split
  · rfl
  · simp only [has_ofList]

/-! ### Dictionaries -/

/-- The keys with their places, counted from `start`. -/
def places (start : Nat) : List (α × β) → List (α × Nat)
  | [] => []
  | e :: rest => (e.1, start) :: places (start + 1) rest

/-- Entries by place, with an index of the keys' places. -/
structure Dictionary (α : Type u) (β : Type v) where
  entries : Array (α × β)
  index : Buckets (α × Nat)

namespace Dictionary

/-- The dictionary of these entries. -/
def ofList (entries : List (α × β)) : Dictionary α β :=
  ⟨entries.toArray, Buckets.ofList (fun e ↦ hash e.1) (places 0 entries)⟩

/-- Stores `v` under `k`, in the place of an equal key if there is one and last otherwise. -/
def put (k : α) (v : β) : Dictionary α β → Dictionary α β
  | ⟨entries, index⟩ =>
    let last := entries.size
    match (index.bucket (hash k)).find? fun e ↦ k == e.1 with
    | some (_, i) => ⟨entries.modify i fun e ↦ (e.1, v), index⟩
    | none => ⟨entries.push (k, v), index.add (hash k) (k, last)⟩

end Dictionary

/-- Stores every entry of `extra`, one after the other. -/
def merge (entries extra : List (α × β)) : List (α × β) :=
  if Buckets.isFew extra then Ordered.merge entries extra
  else (extra.foldl (fun d e ↦ d.put e.1 e.2) (Dictionary.ofList entries)).entries.toList

/-- The dictionary that holds these entries, later ones replacing earlier values. -/
def ofEntries (entries : List (α × β)) : List (α × β) := merge [] entries

omit [BEq α] [Hashable α] in
theorem places_append (entries : List (α × β)) (e : α × β) (start : Nat) :
    places start (entries ++ [e]) = places start entries ++ [(e.1, start + entries.length)] := by
  induction entries generalizing start with
  | nil => rfl
  | cons d rest ih => simp [places, ih, Nat.add_comm, Nat.add_left_comm]

omit [BEq α] [Hashable α] in
theorem places_modify (entries : List (α × β)) (v : β) (i start : Nat) :
    places start (entries.modify i fun e ↦ (e.1, v)) = places start entries := by
  induction entries generalizing i start with
  | nil => simp [places]
  | cons d rest ih => cases i <;> simp [places, ih]

omit [Hashable α] in
theorem put_of_find?_none (k : α) (v : β) (entries : List (α × β)) (start : Nat)
    (h : (places start entries).find? (fun e ↦ k == e.1) = none) :
    Ordered.put k v entries = entries ++ [(k, v)] := by
  induction entries generalizing start with
  | nil => rfl
  | cons d rest ih =>
    cases hk : k == d.1 with
    | true => simp [places, hk] at h
    | false =>
      simp only [places, List.find?_cons, hk] at h
      simp [Ordered.put, hk, ih (start + 1) h]

omit [Hashable α] in
theorem put_of_find?_some (k : α) (v : β) (entries : List (α × β)) (start : Nat) (found : α × Nat)
    (h : (places start entries).find? (fun e ↦ k == e.1) = some found) :
    start ≤ found.2 ∧
      Ordered.put k v entries = entries.modify (found.2 - start) fun e ↦ (e.1, v) := by
  induction entries generalizing start with
  | nil => simp [places] at h
  | cons d rest ih =>
    cases hk : k == d.1 with
    | true =>
      simp only [places, List.find?_cons, hk, Option.some.injEq] at h
      subst h
      simp [Ordered.put, hk]
    | false =>
      simp only [places, List.find?_cons, hk] at h
      obtain ⟨le, eq⟩ := ih (start + 1) h
      obtain ⟨n, hn⟩ : ∃ n, found.2 - start = n + 1 := ⟨found.2 - start - 1, by omega⟩
      have hn' : found.2 - (start + 1) = n := by omega
      exact ⟨by omega, by simp [Ordered.put, hk, eq, hn, hn']⟩

theorem Dictionary.put_ofList [LawfulHashable α] (k : α) (v : β) (entries : List (α × β)) :
    (ofList entries).put k v = ofList (Ordered.put k v entries) := by
  have search : ((Buckets.ofList (fun e ↦ hash e.1) (places 0 entries)).bucket (hash k)).find?
      (fun e ↦ k == e.1) = (places 0 entries).find? fun e ↦ k == e.1 :=
    Buckets.find?_bucket_ofList _ _ _ _ fun e _ h ↦ (LawfulHashable.hash_eq _ _ h).symm
  simp only [ofList, put, search]
  split
  · rename_i i h
    have eq := (put_of_find?_some k v entries 0 _ h).2
    simp only [Nat.sub_zero] at eq
    rw [eq]
    simp [places_modify]
  · rename_i h
    rw [put_of_find?_none k v entries 0 h]
    simp [places_append, Buckets.ofList, Buckets.addAll]

theorem foldl_put_ofList [LawfulHashable α] (entries extra : List (α × β)) :
    extra.foldl (fun d e ↦ d.put e.1 e.2) (Dictionary.ofList entries) =
      Dictionary.ofList (Ordered.merge entries extra) := by
  induction extra generalizing entries with
  | nil => rfl
  | cons e extra ih =>
    rw [List.foldl_cons, Dictionary.put_ofList, ih]
    rfl

theorem merge_eq [LawfulHashable α] (entries extra : List (α × β)) :
    merge entries extra = Ordered.merge entries extra := by
  unfold merge
  split
  · rfl
  · rw [foldl_put_ofList]
    rfl

theorem ofEntries_eq [LawfulHashable α] (entries : List (α × β)) :
    ofEntries entries = Ordered.ofEntries entries := merge_eq [] entries

end Formulary.Indexed
