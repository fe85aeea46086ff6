import Std.Data.HashMap

/-!
# Buckets

Items sorted into buckets by a code, each bucket in the order in which its items came. A bucket of
the items of a list is the part of the list with that code (`bucket_ofList`).
-/

namespace Formulary

universe u

/-- Items in buckets by their codes. -/
structure Buckets (α : Type u) where
  table : Std.HashMap UInt64 (List α) := ∅

namespace Buckets

variable {α : Type u}

/-- No items. -/
def empty : Buckets α := {}

/-- The items with a code. -/
def bucket (b : Buckets α) (code : UInt64) : List α := b.table.getD code []

/-- Adds an item last in the bucket of its code. -/
def add (b : Buckets α) (code : UInt64) (x : α) : Buckets α :=
  ⟨b.table.insert code (b.bucket code ++ [x])⟩

/-- Adds items one after the other. -/
def addAll (b : Buckets α) (code : α → UInt64) (xs : List α) : Buckets α :=
  xs.foldl (fun b x ↦ b.add (code x) x) b

/-- The items of a list in buckets. -/
def ofList (code : α → UInt64) (xs : List α) : Buckets α := empty.addAll code xs

/-- The most items that are looked through without sorting them into buckets. -/
def scanLimit : Nat := 8

/-- Whether items are so few that buckets do not pay. -/
def isFew (xs : List α) : Bool := (xs.drop scanLimit).isEmpty

@[simp] theorem bucket_empty (c : UInt64) : (empty : Buckets α).bucket c = [] := by
  simp [empty, bucket]

theorem bucket_add (b : Buckets α) (code c : UInt64) (x : α) :
    (b.add code x).bucket c = b.bucket c ++ if code = c then [x] else [] := by
  by_cases h : code = c
  · subst h
    simp [add, bucket]
  · simp [add, bucket, Std.HashMap.getD_insert, h]

theorem bucket_addAll (b : Buckets α) (code : α → UInt64) (xs : List α) (c : UInt64) :
    (b.addAll code xs).bucket c = b.bucket c ++ xs.filter fun x ↦ code x == c := by
  induction xs generalizing b with
  | nil => simp [addAll]
  | cons x xs ih =>
    have step : b.addAll code (x :: xs) = (b.add (code x) x).addAll code xs := rfl
    rw [step, ih, bucket_add]
    by_cases h : code x = c <;> simp [h]

/-- The bucket of a code holds the items with that code, in order. -/
theorem bucket_ofList (code : α → UInt64) (xs : List α) (c : UInt64) :
    (ofList code xs).bucket c = xs.filter fun x ↦ code x == c := by
  simp [ofList, bucket_addAll]

/-- A test that only items with a code can pass is settled in that code's bucket. -/
theorem any_bucket_ofList (code : α → UInt64) (xs : List α) (c : UInt64) (p : α → Bool)
    (h : ∀ x ∈ xs, p x = true → code x = c) :
    ((ofList code xs).bucket c).any p = xs.any p := by
  rw [bucket_ofList, Bool.eq_iff_iff]
  simp only [List.any_eq_true, List.mem_filter, beq_iff_eq]
  exact ⟨fun ⟨x, hx, hp⟩ ↦ ⟨x, hx.1, hp⟩, fun ⟨x, hx, hp⟩ ↦ ⟨x, ⟨hx, h x hx hp⟩, hp⟩⟩

/-- A search that only items with a code can end is done in that code's bucket. -/
theorem find?_bucket_ofList (code : α → UInt64) (xs : List α) (c : UInt64) (p : α → Bool)
    (h : ∀ x ∈ xs, p x = true → code x = c) :
    ((ofList code xs).bucket c).find? p = xs.find? p := by
  rw [bucket_ofList]
  induction xs with
  | nil => rfl
  | cons x xs ih =>
    have rest := ih fun y hy ↦ h y (List.mem_cons_of_mem _ hy)
    by_cases hx : code x = c
    · simp [hx, List.find?_cons, rest]
    · have hp : p x = false := Bool.eq_false_iff.mpr fun hp ↦ hx (h x (by simp) hp)
      simp [hx, hp, rest]

end Buckets

end Formulary
