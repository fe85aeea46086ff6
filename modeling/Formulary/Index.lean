import Formulary.Buckets
import Formulary.Text.Part

/-!
# Indexes of collections

What a collection keeps beside its parts, so that one of them is found without looking at all: the
items of a list by position, the members of a set, the entries of a map and the fields of a record
by hash code, and the characters of a text by position where they are not all of one byte. A table
is made when it is first asked for, and a collection of a few parts has none. Every reading function
takes the parts themselves as well, and gives what a look at all of them would give.
-/

namespace Formulary

/-- The parts of a collection, arranged for look-up. -/
inductive Index (α : Type) where
  /-- Nothing is arranged. -/
  | none
  /-- Items, how many there are, and each at its position. -/
  | items (count : Nat) (byPosition : Thunk (Array α))
  /-- Members, how many there are, and those with a code. -/
  | members (count : Nat) (byCode : Thunk (Buckets α))
  /-- Entries, how many there are, and those whose key has a code. -/
  | entries (count : Nat) (byCode : Thunk (Buckets (α × α)))
  /-- Fields, how many there are, and those whose name has a code. -/
  | fields (count : Nat) (byCode : Thunk (Buckets (String × α)))
  /-- Characters, each at its position. -/
  | chars (byPosition : Thunk (Array Char))

namespace Index

variable {α : Type}

/-- The index of the items of a list. -/
def ofItems (xs : List α) : Index α :=
  if Buckets.isFew xs then none else items xs.length (.mk fun _ ↦ xs.toArray)

/-- The index of the members of a set. -/
def ofMembers (code : α → UInt64) (xs : List α) : Index α :=
  if Buckets.isFew xs then none else members xs.length (.mk fun _ ↦ .ofList code xs)

/-- The index of the entries of a map. -/
def ofEntries (code : α → UInt64) (xs : List (α × α)) : Index α :=
  if Buckets.isFew xs then none
  else entries xs.length (.mk fun _ ↦ .ofList (fun e ↦ code e.1) xs)

/-- The index of the fields of a record. -/
def ofFields (xs : List (String × α)) : Index α :=
  if Buckets.isFew xs then none else fields xs.length (.mk fun _ ↦ .ofList (fun e ↦ hash e.1) xs)

/-- The index of the characters of a text. -/
def ofText (s : String) : Index α :=
  if s.utf8ByteSize = s.length || s.length ≤ Buckets.scanLimit then none
  else chars (.mk fun _ ↦ s.toList.toArray)

/-- How many parts there are. -/
def size {β : Type} (xs : List β) : Index α → Nat
  | items n _ | members n _ | entries n _ | fields n _ => n
  | _ => xs.length

/-- The item at a position. -/
def item? (xs : List α) (i : Nat) : Index α → Option α
  | items _ byPosition => byPosition.get[i]?
  | _ => xs[i]?

/-- The items from a position on, `count` of them if there are as many. -/
def part (xs : List α) (start count : Nat) : Index α → List α
  | items _ byPosition => (byPosition.get.extract start (start + count)).toList
  | _ => (xs.drop start).take count

/-- The characters from a position on, `count` of them if there are as many, as a text. -/
def textPart (s : String) (start count : Nat) : Index α → String
  | chars byPosition => String.ofList (byPosition.get.extract start (start + count)).toList
  | _ => Text.part s start count

/-- The last item, or `fallback` if there is none. -/
def lastD (xs : List α) (fallback : α) : Index α → α
  | items _ byPosition => byPosition.get.back?.getD fallback
  | _ => xs.getLastD fallback

/-- The members that can equal one with this code. -/
def membersLike (xs : List α) (code : UInt64) : Index α → List α
  | members _ byCode => byCode.get.bucket code
  | _ => xs

/-- The entries whose keys can equal one with this code. -/
def entriesLike (xs : List (α × α)) (code : UInt64) : Index α → List (α × α)
  | entries _ byCode => byCode.get.bucket code
  | _ => xs

/-- The fields that can have this name. -/
def fieldsLike (xs : List (String × α)) (name : String) : Index α → List (String × α)
  | fields _ byCode => byCode.get.bucket (hash name)
  | _ => xs

/-! ### What the readings mean -/

@[simp] theorem size_ofItems (xs : List α) : (ofItems xs).size xs = xs.length := by
  unfold ofItems
  split <;> rfl

@[simp] theorem size_ofMembers (code : α → UInt64) (xs : List α) :
    (ofMembers code xs).size xs = xs.length := by
  unfold ofMembers
  split <;> rfl

@[simp] theorem size_ofEntries (code : α → UInt64) (xs : List (α × α)) :
    (ofEntries code xs).size xs = xs.length := by
  unfold ofEntries
  split <;> rfl

@[simp] theorem size_ofFields (xs : List (String × α)) : (ofFields xs).size xs = xs.length := by
  unfold ofFields
  split <;> rfl

@[simp] theorem item?_ofItems (xs : List α) (i : Nat) : (ofItems xs).item? xs i = xs[i]? := by
  unfold ofItems
  split
  · rfl
  · simp [item?, Thunk.get]

@[simp] theorem part_ofItems (xs : List α) (start count : Nat) :
    (ofItems xs).part xs start count = (xs.drop start).take count := by
  unfold ofItems
  split
  · rfl
  · simp [part, Thunk.get, List.extract_eq_take_drop]

@[simp] theorem textPart_ofText (s : String) (start count : Nat) :
    (ofText s : Index α).textPart s start count = Text.part s start count := by
  unfold ofText
  split
  · rfl
  · rw [← String.toList_inj]
    simp [textPart, Thunk.get, List.extract_eq_take_drop]

@[simp] theorem lastD_ofItems (xs : List α) (fallback : α) :
    (ofItems xs).lastD xs fallback = xs.getLastD fallback := by
  unfold ofItems
  split
  · rfl
  · simp [lastD, Thunk.get, List.getLastD_eq_getLast?]

theorem any_membersLike (code : α → UInt64) (xs : List α) (c : UInt64) (p : α → Bool)
    (h : ∀ x, p x = true → code x = c) :
    ((ofMembers code xs).membersLike xs c).any p = xs.any p := by
  unfold ofMembers
  split
  · rfl
  · exact Buckets.any_bucket_ofList _ _ _ _ fun x _ ↦ h x

theorem any_entriesLike (code : α → UInt64) (xs : List (α × α)) (c : UInt64) (p : α × α → Bool)
    (h : ∀ x, p x = true → code x.1 = c) :
    ((ofEntries code xs).entriesLike xs c).any p = xs.any p := by
  unfold ofEntries
  split
  · rfl
  · exact Buckets.any_bucket_ofList _ _ _ _ fun x _ ↦ h x

theorem find?_entriesLike (code : α → UInt64) (xs : List (α × α)) (c : UInt64)
    (p : α × α → Bool) (h : ∀ x, p x = true → code x.1 = c) :
    ((ofEntries code xs).entriesLike xs c).find? p = xs.find? p := by
  unfold ofEntries
  split
  · rfl
  · exact Buckets.find?_bucket_ofList _ _ _ _ fun x _ ↦ h x

theorem any_fieldsLike (xs : List (String × α)) (name : String) (p : String × α → Bool)
    (h : ∀ x, p x = true → x.1 = name) :
    ((ofFields xs).fieldsLike xs name).any p = xs.any p := by
  unfold ofFields
  split
  · rfl
  · exact Buckets.any_bucket_ofList _ _ _ _ fun x _ hx ↦ by rw [h x hx]

theorem find?_fieldsLike (xs : List (String × α)) (name : String) (p : String × α → Bool)
    (h : ∀ x, p x = true → x.1 = name) :
    ((ofFields xs).fieldsLike xs name).find? p = xs.find? p := by
  unfold ofFields
  split
  · rfl
  · exact Buckets.find?_bucket_ofList _ _ _ _ fun x _ hx ↦ by rw [h x hx]

end Index

end Formulary
