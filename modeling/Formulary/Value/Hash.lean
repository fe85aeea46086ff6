import Formulary.Value.Equality

/-!
# Hash codes of values

A value is hashed by a number for its kind and by its content (`hashed`), from which its hash code
is mixed (`hashCode_eq_digest`). Equal values are hashed by the same data
(`hashed_eq_of_equal`), in whatever order the members of their sets and the entries of their maps
are, and so have the same code.
-/

namespace Formulary

/-- What is fed to a hasher. -/
inductive HashData where
  | word (w : UInt64)
  | text (s : String)
  /-- A number for the kind of what is hashed, and then its content. -/
  | tagged (tag : UInt64) (content : List HashData)

namespace HashData

mutual

/-- The hash code that is mixed from data. -/
def digest : HashData → UInt64
  | word w => w
  | text s => hash s
  | tagged tag content => digestAll tag content

/-- Mixes data, in order, into a code. -/
def digestAll (code : UInt64) : List HashData → UInt64
  | [] => code
  | d :: ds => digestAll (mixHash code d.digest) ds

end

end HashData

namespace Value

mutual

/-- What a value is hashed by. -/
def hashed : Value → HashData
  | nil => .tagged 0 []
  | bool b => .tagged 1 [.word (hash b)]
  | int n => .tagged 2 [.word n.toUInt64]
  | str s => .tagged 3 [.text s]
  | float x => .tagged 4 [.word x.bits]
  | symbol s => .tagged 5 [.text s]
  | list items => .tagged 6 (hashedAll items)
  | set items => .tagged 7 [.word items.length.toUInt64]
  | map entries => .tagged 8 [.word entries.length.toUInt64]
  | call env _ _ => .tagged 9 [.word env.toUInt64]
  | node ref => .tagged 10 [.tagged ref.module.toUInt64 [.word ref.index.toUInt64]]
  | hostClass name => .tagged 11 [.text name]
  | record type _ => .tagged 12 [.text type]
  | foreign handle _ => .tagged 13 [.word handle.toUInt64]

/-- What the items of a list are hashed by. -/
def hashedAll : List Value → List HashData
  | [] => []
  | v :: vs => hashed v :: hashedAll vs

end

/-! ### The code is mixed from the data -/

/-- Mixes the codes of items, in order, into a code. -/
def hashItems (code : UInt64) (items : List Value) : UInt64 :=
  items.foldl (fun code v ↦ mixHash code (hashCode v)) code

@[simp] theorem hashCode_list (items : List Value) : hashCode (list items) = hashItems 6 items := by
  simp [hashCode, hashItems]

mutual

theorem hashCode_eq_digest : ∀ v : Value, hashCode v = (hashed v).digest
  | list items => by
    rw [hashCode_list, hashed, HashData.digest, hashItems_eq_digestAll 6 items]
  | nil | bool _ | int _ | str _ | float _ | symbol _ | set _ | map _ | call _ _ _ | node _
  | hostClass _ | record _ _ | foreign _ _ => by
    simp only [hashCode, hashed, HashData.digest, HashData.digestAll]

theorem hashItems_eq_digestAll (code : UInt64) :
    ∀ items : List Value, hashItems code items = HashData.digestAll code (hashedAll items)
  | [] => by simp only [hashedAll, HashData.digestAll, hashItems, List.foldl_nil]
  | v :: vs => by
    rw [hashedAll, HashData.digestAll, ← hashCode_eq_digest v]
    exact hashItems_eq_digestAll (mixHash code v.hashCode) vs

end

/-! ### Equal values -/

mutual

/-- Equal values are hashed by the same data. -/
theorem hashed_eq_of_equal : ∀ a b : Value, equal a b = true → hashed a = hashed b
  | nil, b, h | bool _, b, h | int _, b, h | str _, b, h | float _, b, h | symbol _, b, h
  | set _, b, h | map _, b, h | call _ _ _, b, h | hostClass _, b, h | record _ _, b, h
  | foreign _ _, b, h => by cases b <;> simp_all [equal, hashed]
  | list as, b, h => by
    cases b <;> simp only [equal, Bool.false_eq_true] at h
    rw [hashed, hashed, hashedAll_eq_of_equalItems as _ h]
  | node _, b, h => by cases b <;> simp_all [equal, hashed, NodeRef.same]

/-- Lists that are equal item by item are hashed by the same data. -/
theorem hashedAll_eq_of_equalItems :
    ∀ as bs : List Value, equalItems as bs = true → hashedAll as = hashedAll bs
  | [], [], _ => rfl
  | [], _ :: _, h => by simp [equalItems] at h
  | _ :: _, [], h => by simp [equalItems] at h
  | a :: as, b :: bs, h => by
    simp only [equalItems, Bool.and_eq_true] at h
    rw [hashedAll, hashedAll, hashed_eq_of_equal a b h.1, hashedAll_eq_of_equalItems as bs h.2]

end

/-- Equal values have the same hash code. -/
theorem hashCode_eq_of_equal (a b : Value) (h : equal a b = true) : hashCode a = hashCode b := by
  rw [hashCode_eq_digest, hashCode_eq_digest, hashed_eq_of_equal a b h]

/-- Values are hashed by their codes. -/
instance : Hashable Value := ⟨hashCode⟩

end Value

end Formulary
