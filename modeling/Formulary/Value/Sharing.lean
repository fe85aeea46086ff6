import Formulary.Value.Hash

/-!
# Equality of shared and of large values

Parts of a value may be shared, and a value of a few shared parts can have more paths into it than
could ever be walked. `decideEqual` decides equality without looking into parts that are one and the
same in memory, and finds the members of large collections by their hash codes. What it returns is
`equal`: both are only ways to know the answer sooner.
-/

namespace Formulary.Value

theorem any_membersLike (bs : List Value) (a : Value) :
    (((set bs).index.membersLike bs a.hashCode).any fun b ↦ equal a b) =
      bs.any fun b ↦ equal a b := by
  rw [index]
  exact Index.any_membersLike _ _ _ _ fun b h ↦ (hashCode_eq_of_equal a b h).symm

theorem any_entriesLike (bs : List (Value × Value)) (k v : Value) :
    (((map bs).index.entriesLike bs k.hashCode).any fun e ↦ equal k e.1 && equal v e.2) =
      bs.any fun e ↦ equal k e.1 && equal v e.2 := by
  rw [index]
  exact Index.any_entriesLike _ _ _ _ fun e h ↦
    (hashCode_eq_of_equal k e.1 (Bool.and_eq_true_iff.mp h).1).symm

theorem any_fieldsLike (t : String) (bs : List (String × Value)) (f : String) (v : Value) :
    (((record t bs).index.fieldsLike bs f).any fun e ↦ f == e.1 && equal v e.2) =
      bs.any fun e ↦ f == e.1 && equal v e.2 := by
  rw [index]
  exact Index.any_fieldsLike _ _ _ fun e h ↦ (beq_iff_eq.mp (Bool.and_eq_true_iff.mp h).1).symm

theorem sameSize_set (as bs : List Value) :
    ((set as).index.size as == (set bs).index.size bs) = (as.length == bs.length) := by
  simp [index]

theorem sameSize_map (as bs : List (Value × Value)) :
    ((map as).index.size as == (map bs).index.size bs) = (as.length == bs.length) := by
  simp [index]

theorem sameSize_record (t u : String) (as bs : List (String × Value)) :
    ((record t as).index.size as == (record u bs).index.size bs) = (as.length == bs.length) := by
  simp [index]

mutual

/-- Decides strict equality. -/
def decideEqual : (a b : Value) → { r : Bool // r = equal a b }
  | int a, int b => ⟨a == b, rfl⟩
  | str a, str b => ⟨a == b, rfl⟩
  | list as, list bs =>
    if h : (list as).hashCode = (list bs).hashCode then
      ⟨withPtrEq as bs (fun _ ↦ (decideItems as bs).1) fun h ↦ by
          rw [(decideItems as bs).2, h, equalItems_self],
        by simp only [withPtrEq, equal, (decideItems as bs).2]⟩
    else ⟨false, (Bool.eq_false_iff.mpr fun he ↦ h (hashCode_eq_of_equal _ _ he)).symm⟩
  | set as, set bs =>
    ⟨withPtrEq as bs (fun _ ↦ (set as).index.size as == (set bs).index.size bs &&
        (decideItemsIn (set bs).index as bs (any_membersLike bs)).1) fun h ↦ by
        rw [(decideItemsIn _ as bs _).2, sameSize_set, h]
        simpa [equal] using equal_self (set bs),
      by simp only [withPtrEq, equal, (decideItemsIn _ as bs _).2, sameSize_set]⟩
  | map as, map bs =>
    ⟨withPtrEq as bs (fun _ ↦ (map as).index.size as == (map bs).index.size bs &&
        (decideEntriesIn (map bs).index as bs (any_entriesLike bs)).1) fun h ↦ by
        rw [(decideEntriesIn _ as bs _).2, sameSize_map, h]
        simpa [equal] using equal_self (map bs),
      by simp only [withPtrEq, equal, (decideEntriesIn _ as bs _).2, sameSize_map]⟩
  | record t as, record u bs =>
    ⟨t == u && withPtrEq as bs (fun _ ↦
        (record t as).index.size as == (record u bs).index.size bs &&
        (decideFieldsIn (record u bs).index as bs (any_fieldsLike u bs)).1) fun h ↦ by
        rw [(decideFieldsIn _ as bs _).2, sameSize_record, h]
        simpa [equal] using equal_self (record t bs),
      by simp only [withPtrEq, equal, (decideFieldsIn _ as bs _).2, sameSize_record,
        Bool.and_assoc]⟩
  | a, b => ⟨equal a b, rfl⟩
termination_by structural a => a

/-- Decides the equality of lists, item by item. -/
def decideItems : (as bs : List Value) → { r : Bool // r = equalItems as bs }
  | a :: as, b :: bs =>
    ⟨(decideEqual a b).1 && (decideItems as bs).1, by
      simp only [equalItems, (decideEqual a b).2, (decideItems as bs).2]⟩
  | [], [] => ⟨true, rfl⟩
  | [], _ :: _ => ⟨false, rfl⟩
  | _ :: _, [] => ⟨false, rfl⟩
termination_by structural as => as

/-- Decides whether every item has an equal one in `bs`, by an index of `bs`. -/
def decideItemsIn (index : Index Value) : (as bs : List Value) →
    (∀ a, ((index.membersLike bs (hashCode a)).any fun b ↦ equal a b) =
      bs.any fun b ↦ equal a b) →
    { r : Bool // r = itemsIn as bs }
  | [], _, _ => ⟨true, rfl⟩
  | a :: as, bs, h =>
    ⟨((index.membersLike bs a.hashCode).any fun b ↦ (decideEqual a b).1) &&
        (decideItemsIn index as bs h).1, by
      simp only [itemsIn, (decideEqual a _).2, (decideItemsIn index as bs h).2, h]⟩
termination_by structural as => as

/-- Decides whether every entry has an equal one in `bs`, by an index of `bs`. -/
def decideEntriesIn (index : Index Value) : (as bs : List (Value × Value)) →
    (∀ k v, ((index.entriesLike bs (hashCode k)).any fun e ↦ equal k e.1 && equal v e.2) =
      bs.any fun e ↦ equal k e.1 && equal v e.2) →
    { r : Bool // r = entriesIn as bs }
  | [], _, _ => ⟨true, rfl⟩
  | (k, v) :: as, bs, h =>
    ⟨((index.entriesLike bs k.hashCode).any fun e ↦
          (decideEqual k e.1).1 && (decideEqual v e.2).1) &&
        (decideEntriesIn index as bs h).1, by
      simp only [entriesIn, (decideEqual k _).2, (decideEqual v _).2,
        (decideEntriesIn index as bs h).2, h]⟩
termination_by structural as => as

/-- Decides whether every field has an equal one in `bs`, by an index of `bs`. -/
def decideFieldsIn (index : Index Value) : (as bs : List (String × Value)) →
    (∀ f v, ((index.fieldsLike bs f).any fun e ↦ f == e.1 && equal v e.2) =
      bs.any fun e ↦ f == e.1 && equal v e.2) →
    { r : Bool // r = fieldsIn as bs }
  | [], _, _ => ⟨true, rfl⟩
  | (f, v) :: as, bs, h =>
    ⟨((index.fieldsLike bs f).any fun e ↦ f == e.1 && (decideEqual v e.2).1) &&
        (decideFieldsIn index as bs h).1, by
      simp only [fieldsIn, (decideEqual v _).2, (decideFieldsIn index as bs h).2, h]⟩
termination_by structural as => as

end

/-- Values are compared strictly in collections. -/
instance : BEq Value := ⟨fun a b ↦ (decideEqual a b).1⟩

/-- The comparison is strict equality. -/
theorem beq_eq_equal (a b : Value) : (a == b) = equal a b := (decideEqual a b).2

instance : ReflBEq Value := ⟨fun {v} ↦ by rw [beq_eq_equal, equal_self]⟩

instance : LawfulHashable Value :=
  ⟨fun a b h ↦ hashCode_eq_of_equal a b (by rwa [beq_eq_equal] at h)⟩

end Formulary.Value
