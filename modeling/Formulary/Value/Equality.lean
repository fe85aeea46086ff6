import Formulary.Value

/-!
# Equality of values

Strict equality, by which elements and keys are told apart: floating-point numbers are equal when
their bits are, so that a NaN equals itself and the two zeros differ, and an integer never equals a
floating-point number. Sets, maps and records ignore order. Calls, nodes and foreign objects are
equal when they are the same. Every value equals itself (`equal_self`).
-/

namespace Formulary.Value

mutual

/-- Strict equality. -/
def equal : Value → Value → Bool
  | nil, nil => true
  | bool a, bool b => a == b
  | int a, int b => a == b
  | float a, float b => a == b
  | str a, str b => a == b
  | symbol a, symbol b => a == b
  | list as, list bs => equalItems as bs
  | set as, set bs => as.length == bs.length && itemsIn as bs
  | map as, map bs => as.length == bs.length && entriesIn as bs
  | record t as, record u bs => t == u && as.length == bs.length && fieldsIn as bs
  | call a _ _, call b _ _ => a == b
  | node a, node b => a.same b
  | hostClass a, hostClass b => a == b
  | foreign a _, foreign b _ => a == b
  | _, _ => false
termination_by structural a => a

/-- Equality of lists, item by item. -/
def equalItems : List Value → List Value → Bool
  | [], [] => true
  | a :: as, b :: bs => equal a b && equalItems as bs
  | _, _ => false
termination_by structural a => a

/-- Whether every item has an equal one in `bs`. -/
def itemsIn : List Value → List Value → Bool
  | [], _ => true
  | a :: as, bs => (bs.any fun b ↦ equal a b) && itemsIn as bs
termination_by structural a => a

/-- Whether every entry has one with an equal key and an equal value in `bs`. -/
def entriesIn : List (Value × Value) → List (Value × Value) → Bool
  | [], _ => true
  | (k, v) :: as, bs => (bs.any fun e ↦ equal k e.1 && equal v e.2) && entriesIn as bs
termination_by structural a => a

/-- Whether every field has one with the same name and an equal value in `bs`. -/
def fieldsIn : List (String × Value) → List (String × Value) → Bool
  | [], _ => true
  | (f, v) :: as, bs => (bs.any fun e ↦ f == e.1 && equal v e.2) && fieldsIn as bs
termination_by structural a => a

end

mutual

/-- Every value equals itself. -/
theorem equal_self : ∀ v : Value, equal v v = true
  | nil | bool _ | int _ | float _ | str _ | symbol _ | hostClass _ => by simp [equal]
  | call _ _ _ | foreign _ _ => by simp [equal]
  | node _ => by simp [equal, NodeRef.same]
  | list items => by simpa [equal] using equalItems_self items
  | set items => by simpa [equal] using itemsIn_of_subset items items fun _ h ↦ h
  | map entries => by simpa [equal] using entriesIn_of_subset entries entries fun _ h ↦ h
  | record _ fields => by simpa [equal] using fieldsIn_of_subset fields fields fun _ h ↦ h

theorem equalItems_self : ∀ vs : List Value, equalItems vs vs = true
  | [] => rfl
  | v :: vs => by simp [equalItems, equal_self v, equalItems_self vs]

/-- Items that are members are found. -/
theorem itemsIn_of_subset : ∀ as bs : List Value, (∀ a ∈ as, a ∈ bs) → itemsIn as bs = true
  | [], _, _ => rfl
  | a :: as, bs, h => by
    have head : (bs.any fun b ↦ equal a b) = true :=
      List.any_eq_true.mpr ⟨a, h a (by simp), equal_self a⟩
    simp [itemsIn, head, itemsIn_of_subset as bs fun x hx ↦ h x (by simp [hx])]

/-- Entries that are members are found. -/
theorem entriesIn_of_subset :
    ∀ as bs : List (Value × Value), (∀ a ∈ as, a ∈ bs) → entriesIn as bs = true
  | [], _, _ => rfl
  | (k, v) :: as, bs, h => by
    have head : (bs.any fun e ↦ equal k e.1 && equal v e.2) = true :=
      List.any_eq_true.mpr ⟨(k, v), h _ (by simp), by simp [equal_self k, equal_self v]⟩
    simp [entriesIn, head, entriesIn_of_subset as bs fun x hx ↦ h x (by simp [hx])]

/-- Fields that are members are found. -/
theorem fieldsIn_of_subset :
    ∀ as bs : List (String × Value), (∀ a ∈ as, a ∈ bs) → fieldsIn as bs = true
  | [], _, _ => rfl
  | (f, v) :: as, bs, h => by
    have head : (bs.any fun e ↦ f == e.1 && equal v e.2) = true :=
      List.any_eq_true.mpr ⟨(f, v), h _ (by simp), by simp [equal_self v]⟩
    simp [fieldsIn, head, fieldsIn_of_subset as bs fun x hx ↦ h x (by simp [hx])]

end

end Formulary.Value
