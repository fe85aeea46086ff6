import Formulary.Access
import Formulary.Method
import Formulary.Proofs.ExactIntegers
import Mathlib.Data.List.TakeDrop

/-!
# Positions and parts of sequences

Lists are sequences of items and texts are sequences of characters. Positions are computed with
integers of 64 bits, which hold the length of every sequence. `Access.positions_and_parts` says that
an index finds what exact integers would find, over all their range, and that nothing wraps around
or reaches out of the sequence on the way.
-/

namespace Formulary

namespace Selection

/-- A position as an exact integer: a negative index counts from the end. -/
def counted (i : Int64) (length : Nat) : Int := if i.toInt < 0 then length + i.toInt else i.toInt

section

variable {length : Nat} {total : Int64}

theorem toInt64?_length (short : length < 2 ^ 63) :
    ∃ total : Int64, Decimal.toInt64? length = some total ∧ total.toInt = length := by
  refine ⟨Int64.ofInt length, ?_, Int64.toInt_ofInt_of_le (by omega) (by omega)⟩
  rw [Decimal.toInt64?, if_pos]
  unfold Decimal.minInt Decimal.maxInt
  omega

variable (exact : total.toInt = length)

include exact

/-- A negative index and a length have different signs, so their sum has 64 bits. -/
theorem toInt_add_length {i : Int64} (negative : i < 0) :
    (i + total).toInt = i.toInt + total.toInt := by
  have low := Value.fits_toInt i
  have high := Value.fits_toInt total
  rw [Int64.lt_iff_toInt_lt, Int64.toInt_zero] at negative
  apply Value.toInt_add_of_fits
  unfold Value.Fits at low high ⊢
  omega

theorem toInt_fromStart (i : Int64) : (fromStart i total).toInt = counted i length := by
  unfold fromStart counted
  by_cases negative : i < 0
  · rw [if_pos negative, toInt_add_length exact negative, exact,
      if_pos (by rwa [Int64.lt_iff_toInt_lt, Int64.toInt_zero] at negative), add_comm]
  · rw [if_neg negative, if_neg (by rwa [Int64.lt_iff_toInt_lt, Int64.toInt_zero] at negative)]

/-- The end of a part is clamped twice, and is what exact integers give. -/
theorem toInt_stop {start count : Int64} (inside : 0 ≤ start.toInt) (upward : 0 ≤ count.toInt) :
    (min (addClamped start count) total).toInt = min (start.toInt + count.toInt) length := by
  have bound := Value.fits_toInt total
  unfold Value.Fits at bound
  have most : Int64.maxValue.toInt = 2 ^ 63 - 1 := by decide
  have least : Int64.minValue.toInt = -2 ^ 63 := by decide
  have clamped : (addClamped start count).toInt =
      min (start.toInt + count.toInt) Int64.maxValue.toInt := by
    unfold addClamped
    by_cases fits : start.toInt + count.toInt ≤ Int64.maxValue.toInt
    · rw [Int64.toInt_ofIntClamp (by omega) fits, min_eq_left fits]
    · rw [min_eq_right (by omega)]
      unfold Int64.ofIntClamp
      rw [dif_pos (by omega), dif_neg fits]
  rw [Std.min_eq_if]
  split
  all_goals
    next order =>
      rw [Int64.le_iff_toInt_le, clamped] at order
      omega

end

theorem offset?_eq {n : Int64} (h : 0 ≤ n.toInt) : offset? n = some n.toInt.toNat := by
  rw [offset?, if_pos (by rwa [Int64.le_iff_toInt_le, Int64.toInt_zero])]
  rfl

section

variable {length : Nat} (short : length < 2 ^ 63)

include short

theorem position?_eq (i : Int64) :
    position? i length = if 0 ≤ counted i length ∧ counted i length < length then
      some (counted i length).toNat else none := by
  obtain ⟨total, held, exact⟩ := toInt64?_length short
  have at_start := toInt_fromStart exact i
  rw [position?, held]
  change (if 0 ≤ fromStart i total ∧ fromStart i total < total then _ else none) = _
  simp only [Int64.le_iff_toInt_le, Int64.lt_iff_toInt_lt, Int64.toInt_zero, at_start, exact]
  split
  · next inside => rw [offset?_eq (by rw [at_start]; exact inside.1), at_start]
  · rfl

theorem partFrom_eq (start count : Int64) :
    partFrom start count length =
      if counted start length < 0 ∨ length < counted start length ∨ count.toInt < 0 then nothing
      else part (counted start length).toNat
        (min (counted start length + count.toInt) length).toNat := by
  obtain ⟨total, held, exact⟩ := toInt64?_length short
  have at_start := toInt_fromStart exact start
  rw [partFrom, held]
  simp only [Option.getD_some, Int64.lt_iff_toInt_lt, Int64.toInt_zero, at_start, exact]
  split
  · rfl
  · next inside =>
    have from_start : 0 ≤ (fromStart start total).toInt := by omega
    have upward : 0 ≤ count.toInt := by omega
    have stop := toInt_stop exact from_start upward
    rw [offset?_eq from_start, offset?_eq (by omega), stop, at_start]

theorem ofArgs_int (type : String) (i : Int64) :
    ofArgs type [.int i] length = .ok (
      if 0 ≤ counted i length ∧ counted i length < length then item (counted i length).toNat
      else nothing) := by
  rw [ofArgs, position?_eq short]
  by_cases inside : 0 ≤ counted i length ∧ counted i length < length
  · rw [if_pos inside, if_pos inside]
  · rw [if_neg inside, if_neg inside]

theorem ofArgs_part (type : String) (start count : Int64) :
    ofArgs type [.int start, .int count] length = .ok (
      if counted start length < 0 ∨ length < counted start length ∨ count.toInt < 0 then nothing
      else part (counted start length).toNat
        (min (counted start length + count.toInt) length).toNat) := by
  rw [ofArgs, partFrom_eq short]

end

/-! ### Nothing wraps around, and nothing is out of range -/

/-- The steps that find a part of a sequence are exact: the length as an integer, the start if it
counts from the end, and the end of the part. -/
def StepsFit (start count : Int64) (length : Nat) : Prop :=
  ∃ total : Int64, Decimal.toInt64? length = some total ∧ total.toInt = length ∧
    (start < 0 → (start + total).toInt = start.toInt + total.toInt) ∧
    (0 ≤ fromStart start total → 0 ≤ count →
      (min (addClamped (fromStart start total) count) total).toInt =
        min ((fromStart start total).toInt + count.toInt) total.toInt)

theorem stepsFit {length : Nat} (short : length < 2 ^ 63) (start count : Int64) :
    StepsFit start count length := by
  obtain ⟨total, held, exact⟩ := toInt64?_length short
  refine ⟨total, held, exact, toInt_add_length exact, fun inside upward ↦ ?_⟩
  rw [Int64.le_iff_toInt_le, Int64.toInt_zero] at inside upward
  rw [toInt_stop exact inside upward, exact]

/-- What is selected lies within a sequence of `length` items. -/
def InRange (length : Nat) : Selection → Prop
  | nothing => True
  | item p => p < length
  | part start stop => start ≤ stop ∧ stop ≤ length

theorem inRange_of_ofArgs {type : String} {args : List Value} {length : Nat}
    {selection : Selection} (short : length < 2 ^ 63)
    (h : ofArgs type args length = .ok selection) : selection.InRange length := by
  unfold ofArgs at h
  split at h
  · next i =>
    have chosen := ofArgs_int short type i
    rw [ofArgs, h] at chosen
    cases chosen
    split
    · change _ < _
      omega
    · trivial
  · next start count =>
    have chosen := ofArgs_part short type start count
    rw [ofArgs, h] at chosen
    cases chosen
    split
    · trivial
    · change _ ≤ _ ∧ _ ≤ _
      omega
  · cases h

end Selection

/-! ### Sequences -/

/-- A list, or a text as a sequence of characters. -/
inductive Sequence where
  | items (items : List Value)
  | chars (text : String)

namespace Sequence

def toValue : Sequence → Value
  | items xs => .list xs
  | chars s => .str s

def length : Sequence → Nat
  | items xs => xs.length
  | chars s => s.toList.length

/-- The element at a position; those of a text are texts. -/
def get? : Sequence → Nat → Option Value
  | items xs, p => xs[p]?
  | chars s, p => s.toList[p]?.map fun c ↦ .str (String.singleton c)

/-- The element at a position, or `nil` outside the sequence. -/
def element (q : Sequence) (p : Int) : Value := if 0 ≤ p then (q.get? p.toNat).getD .nil else .nil

/-- The sequence without its first elements. -/
def drop (n : Nat) : Sequence → Sequence
  | items xs => items (xs.drop n)
  | chars s => chars (String.ofList (s.toList.drop n))

/-- The first elements of the sequence. -/
def take (n : Nat) : Sequence → Sequence
  | items xs => items (xs.take n)
  | chars s => chars (String.ofList (s.toList.take n))

/-- A sequence of the same kind that has only this element. -/
def only (v : Value) : Sequence → Value
  | items _ => .list [v]
  | chars _ => v

/-- What is selected from the sequence. -/
def select (q : Sequence) : Selection → Value
  | .nothing => .nil
  | .item p => q.element p
  | .part start stop => ((q.drop start).take (stop - start)).toValue

theorem length_drop (q : Sequence) (n : Nat) : (q.drop n).length = q.length - n := by
  cases q <;> simp [drop, length]

theorem drop_zero (q : Sequence) : q.drop 0 = q := by
  cases q <;> simp [drop]

theorem take_length (q : Sequence) : q.take q.length = q := by
  cases q <;> simp [take, length]

/-- Taking more elements than there are is taking all. -/
theorem take_eq_take {q : Sequence} {m n : Nat} (h : min m q.length = min n q.length) :
    q.take m = q.take n := by
  cases q with
  | items xs => exact congrArg items (List.take_eq_take_iff.mpr h)
  | chars s => exact congrArg (chars ∘ String.ofList) (List.take_eq_take_iff.mpr h)

theorem exists_get? {q : Sequence} {p : Nat} (inside : p < q.length) : ∃ v, q.get? p = some v := by
  cases q with
  | items xs => exact ⟨_, List.getElem?_eq_getElem inside⟩
  | chars s => exact ⟨_, congrArg (Option.map _) (List.getElem?_eq_getElem inside)⟩

theorem get?_eq_none {q : Sequence} {p : Nat} (outside : q.length ≤ p) : q.get? p = none := by
  cases q with
  | items xs => exact List.getElem?_eq_none outside
  | chars s => exact congrArg (Option.map _) (List.getElem?_eq_none outside)

/-- The part from an element on that has one element has just that. -/
theorem take_one_drop {q : Sequence} {p : Nat} {v : Value} (found : q.get? p = some v) :
    ((q.drop p).take 1).toValue = q.only v := by
  cases q with
  | items xs =>
    obtain ⟨inside, rfl⟩ := List.getElem?_eq_some_iff.mp found
    exact congrArg Value.list (List.take_one_drop_eq_of_lt_length inside)
  | chars s =>
    obtain ⟨c, at_p, rfl⟩ := Option.map_eq_some_iff.mp found
    obtain ⟨inside, rfl⟩ := List.getElem?_eq_some_iff.mp at_p
    have one := congrArg String.ofList (List.take_one_drop_eq_of_lt_length inside)
    rw [drop, take, String.toList_ofList, one]
    rfl

/-- The first elements and the others make up the sequence. -/
theorem add_take_drop (q : Sequence) (n : Nat) :
    Value.binary .add (q.take n).toValue (q.drop n).toValue = .ok q.toValue := by
  cases q with
  | items xs => simp [take, drop, toValue, Value.binary, Value.combine, Value.listBinary]
  | chars s =>
    simp [take, drop, toValue, Value.binary, Value.combine, ← String.ofList_append]

section

variable {σ : Type} (s : Setting σ) (read : Read (Eval σ)) (cx : Context) {q : Sequence}

/-- What an index gives on a sequence. -/
theorem index_eq_select {args : List Value} {selection : Selection} (short : q.length < 2 ^ 63)
    (chosen : ∀ type, Selection.ofArgs type args q.length = .ok selection) :
    Access.index s read cx q.toValue args = pure (q.select selection) := by
  have inside := Selection.inRange_of_ofArgs short (chosen "")
  cases q with
  | items xs =>
    change Eval.ofExcept (selectItems (.list xs) args) = _
    rw [selectItems, Value.size_list, show xs.length = (items xs).length from rfl, chosen]
    cases selection with
    | nothing => rfl
    | item p => simp [Except.map, Selection.ofList, Eval.ofExcept, select, element, get?]
    | part start stop =>
      simp [Except.map, Selection.ofList, Eval.ofExcept, select, drop, take, toValue]
  | chars text =>
    change Eval.ofExcept (selectChars (.str text) args) = _
    rw [selectChars, Value.size_str, ← String.length_toList,
      show text.toList.length = (chars text).length from rfl, chosen]
    cases selection with
    | nothing => rfl
    | item p =>
      have at_p : text.toList[p]? = some text.toList[p] := List.getElem?_eq_getElem inside
      have part : Text.part text p 1 = String.singleton text.toList[p] := by
        rw [← String.toList_inj, Text.toList_part, List.take_one_drop_eq_of_lt_length inside,
          String.toList_singleton]
        rfl
      simp only [Except.map, Selection.ofText, Value.textPart_str, part, Eval.ofExcept, select,
        element, get?, Int.natCast_nonneg, if_true, Int.toNat_natCast, at_p, Option.map_some,
        Option.getD_some]
    | part start stop =>
      have part : Text.part text start (stop - start) =
          String.ofList ((text.toList.drop start).take (stop - start)) := by
        rw [← String.toList_inj, Text.toList_part, String.toList_ofList]
      simp [Except.map, Selection.ofText, Eval.ofExcept, select, drop, take, toValue, part]

theorem index_int (short : q.length < 2 ^ 63) (i : Int64) :
    Access.index s read cx q.toValue [.int i] =
      pure (q.element (Selection.counted i q.length)) := by
  rw [index_eq_select s read cx short fun type ↦ Selection.ofArgs_int short type i, element]
  split
  · next inside => rw [select, element, Int.toNat_of_nonneg inside.1]
  · next outside =>
    rw [select]
    split
    · next upward => rw [get?_eq_none (by omega), Option.getD_none]
    · rfl

theorem index_part (short : q.length < 2 ^ 63) (start count : Int64) :
    Access.index s read cx q.toValue [.int start, .int count] =
      pure (if Selection.counted start q.length < 0 ∨ q.length < Selection.counted start q.length ∨
          count.toInt < 0 then .nil
        else ((q.drop (Selection.counted start q.length).toNat).take
          count.toInt.toNat).toValue) := by
  rw [index_eq_select s read cx short fun type ↦ Selection.ofArgs_part short type start count]
  split
  · rfl
  · rw [select]
    congr 2
    apply take_eq_take
    rw [length_drop]
    omega

end

end Sequence

namespace Access

/-- Indices mean what exact integers say, on lists and on the characters of texts.

An index gives the element at its position, counted from the end if it is negative, and `nil` where
the sequence has no such position. A start and a count give what is left of the sequence without the
elements before the start, cut to that many; a start before the sequence or behind its end, and a
negative count, give `nil`. No step leaves 64 bits and nothing that is selected lies outside the
sequence. So each sequence is the sum of its first elements and the others, and the part that has
one element holds what the index gives. Every sequence that memory holds has fewer than `2 ^ 63`
elements. -/
theorem positions_and_parts {σ : Type} (s : Setting σ) (read : Read (Eval σ)) (cx : Context)
    (q : Sequence) (short : q.length < 2 ^ 63) (i start count : Int64) :
    index s read cx q.toValue [.int i] = pure (q.element (Selection.counted i q.length)) ∧
    index s read cx q.toValue [.int start, .int count] =
      pure (if Selection.counted start q.length < 0 ∨ q.length < Selection.counted start q.length ∨
          count.toInt < 0 then .nil
        else ((q.drop (Selection.counted start q.length).toNat).take count.toInt.toNat).toValue) ∧
    Selection.StepsFit start count q.length ∧
    (∀ type args selection, Selection.ofArgs type args q.length = .ok selection →
      selection.InRange q.length) ∧
    (∀ k ≤ q.length, ∃ first rest,
      index s read cx q.toValue [.int 0, .int (.ofNat k)] = pure first ∧
      index s read cx q.toValue [.int (.ofNat k), .int (.ofNat (q.length - k))] = pure rest ∧
      Value.binary .add first rest = .ok q.toValue) ∧
    (0 ≤ Selection.counted i q.length ∧ Selection.counted i q.length < q.length → ∃ v,
      q.get? (Selection.counted i q.length).toNat = some v ∧
      index s read cx q.toValue [.int i] = pure v ∧
      index s read cx q.toValue [.int i, .int 1] = pure (q.only v)) := by
  have at_part := Sequence.index_part s read cx short
  refine ⟨Sequence.index_int s read cx short i, at_part start count,
    Selection.stepsFit short start count, fun _ _ _ ↦ Selection.inRange_of_ofArgs short,
    fun k le ↦ ?_, fun inside ↦ ?_⟩
  · have exact (n : Nat) (le : n ≤ q.length) : (Int64.ofNat n).toInt = n :=
      Int64.toInt_ofNat_of_lt (by omega)
    have counted (n : Nat) (le : n ≤ q.length) : Selection.counted (.ofNat n) q.length = n := by
      rw [Selection.counted, exact n le, if_neg (by omega)]
    refine ⟨(q.take k).toValue, (q.drop k).toValue, ?_, ?_, q.add_take_drop k⟩
    · have first := at_part (.ofNat 0) (.ofNat k)
      rwa [counted 0 (by omega), exact k le, if_neg (by omega), Int.toNat_natCast,
        Int.toNat_natCast, q.drop_zero] at first
    · rw [at_part, counted k le, exact _ (by omega), if_neg (by omega), Int.toNat_natCast,
        Int.toNat_natCast, ← q.length_drop, Sequence.take_length]
  · obtain ⟨v, found⟩ := q.exists_get? (p := (Selection.counted i q.length).toNat) (by omega)
    refine ⟨v, found, ?_, ?_⟩
    · rw [Sequence.index_int s read cx short, Sequence.element, if_pos inside.1, found,
        Option.getD_some]
    · rw [at_part i 1, show (1 : Int64).toInt = 1 by decide, if_neg (by omega)]
      exact congrArg pure (Sequence.take_one_drop found)

namespace Greeting

def setting : Setting Unit := ⟨{}, Host.bare, .empty, Value.send⟩

def read : Read (Eval Unit) := fun _ _ _ _ ↦ pure .nil

def context : Context := ⟨0, [], ⟨0, 0, "M", "N"⟩, 0, "M"⟩

/-- Characters are counted, not bytes, and a count may be larger than any text is long. -/
theorem positions_hello :
    (Sequence.chars "héllo").length < 2 ^ 63 ∧
    index setting read context (.str "héllo") [.int (-4)] = pure (.str "é") ∧
    index setting read context (.str "héllo") [.int (-4), .int Int64.maxValue] =
      pure (.str "éllo") := by
  obtain ⟨at_position, at_part, -⟩ := positions_and_parts setting read context (.chars "héllo")
    (by decide) (-4) (-4) Int64.maxValue
  exact ⟨by decide, at_position, at_part⟩

end Greeting

end Access

end Formulary
