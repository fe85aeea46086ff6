import Formulary.Lines
import Mathlib.Data.List.Basic

/-!
# Line and column lookup

Halving finds how many lines start up to an offset (`Lines.upTo_lineOf`), whether or not a line
starts just there. Lines start after the newlines of the text, which in UTF-8 are the bytes with
this code, so a line's number counts the newline bytes before an offset, and a column is the
distance from the last of them (`Lines.lookup_exact`).
-/

namespace Formulary.Lines

/-! ### Searching by halves -/

/-- The first `k` starts are those up to the offset. -/
structure UpTo (starts : Array Nat) (offset k : Nat) : Prop where
  le_size : k ≤ starts.size
  lt_iff : ∀ i (h : i < starts.size), i < k ↔ starts[i] ≤ offset

/-- How many starts there are up to the offset that was looked for. -/
def Found.rank : Found → Nat
  | .at index => index + 1
  | .before index => index

theorem getElem_lt {starts : Array Nat} (ascending : starts.toList.Pairwise (· < ·)) {i j : Nat}
    (less : i < j) (bound : j < starts.size) : starts[i] < starts[j] := by
  have := List.pairwise_iff_getElem.mp ascending i j (by simp; omega) (by simpa using bound) less
  simpa using this

/-- The search keeps to a part of the starts, and those on either side of it are known to be less or
greater than the offset. -/
theorem upTo_search {starts : Array Nat} (ascending : starts.toList.Pairwise (· < ·))
    {offset left right : Nat} (bound : right ≤ starts.size) (order : left ≤ right)
    (below : ∀ i (h : i < starts.size), i < left → starts[i] < offset)
    (above : ∀ i (h : i < starts.size), right ≤ i → offset < starts[i]) :
    UpTo starts offset (search starts offset left right bound).rank := by
  fun_induction search starts offset left right bound with
  | case1 left right bound more middle hit =>
    refine ⟨by simp only [Found.rank]; omega, fun i h ↦ ?_⟩
    simp only [Found.rank]
    rcases Nat.lt_trichotomy i middle with less | rfl | greater
    · have := getElem_lt ascending less (by omega)
      omega
    · omega
    · have := getElem_lt ascending greater h
      omega
  | case2 left right bound more middle miss less ih =>
    refine ih (by omega) (fun i h hi ↦ ?_) above
    rcases Nat.lt_or_eq_of_le (Nat.le_of_lt_succ hi) with earlier | rfl
    · have := getElem_lt ascending earlier (by omega)
      omega
    · exact less
  | case3 left right bound more middle miss less ih =>
    refine ih (by omega) below fun i h hi ↦ ?_
    rcases Nat.lt_or_eq_of_le hi with later | rfl
    · have := getElem_lt ascending later h
      omega
    · omega
  | case4 left right bound more =>
    refine ⟨by simp only [Found.rank]; omega, fun i h ↦ ?_⟩
    simp only [Found.rank]
    constructor
    · exact fun hi ↦ Nat.le_of_lt (below i h hi)
    · intro hi
      by_contra later
      have := above i h (by omega)
      omega

section

variable (l : Lines)

theorem size_pos : 0 < l.starts.size := (Array.getElem?_eq_some_iff.mp l.first).1

theorem getElem_zero (h : 0 < l.starts.size) : l.starts[0] = 0 :=
  (Array.getElem?_eq_some_iff.mp l.first).2

variable (offset : Nat)

/-- The number of a line is the number of lines that start up to the offset. -/
theorem upTo_lineOf : UpTo l.starts offset (l.lineOf offset) := by
  have found : UpTo l.starts offset
      (search l.starts offset 0 l.starts.size (Nat.le_refl _)).rank :=
    upTo_search l.ascending _ (Nat.zero_le _) (fun _ _ h ↦ absurd h (Nat.not_lt_zero _))
      (fun _ h h' ↦ absurd h (Nat.not_lt.mpr h'))
  -- The first line starts at 0, so an offset that is missed comes after some start.
  have pos := (found.lt_iff 0 l.size_pos).mpr (by rw [getElem_zero]; exact Nat.zero_le offset)
  have same : l.lineOf offset =
      (search l.starts offset 0 l.starts.size (Nat.le_refl _)).rank := by
    unfold lineOf
    split
    · next index hit => rw [hit]; rfl
    · next index miss =>
      rw [miss] at pos ⊢
      exact Nat.sub_add_cancel pos
  rwa [same]

theorem lineOf_pos : 0 < l.lineOf offset :=
  ((l.upTo_lineOf offset).lt_iff 0 l.size_pos).mpr (by rw [getElem_zero]; exact Nat.zero_le offset)

theorem lineOf_eq_countP : l.lineOf offset = l.starts.toList.countP (· ≤ offset) := by
  have upTo := l.upTo_lineOf offset
  generalize l.lineOf offset = k at upTo
  have first : (l.starts.toList.take k).countP (· ≤ offset) = (l.starts.toList.take k).length := by
    rw [List.countP_eq_length]
    intro start hs
    obtain ⟨i, hi, rfl⟩ := List.mem_take_iff_getElem.mp hs
    simp only [Array.length_toList, Nat.lt_min] at hi
    simpa using (upTo.lt_iff i hi.2).mp hi.1
  have rest : (l.starts.toList.drop k).countP (· ≤ offset) = 0 := by
    rw [List.countP_eq_zero]
    intro start hs
    obtain ⟨i, hi, rfl⟩ := List.mem_drop_iff_getElem.mp hs
    rw [Array.length_toList] at hi
    have := (upTo.lt_iff (k + i) (by omega)).not.mp (by omega)
    simpa using this
  rw [← List.take_append_drop k l.starts.toList, List.countP_append, first, rest, List.length_take,
    Array.length_toList, Nat.min_eq_left upTo.le_size, Nat.add_zero]

/-- The start of a line is the last one up to the offset. -/
theorem exists_startOf_eq : ∃ h : l.lineOf offset - 1 < l.starts.size,
    l.startOf offset = l.starts[l.lineOf offset - 1] := by
  have := (l.upTo_lineOf offset).le_size
  have := l.lineOf_pos offset
  have bound : l.lineOf offset - 1 < l.starts.size := by omega
  exact ⟨bound, by rw [startOf, Array.getD, dif_pos bound]; rfl⟩

variable {l offset}

theorem startOf_mem : l.startOf offset ∈ l.starts.toList := by
  obtain ⟨bound, eq⟩ := l.exists_startOf_eq offset
  rw [eq]
  exact Array.getElem_mem_toList bound

theorem startOf_le : l.startOf offset ≤ offset := by
  obtain ⟨bound, eq⟩ := l.exists_startOf_eq offset
  have := l.lineOf_pos offset
  rw [eq, ← (l.upTo_lineOf offset).lt_iff _ bound]
  omega

theorem le_startOf {start : Nat} (h : start ∈ l.starts.toList) (le : start ≤ offset) :
    start ≤ l.startOf offset := by
  obtain ⟨bound, eq⟩ := l.exists_startOf_eq offset
  obtain ⟨i, hi, rfl⟩ := List.mem_iff_getElem.mp h
  rw [Array.length_toList] at hi
  rw [Array.getElem_toList] at le ⊢
  have := ((l.upTo_lineOf offset).lt_iff i hi).mpr le
  rw [eq]
  rcases Nat.lt_or_eq_of_le (Nat.le_sub_one_of_lt this) with less | rfl
  · exact Nat.le_of_lt (getElem_lt l.ascending less bound)
  · exact Nat.le_refl _

theorem startOf_eq {start : Nat} (h : start ∈ l.starts.toList) (le : start ≤ offset)
    (last : ∀ s ∈ l.starts.toList, s ≤ offset → s ≤ start) : l.startOf offset = start :=
  Nat.le_antisymm (last _ startOf_mem startOf_le) (le_startOf h le)

variable (l offset)

theorem columnOf_add_startOf : l.columnOf offset + l.startOf offset = offset :=
  Nat.sub_add_cancel startOf_le

end

/-! ### Newlines in UTF-8 -/

/-- The byte that ends a line. -/
def newline : UInt8 := 0x0A

/-- No other character has this byte in its encoding. -/
theorem newline_not_mem {c : Char} (h : c ≠ '\n') : newline ∉ String.utf8EncodeChar c := by
  have other : c.val.toNat ≠ 10 := fun h' ↦ h (Char.ext (UInt32.toNat_inj.mp h'))
  have apart : ∀ n, n < 256 → n ≠ 10 → newline ≠ UInt8.ofNat n := by
    intro n small ne eq
    have same := congrArg UInt8.toNat eq
    rw [UInt8.toNat_ofNat_of_lt' small] at same
    exact ne same.symm
  fun_cases String.utf8EncodeChar c <;>
    simp only [List.mem_cons, List.not_mem_nil, or_false, not_or]
  · exact apart _ (by omega) (by omega)
  · exact ⟨apart _ (by omega) (by omega), apart _ (by omega) (by omega)⟩
  · exact ⟨apart _ (by omega) (by omega), apart _ (by omega) (by omega),
      apart _ (by omega) (by omega)⟩
  · exact ⟨apart _ (by omega) (by omega), apart _ (by omega) (by omega),
      apart _ (by omega) (by omega), apart _ (by omega) (by omega)⟩

/-- Lines start after the newlines of the text in UTF-8. -/
theorem startsAfter_eq (cs : List Char) (offset : Nat) :
    startsAfter offset cs =
      (cs.flatMap String.utf8EncodeChar).findIdxs (· == newline) (offset + 1) := by
  induction cs generalizing offset with
  | nil => rfl
  | cons c cs ih =>
    rw [startsAfter, List.flatMap_cons, List.findIdxs_append, String.length_utf8EncodeChar,
      Nat.add_right_comm]
    split
    · next hc =>
      subst hc
      rw [ih]
      rfl
    · next hc =>
      have none : (String.utf8EncodeChar c).findIdxs (· == newline) (offset + 1) = [] := by
        rw [List.findIdxs_eq_nil_iff]
        intro b hb
        exact beq_eq_false_iff_ne.mpr fun h ↦ newline_not_mem hc (h ▸ hb)
      rw [ih, none, List.nil_append]

/-- The starts up to an offset belong to the newlines before it. -/
theorem countP_findIdxs (bytes : List UInt8) (offset : Nat) :
    (bytes.findIdxs (· == newline) 1).countP (· ≤ offset) = (bytes.take offset).count newline := by
  have before : ((bytes.take offset).findIdxs (· == newline) 1).countP (· ≤ offset) =
      ((bytes.take offset).findIdxs (· == newline) 1).length := by
    rw [List.countP_eq_length]
    intro start hs
    have := List.lt_add_of_mem_findIdxs start hs
    rw [List.length_take] at this
    exact decide_eq_true (by omega)
  have after : ((bytes.drop offset).findIdxs (· == newline) (1 + (bytes.take offset).length)).countP
      (· ≤ offset) = 0 := by
    rw [List.countP_eq_zero]
    intro start hs
    have least := List.ge_of_mem_findIdxs start hs
    have most := List.lt_add_of_mem_findIdxs start hs
    rw [List.length_drop] at most
    rw [List.length_take] at least most
    simp only [decide_eq_true_eq]
    omega
  conv_lhs => rw [← List.take_append_drop offset bytes]
  rw [List.findIdxs_append, List.countP_append, before, after, List.length_findIdxs, Nat.add_zero]
  rfl

section

variable (source : String) (offset : Nat)

/-- The bytes of a text in UTF-8. -/
def bytes : List UInt8 := source.toUTF8.data.toList

theorem bytes_eq : bytes source = source.toList.flatMap String.utf8EncodeChar := by
  rw [bytes, String.toUTF8, ← String.utf8Encode_toList, List.utf8Encode, List.data_toByteArray]

theorem length_bytes : (bytes source).length = source.utf8ByteSize := rfl

theorem starts_ofText :
    (ofText source).starts.toList = 0 :: (bytes source).findIdxs (· == newline) 1 := by
  rw [bytes_eq, ← startsAfter_eq]
  rfl

theorem mem_starts_ofText {start : Nat} : start ∈ (ofText source).starts.toList ↔
    start = 0 ∨ ∃ i, (bytes source)[i]? = some newline ∧ start = i + 1 := by
  rw [starts_ofText, List.mem_cons, List.mem_findIdxs_iff_getElem_sub_pos]
  refine or_congr_right ⟨fun ⟨pos, bound, here⟩ ↦ ⟨start - 1, ?_, by omega⟩, ?_⟩
  · rw [List.getElem?_eq_getElem bound, eq_of_beq here]
  · rintro ⟨i, here, rfl⟩
    obtain ⟨bound, here⟩ := List.getElem?_eq_some_iff.mp here
    exact ⟨Nat.le_add_left 1 i, bound, beq_iff_eq.mpr here⟩

theorem lineOf_ofText :
    (ofText source).lineOf offset = ((bytes source).take offset).count newline + 1 := by
  rw [lineOf_eq_countP, starts_ofText, List.countP_cons_of_pos (by simp), countP_findIdxs]

/-- Looking up the line and the column of an offset is exact, also past the end of the text. The
line's number counts the newlines before the offset, and the column is the distance from the place
after the last of these, or from the beginning of the text. So lines do not decrease, and the line
and the column together determine the offset. Lines start within the text, so that their numbers and
their starts need no more bits than its size. -/
theorem lookup_exact :
    (ofText source).lineOf offset = ((bytes source).take offset).count newline + 1 ∧
    (∃ start, (ofText source).columnOf offset + start = offset ∧
      (start = 0 ∨ ∃ i, (bytes source)[i]? = some newline ∧ start = i + 1) ∧
      ∀ i, start ≤ i → i < offset → (bytes source)[i]? ≠ some newline) ∧
    (∀ later, offset ≤ later → (ofText source).lineOf offset ≤ (ofText source).lineOf later) ∧
    (∀ other, (ofText source).lineOf other = (ofText source).lineOf offset →
      (ofText source).columnOf other = (ofText source).columnOf offset → other = offset) ∧
    (ofText source).lineOf offset ≤ source.utf8ByteSize + 1 ∧
    ∀ start ∈ (ofText source).starts.toList, start ≤ source.utf8ByteSize := by
  refine ⟨lineOf_ofText source offset, ⟨(ofText source).startOf offset, columnOf_add_startOf _ _,
    (mem_starts_ofText source).mp startOf_mem, fun i after before here ↦ ?_⟩, fun later le ↦ ?_,
    fun other line column ↦ ?_, ?_, fun start hs ↦ ?_⟩
  · have start : i + 1 ∈ (ofText source).starts.toList :=
      (mem_starts_ofText source).mpr (.inr ⟨i, here, rfl⟩)
    have := le_startOf start before
    omega
  · rw [lineOf_ofText, lineOf_ofText]
    exact Nat.succ_le_succ ((List.take_sublist_take_left le).count_le newline)
  · have start : (ofText source).startOf other = (ofText source).startOf offset := by
      rw [startOf, line, startOf]
    rw [← (ofText source).columnOf_add_startOf other, column, start,
      columnOf_add_startOf]
  · rw [lineOf_ofText, ← length_bytes]
    exact Nat.succ_le_succ (Nat.le_trans List.count_le_length (List.length_take_le' _ _))
  · rcases (mem_starts_ofText source).mp hs with rfl | ⟨i, here, rfl⟩
    · exact Nat.zero_le _
    · exact (List.getElem?_eq_some_iff.mp here).1

end

end Formulary.Lines
