/-!
# Parts of texts

The characters of a text from one position on. In a text of one-byte characters a position is an
offset, and the part is cut out; otherwise the characters before it are counted. Either way the part
has the characters of that stretch (`toList_part`).
-/

namespace Formulary.Text

/-- The part of a text that starts at a position and has `count` characters, or as many as there
are. -/
def part (s : String) (start count : Nat) : String :=
  if s.utf8ByteSize = s.length then
    String.Pos.Raw.extract s ⟨start⟩ ⟨min (start + count) s.length⟩
  else ((s.drop start).take count).copy

/-- A text takes up a byte for each character at least, and just one for each only if every
character is of one byte. -/
theorem length_le_utf8ByteSize (cs : List Char) :
    cs.length ≤ (String.ofList cs).utf8ByteSize ∧
      ((String.ofList cs).utf8ByteSize = cs.length → ∀ c ∈ cs, c.utf8Size = 1) := by
  induction cs with
  | nil => simp
  | cons c cs ih =>
    have positive := c.utf8Size_pos
    rw [String.ofList_cons, String.utf8ByteSize_append, String.utf8ByteSize_singleton,
      List.length_cons]
    refine ⟨by omega, fun h ↦ ?_⟩
    rw [List.forall_mem_cons]
    exact ⟨by omega, ih.2 (by omega)⟩

theorem extract_eq (s : String) (b e : String.Pos.Raw) :
    String.Pos.Raw.extract s b e = if b.byteIdx ≥ e.byteIdx then ""
      else String.ofList (String.Pos.Raw.extract.go₁ s.toList 0 b e) := rfl

theorem extract_go₁_cons (c : Char) (cs : List Char) (i b e : String.Pos.Raw) :
    String.Pos.Raw.extract.go₁ (c :: cs) i b e =
      if i = b then String.Pos.Raw.extract.go₂ (c :: cs) i e
      else String.Pos.Raw.extract.go₁ cs (i + c) b e := rfl

theorem extract_go₂_cons (c : Char) (cs : List Char) (i e : String.Pos.Raw) :
    String.Pos.Raw.extract.go₂ (c :: cs) i e =
      if i = e then [] else c :: String.Pos.Raw.extract.go₂ cs (i + c) e := rfl

theorem extract_go₂_eq_take (cs : List Char) (h : ∀ c ∈ cs, c.utf8Size = 1) (i n : Nat) :
    String.Pos.Raw.extract.go₂ cs ⟨i⟩ ⟨i + n⟩ = cs.take n := by
  induction cs generalizing i n with
  | nil => exact List.take_nil.symm
  | cons c cs ih =>
    rw [List.forall_mem_cons] at h
    cases n with
    | zero => simp [extract_go₂_cons]
    | succ n =>
      have next : (String.Pos.Raw.mk i) + c = ⟨i + 1⟩ := by simp [String.Pos.Raw.ext_iff, h.1]
      have rest := ih h.2 (i + 1) n
      rw [show i + 1 + n = i + (n + 1) by omega] at rest
      simp [extract_go₂_cons, String.Pos.Raw.ext_iff, next, rest]

theorem extract_go₁_eq_take_drop (cs : List Char) (h : ∀ c ∈ cs, c.utf8Size = 1) (i m n : Nat) :
    String.Pos.Raw.extract.go₁ cs ⟨i⟩ ⟨i + m⟩ ⟨i + m + n⟩ = (cs.drop m).take n := by
  induction cs generalizing i m with
  | nil => rw [List.drop_nil, List.take_nil]; rfl
  | cons c cs ih =>
    cases m with
    | zero => simpa [extract_go₁_cons] using extract_go₂_eq_take (c :: cs) h i n
    | succ m =>
      rw [List.forall_mem_cons] at h
      have next : (String.Pos.Raw.mk i) + c = ⟨i + 1⟩ := by simp [String.Pos.Raw.ext_iff, h.1]
      have rest := ih h.2 (i + 1) m
      rw [show i + 1 + m = i + (m + 1) by omega] at rest
      simp [extract_go₁_cons, String.Pos.Raw.ext_iff, next, rest]

/-- The characters of a part. -/
@[simp] theorem toList_part (s : String) (start count : Nat) :
    (part s start count).toList = (s.toList.drop start).take count := by
  unfold part
  split
  · rename_i h
    rw [← String.length_toList] at h
    have narrow := (length_le_utf8ByteSize s.toList).2 (by simpa using h)
    rw [extract_eq, ← String.length_toList]
    by_cases beyond :
        (String.Pos.Raw.mk start).byteIdx ≥ (String.Pos.Raw.mk (min (start + count)
          s.toList.length)).byteIdx
    · rw [if_pos beyond]
      have le : min (start + count) s.toList.length ≤ start := beyond
      by_cases hc : count = 0
      · simp [hc]
      · rw [List.drop_eq_nil_of_le (by omega)]
        simp
    · have stretch := extract_go₁_eq_take_drop s.toList narrow 0 start
        (min (start + count) s.toList.length - start)
      have le : start ≤ min (start + count) s.toList.length := Nat.le_of_not_le beyond
      rw [Nat.zero_add, Nat.add_sub_of_le le] at stretch
      rw [if_neg beyond, show (0 : String.Pos.Raw) = ⟨0⟩ from rfl, stretch, String.toList_ofList,
        List.take_eq_take_iff, List.length_drop]
      omega
  · simp

end Formulary.Text
