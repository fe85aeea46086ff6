import Formulary.Proofs.Keyed
import Formulary.Registry
import Mathlib.Data.List.Nodup
import Mathlib.Data.List.Perm.Subperm

/-!
# Modules with scripts

A registry finds a script under a name among its own scripts, or else in a file whose path ends with
the name. So no more names have scripts than there are scripts and files
(`Registry.length_le_of_scripts`).
-/

namespace Formulary

/-! ### Paths -/

namespace Path

/-- A text after a slash, without another one in it, is the last piece. -/
theorem getLast?_pieces_append {directory name : String}
    (separate : directory = "" ∨ ['/'] <:+ directory.toList) (single : '/' ∉ name.toList) :
    (pieces (directory ++ name)).getLast? = some name := by
  have alone : name.toList.splitOn '/' = [name.toList] :=
    List.splitOnP_eq_singleton fun c hc ↦ by
      rw [beq_eq_false_iff_ne]
      rintro rfl
      exact single hc
  unfold pieces
  rw [List.getLast?_map, String.toList_append]
  rcases separate with rfl | ⟨before, slash⟩
  · rw [String.toList_empty, List.nil_append, alone, List.getLast?_singleton]
    exact congrArg some String.ofList_toList
  · have split : (directory.toList ++ name.toList).splitOn '/' =
        before.splitOn '/' ++ name.toList.splitOn '/' := by
      rw [← slash, List.append_assoc]
      exact List.splitOnP_append_cons before name.toList (beq_self_eq_true '/')
    rw [split, alone, List.getLast?_append, List.getLast?_singleton]
    exact congrArg some String.ofList_toList

theorem getLast?_pieces_join {directory name : String} (single : '/' ∉ name.toList)
    {rest : String} (more : '/' ∉ rest.toList) :
    (pieces (join directory name ++ rest)).getLast? = some (name ++ rest) := by
  have whole : '/' ∉ (name ++ rest).toList := by
    rw [String.toList_append, List.mem_append, not_or]
    exact ⟨single, more⟩
  unfold join
  split
  · next ends =>
    rw [String.append_assoc]
    refine getLast?_pieces_append ?_ whole
    rcases Bool.or_eq_true_iff.mp ends with empty | slash
    · exact .inl (String.isEmpty_iff.mp empty)
    · rw [String.endsWith_eq_endsWith_toSlice, String.Slice.endsWith_string_iff,
        String.copy_toSlice] at slash
      exact .inr slash
  · rw [String.append_assoc]
    refine getLast?_pieces_append (.inr ?_) whole
    rw [String.toList_append]
    exact List.suffix_append _ _

end Path

/-! ### Files -/

namespace Disk

theorem walkOutside_ne_ok (pieces : List String) (text : String) :
    walkOutside pieces ≠ .ok text := by
  induction pieces with
  | nil =>
    rw [walkOutside]
    exact nofun
  | cons piece rest ih =>
    rw [walkOutside]
    split
    · exact ih
    · exact nofun

/-- The name of a file is the last piece of the path that leads to it. -/
theorem exists_file_of_walk {d : Disk} {here pieces : List String} {text : String}
    (h : d.walk here pieces = .ok text) :
    ∃ before last, pieces.getLast? = some last ∧ d.file? (before ++ [last]) = some text := by
  have onward : ∀ {piece : String} {rest : List String},
      (∃ before last, rest.getLast? = some last ∧ d.file? (before ++ [last]) = some text) →
      ∃ before last, (piece :: rest).getLast? = some last ∧
        d.file? (before ++ [last]) = some text := by
    rintro piece rest ⟨before, last, hl, found⟩
    refine ⟨before, last, ?_, found⟩
    rw [List.getLast?_cons, hl]
    rfl
  induction pieces generalizing here with
  | nil =>
    rw [walk] at h
    cases h
  | cons piece rest ih =>
    rw [walk] at h
    split at h
    · exact onward (ih h)
    · split at h
      · split at h
        · exact absurd h (walkOutside_ne_ok rest text)
        · exact onward (ih h)
      · split at h
        · cases h
        · dsimp only at h
          split at h
          · next found =>
            split at h
            · next empty =>
              cases h
              rw [List.isEmpty_iff.mp empty]
              exact ⟨here, piece, rfl, found⟩
            · cases h
          · split at h
            · exact onward (ih h)
            · cases h

/-- The names of the files that are there. -/
def names (d : Disk) : List String := d.files.filterMap fun f ↦ (place f.1).getLast?

/-- A file is read only under the name of one that is there. -/
theorem mem_names_of_read {d : Disk} {path text last : String} (h : d.read path = .ok text)
    (hl : (Path.pieces path).getLast? = some last) : last ∈ d.names := by
  have walked : d.walk [] (Path.pieces path) = .ok text := by
    unfold read at h
    split at h
    · cases h
    · split at h
      · cases h
      · split at h
        · exact absurd h (walkOutside_ne_ok _ text)
        · exact h
  obtain ⟨before, last', hl', found⟩ := exists_file_of_walk walked
  cases hl.symm.trans hl'
  obtain ⟨f, found, -⟩ := Option.map_eq_some_iff.mp found
  have same : place f.1 = before ++ [last] := by
    have := List.find?_some found
    exact beq_iff_eq.mp this
  refine List.mem_filterMap.mpr
    ⟨f, List.mem_reverse.mp (List.mem_of_find?_eq_some found), ?_⟩
  rw [same, List.getLast?_append]
  rfl

end Disk

/-! ### Names that have a script -/

namespace Registry

variable {r : Registry}

/-- The name of a script's file. -/
def fileName (name : String) : String := name ++ "." ++ extension

theorem not_mem_of_isModuleName {name : String} (h : isModuleName name = true) :
    '/' ∉ name.toList := by
  unfold isModuleName at h
  intro slash
  split at h
  · next empty => rw [empty] at slash; cases slash
  · next c cs split =>
    rw [split] at slash
    rw [Bool.and_eq_true, List.all_eq_true] at h
    rcases List.mem_cons.mp slash with rfl | later
    · exact absurd h.1 (by decide)
    · exact absurd (h.2 _ later) (by decide)

/-- A script that is not among the registry's own is in a file. -/
theorem mem_names_of_source? {name source : String} (h : r.source? name = some source)
    (foreign : Ordered.get? name r.sources = none) : fileName name ∈ r.disk.names := by
  unfold source? at h
  rw [foreign] at h
  obtain ⟨path, hp, h⟩ := Option.bind_eq_some_iff.mp h
  unfold pathOf at hp
  split at hp
  · next named =>
    obtain ⟨root, -, rfl⟩ := Option.map_eq_some_iff.mp hp
    cases read : r.disk.read (Path.join root name ++ "." ++ extension) with
    | error e =>
      rw [read] at h
      cases h
    | ok text =>
      refine Disk.mem_names_of_read read ?_
      rw [String.append_assoc, fileName, String.append_assoc]
      exact Path.getLast?_pieces_join (not_mem_of_isModuleName named) (by decide)
  · cases hp

theorem fileName_injective : Function.Injective fileName := by
  intro a b h
  have chars := congrArg String.toList h
  simp only [fileName, String.toList_append, List.append_cancel_right_eq] at chars
  exact String.toList_injective chars

/-- No more modules have scripts than there are scripts and files. -/
theorem length_le_of_scripts {names : List String} (nodup : names.Nodup)
    (scripts : ∀ x ∈ names, ∃ source, r.source? x = some source) :
    names.length ≤ r.sources.length + r.disk.files.length := by
  let isOwn (x : String) : Bool := (Ordered.get? x r.sources).isSome
  have apart (keep : String → Bool) : (names.filter keep).Nodup :=
    nodup.sublist List.filter_sublist
  have own : (names.filter isOwn).length ≤ r.sources.length := by
    have known : names.filter isOwn ⊆ r.sources.map Prod.fst := by
      intro x hx
      obtain ⟨source, found⟩ := Option.isSome_iff_exists.mp (List.mem_filter.mp hx).2
      exact List.mem_map_of_mem (Ordered.entry_mem_of_get?_eq_some found)
    calc (names.filter isOwn).length ≤ (r.sources.map Prod.fst).length :=
          ((apart isOwn).subperm known).length_le
      _ = r.sources.length := List.length_map _
  have other : (names.filter fun x ↦ !isOwn x).length ≤ r.disk.files.length := by
    have there : (names.filter fun x ↦ !isOwn x).map fileName ⊆ r.disk.names := by
      intro file hfile
      obtain ⟨x, hx, rfl⟩ := List.mem_map.mp hfile
      obtain ⟨hx, foreign⟩ := List.mem_filter.mp hx
      obtain ⟨source, found⟩ := scripts x hx
      refine mem_names_of_source? found ?_
      simpa [isOwn] using foreign
    calc (names.filter fun x ↦ !isOwn x).length
        = ((names.filter fun x ↦ !isOwn x).map fileName).length := (List.length_map _).symm
      _ ≤ r.disk.names.length :=
          ((List.Nodup.map fileName_injective (apart _)).subperm there).length_le
      _ ≤ r.disk.files.length := List.length_filterMap_le _ _
  have split := List.length_eq_length_filter_add (l := names) isOwn
  omega

end Registry

end Formulary
