import Std.Data.HashMap

/-!
# Dependency graphs

Which names the definition of a name refers to. A definition is refused when following these
references from a name leads back to it.
-/

namespace Formulary

/-- Each name with the names that its definition refers to. -/
abbrev Dependencies := Std.HashMap String (List String)

namespace Dependencies

/-- Leaving out a name that has an entry makes the graph smaller. -/
theorem size_erase_lt {graph : Dependencies} {name : String} {names : List String}
    (h : graph[name]? = some names) : (graph.erase name).size < graph.size := by
  have mem : name ∈ graph := Std.HashMap.mem_iff_isSome_getElem?.mpr (by simp [h])
  have positive : graph.size ≠ 0 := fun zero ↦ by
    have empty : graph.isEmpty := by simpa [Std.HashMap.isEmpty_eq_size_eq_zero] using zero
    exact Std.HashMap.not_mem_of_isEmpty empty mem
  rw [Std.HashMap.size_erase, if_pos mem]
  omega

/-- Whether following references from the pending names leads to `goal`. A name is followed only
once, so the graph without it is enough for the rest. -/
def reaches (goal : String) (graph : Dependencies) : (pending : List String) → Bool
  | [] => false
  | name :: pending =>
    name == goal ||
      match _h : graph[name]? with
      | none => reaches goal graph pending
      | some names => reaches goal (graph.erase name) (names ++ pending)
termination_by pending => (graph.size, pending.length)
decreasing_by
  · exact Prod.Lex.right _ (by simp)
  · exact Prod.Lex.left _ _ (size_erase_lt _h)

/-- Whether a name depends on itself. Only one that some definition refers to can, and most new
names are not referred to yet. -/
def isCyclic (graph : Dependencies) (name : String) : Bool :=
  match graph[name]? with
  | none => false
  | some names => graph.any (fun _ names ↦ names.contains name) && reaches name graph names

end Dependencies

end Formulary
