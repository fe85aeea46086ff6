import Formulary.Dependency
import Mathlib.Logic.Relation

/-!
# Cycles in dependency graphs

The search for a name among what others refer to finds it just if it can be reached
(`Dependencies.reaches_iff`). If a graph has no cycle, then one comes of defining a name anew just
if the name depends on itself (`Dependencies.acyclic_insert_iff`): looking at that name alone is
enough.
-/

namespace Formulary.Dependencies

open Relation

/-- The definition of a name refers to another one. -/
def Refers (graph : Dependencies) (x y : String) : Prop :=
  ∃ names, graph[x]? = some names ∧ y ∈ names

/-- No name depends on itself. -/
def Acyclic (graph : Dependencies) : Prop := ∀ x, ¬TransGen graph.Refers x x

variable {graph graph' : Dependencies} {name goal x y : String} {names : List String}

/-- Only what a graph says of each name matters. -/
theorem Acyclic.congr (h : graph.Acyclic) (same : ∀ x : String, graph'[x]? = graph[x]?) :
    graph'.Acyclic := by
  intro x cycle
  refine h x (TransGen.mono (fun a b edge ↦ ?_) x x cycle)
  obtain ⟨names, found, mem⟩ := edge
  exact ⟨names, by rw [← same, found], mem⟩

@[simp] theorem not_refers_empty : ¬Refers ∅ x y := by
  rintro ⟨names, found, -⟩
  simp at found

@[simp] theorem refers_insert_iff : Refers (graph.insert name names) x y ↔
    if name = x then y ∈ names else graph.Refers x y := by
  simp only [Refers, Std.HashMap.getElem?_insert, beq_iff_eq]
  split
  · simp
  · rfl

theorem acyclic_empty : Acyclic ∅ := by
  intro x cycle
  obtain ⟨y, edge, -⟩ := TransGen.head'_iff.mp cycle
  exact not_refers_empty edge

/-! ### The search -/

theorem refers_of_erase (h : Refers (graph.erase name) x y) : graph.Refers x y := by
  obtain ⟨names, found, mem⟩ := h
  rw [Std.HashMap.getElem?_erase] at found
  split at found
  · cases found
  · exact ⟨names, found, mem⟩

theorem refers_erase (h : graph.Refers x y) (other : name ≠ x) : Refers (graph.erase name) x y := by
  obtain ⟨names, found, mem⟩ := h
  refine ⟨names, ?_, mem⟩
  rw [Std.HashMap.getElem?_erase, if_neg (by simpa using other), found]

/-- A name that has no definition leads nowhere. -/
theorem eq_of_reach_of_none (h : ReflTransGen graph.Refers name goal)
    (none : graph[name]? = none) : name = goal := by
  rcases h.cases_head with same | ⟨y, ⟨names, found, -⟩, -⟩
  · exact same
  · rw [none] at found
    cases found

/-- A path either avoids a name or can be taken up after its last visit there. -/
theorem reach_erase_or (found : graph[name]? = some names) (h : ReflTransGen graph.Refers x goal) :
    ReflTransGen (Refers (graph.erase name)) x goal ∨
      ∃ y ∈ names, ReflTransGen (Refers (graph.erase name)) y goal := by
  induction h using ReflTransGen.head_induction_on with
  | refl => exact .inl .refl
  | @head x y edge _ ih =>
    rcases ih with rest | later
    · by_cases same : name = x
      · subst same
        obtain ⟨names', found', mem⟩ := edge
        rw [found] at found'
        cases found'
        exact .inr ⟨y, mem, rest⟩
      · exact .inl (.head (refers_erase edge same) rest)
    · exact .inr later

/-- The search finds what can be reached. -/
theorem reaches_iff (goal : String) (graph : Dependencies) (pending : List String) :
    reaches goal graph pending = true ↔ ∃ x ∈ pending, ReflTransGen graph.Refers x goal := by
  fun_induction reaches goal graph pending with
  | case1 graph => simp
  | case2 graph name pending skips follows =>
    simp only [Bool.or_eq_true, beq_iff_eq, List.mem_cons, exists_eq_or_imp]
    split
    · next none =>
      rw [skips]
      refine or_congr_left ⟨?_, fun h ↦ eq_of_reach_of_none h none⟩
      rintro rfl
      exact .refl
    · next names found =>
      rw [follows names found]
      constructor
      · rintro (rfl | ⟨x, mem, path⟩)
        · exact .inl .refl
        · have path := ReflTransGen.mono (fun a b edge ↦ refers_of_erase edge) x goal path
          rcases List.mem_append.mp mem with mem | mem
          · exact .inl (.head ⟨names, found, mem⟩ path)
          · exact .inr ⟨x, mem, path⟩
      · -- Whatever is left of a path after it was last at the name avoids the name.
        rintro (path | ⟨x, mem, path⟩)
        · rcases reach_erase_or found path with rest | ⟨y, mem, rest⟩
          · exact .inl (eq_of_reach_of_none rest Std.HashMap.getElem?_erase_self)
          · exact .inr ⟨y, List.mem_append_left _ mem, rest⟩
        · rcases reach_erase_or found path with rest | ⟨y, mem', rest⟩
          · exact .inr ⟨x, List.mem_append_right _ mem, rest⟩
          · exact .inr ⟨y, List.mem_append_left _ mem', rest⟩

/-- A name is found to be cyclic just if it depends on itself. -/
theorem isCyclic_iff (graph : Dependencies) (name : String) :
    graph.isCyclic name = true ↔ TransGen graph.Refers name name := by
  unfold isCyclic
  cases found : graph[name]? with
  | none =>
    refine ⟨fun h ↦ (by cases h), fun cycle ↦ ?_⟩
    obtain ⟨y, ⟨names, found', -⟩, -⟩ := TransGen.head'_iff.mp cycle
    rw [found] at found'
    cases found'
  | some names =>
    have mentioned : TransGen graph.Refers name name →
        graph.any (fun _ names ↦ names.contains name) = true := by
      intro cycle
      obtain ⟨y, -, names', found', mem⟩ := TransGen.tail'_iff.mp cycle
      obtain ⟨known, rfl⟩ := getElem?_eq_some_iff.mp found'
      rw [Std.HashMap.any_eq_true_iff_exists_mem_getElem]
      exact ⟨y, known, by simpa using mem⟩
    have search : reaches name graph names = true ↔ TransGen graph.Refers name name := by
      rw [reaches_iff, TransGen.head'_iff]
      constructor
      · rintro ⟨y, mem, path⟩
        exact ⟨y, ⟨names, found, mem⟩, path⟩
      · rintro ⟨y, ⟨names', found', mem⟩, path⟩
        rw [found] at found'
        cases found'
        exact ⟨y, mem, path⟩
    simp only [Bool.and_eq_true, search]
    exact ⟨And.right, fun cycle ↦ ⟨mentioned cycle, cycle⟩⟩

/-! ### One more definition -/

/-- A name that nothing refers to is not cyclic. -/
theorem isCyclic_eq_false (h : ∀ x, ¬graph.Refers x name) : graph.isCyclic name = false := by
  rw [← Bool.not_eq_true, isCyclic_iff]
  intro cycle
  obtain ⟨x, -, edge⟩ := TransGen.tail'_iff.mp cycle
  exact h x edge

/-- A name that refers to nothing is on no cycle. -/
theorem isCyclic_insert_nil (graph : Dependencies) (name : String) :
    isCyclic (graph.insert name []) name = false := by
  simp [isCyclic, reaches]

/-- A path in the new graph is one in the old graph, or it passes through the new name. -/
theorem path_of_insert (h : TransGen (Refers (graph.insert name names)) x y) :
    TransGen graph.Refers x y ∨
      ReflTransGen (Refers (graph.insert name names)) x name ∧
        TransGen (Refers (graph.insert name names)) name y := by
  induction h using TransGen.head_induction_on with
  | @single x edge =>
    by_cases same : name = x
    · subst same
      exact .inr ⟨.refl, .single edge⟩
    · rw [refers_insert_iff, if_neg same] at edge
      exact .inl (.single edge)
  | @head x z edge rest ih =>
    by_cases same : name = x
    · subst same
      exact .inr ⟨.refl, .head edge rest⟩
    · rcases ih with old | ⟨before, after⟩
      · rw [refers_insert_iff, if_neg same] at edge
        exact .inl (.head edge old)
      · exact .inr ⟨.head edge before, after⟩

/-- Defining a name anew in a graph without cycles makes one just if the name then depends on
itself. -/
theorem acyclic_insert_iff (h : graph.Acyclic) (name : String) (names : List String) :
    Acyclic (graph.insert name names) ↔ isCyclic (graph.insert name names) name = false := by
  rw [← Bool.not_eq_true, isCyclic_iff]
  refine ⟨fun acyclic ↦ acyclic name, fun none x cycle ↦ ?_⟩
  rcases path_of_insert cycle with old | ⟨before, after⟩
  · exact h x old
  · exact none (after.trans_left before)

end Formulary.Dependencies
