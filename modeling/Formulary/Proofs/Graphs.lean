import Formulary.Proofs.Checked
import Formulary.Proofs.Cycles
import Formulary.Proofs.Inheritance

/-!
# The names on a node

Each node of a program has a graph of names: its members, its own or inherited, with the names that
they refer to. What holds of a graph without names, and is kept when a definition is accepted, holds
on every node of every program (`every_of_compiles`). So there are no cycles in it
(`acyclic_of_compiles`), and no name is referred to that is not there (`closed_of_compiles`).
-/

namespace Formulary

/-- Each member of a node type with the names that it refers to. -/
def Node.dependencies (n : Node) : Dependencies := n.table.map fun _ slot ↦ slot.member.deps

/-- The graphs of all nodes of a library are of some kind. -/
def Library.Every (Q : Dependencies → Prop) (library : Library) : Prop :=
  ∀ ref n, library.node? ref = some n → Q n.dependencies

/-- A kind of graphs that accepted definitions do not lead out of. -/
structure Dependencies.Kept (Q : Dependencies → Prop) : Prop where
  empty : Q ∅
  congr : ∀ {graph graph' : Dependencies}, Q graph →
    (∀ x : String, graph'[x]? = graph[x]?) → Q graph'
  insert : ∀ {d : Definition} {draft : Draft} {m : Member}, d.scope.current = some draft →
    d.member = .ok m →
    Dependencies.isCyclic (draft.visible.insert d.name m.deps) d.name = false →
    Q draft.visible → Q (draft.visible.insert d.name m.deps)

/-! ### Scripts -/

section

variable {Q : Dependencies → Prop} {library : Library} {sc sc' : Scope}

theorem Scope.mem_drafts_of_current {draft : Draft} (hc : sc.current = some draft) :
    draft ∈ sc.drafts := by
  rw [drafts, hc]
  exact List.mem_append_right _ (List.mem_singleton_self draft)

/-- A node starts with a graph of the kind. -/
theorem kept_inherited (kept : Dependencies.Kept Q) (compiled : library.Every Q)
    (imports : sc.ImportsFrom library)
    (drafts : ∀ d ∈ sc.drafts, Q d.visible) (parent : Option NodeTarget) :
    Q (sc.inherited parent) := by
  cases parent with
  | none => exact kept.empty
  | some target =>
    unfold Scope.inherited Scope.visibleOn
    cases target with
    | own index name =>
      dsimp only
      split
      · next d found => exact drafts d (List.mem_of_getElem? found)
      · exact kept.empty
    | imported ref =>
      dsimp only
      split
      · next m found =>
        split
        · next n hn =>
          have known := imports _ (List.mem_of_find?_eq_some found)
          have id : m.id = ref.module := by simpa using List.find?_some found
          refine compiled ref n ?_
          rw [Library.node?, ← id, known]
          exact hn
        · exact kept.empty
      · exact kept.empty

/-- An accepted line keeps the graphs of the kind. -/
theorem Scope.Takes.kept {line : Line} (h : sc.Takes line sc') (kept : Dependencies.Kept Q)
    (compiled : library.Every Q) (imports : sc.ImportsFrom library)
    (drafts : ∀ d ∈ sc.drafts, Q d.visible) : ∀ d ∈ sc'.drafts, Q d.visible := by
  cases h with
  | again hd known | imports m hd new => exact drafts
  | @node name path parent hd new hp =>
    intro d hmem
    rcases List.mem_append.mp hmem with old | opened
    · exact drafts d old
    · cases List.mem_singleton.mp opened
      exact kept_inherited kept compiled imports drafts parent
  | @member definition draft m hd hc hm new noCycle =>
    intro d hmem
    have before := drafts draft (Scope.mem_drafts_of_current hc)
    rcases List.mem_append.mp hmem with closed | here
    · exact drafts d (List.mem_append_left _ closed)
    · cases List.mem_singleton.mp here
      rw [← scope_of_definition? hd] at hc
      exact kept.insert hc hm noCycle before

/-- What is imported stays imported. -/
theorem Scope.Takes.imports_subset {line : Line} (h : sc.Takes line sc') :
    ∀ e ∈ sc.imports, e ∈ sc'.imports := by
  cases h with
  | imports m hd new => exact fun e he ↦ Ordered.mem_put_of_mem new he
  | again hd known | node hd new hp | member hd hc hm new noCycle => exact fun e he ↦ he

/-- The graphs of an accepted script are of the kind, if those are that it may inherit from. -/
theorem kept_of_ofLines {ρ : Type} {module : String} {classes : List ClassSignature}
    {load : String → Loading ρ Module} {lines : List Line} {o : Outline} {r r' : ρ}
    (kept : Dependencies.Kept Q) (compiled : library.Every Q)
    (accepted : (Outline.ofLines module classes load lines).run.run r = (.ok (sc, o), r'))
    (imports : sc.ImportsFrom library) :
    ∀ d ∈ sc.drafts, Q d.visible := by
  refine Outline.ofLines_induction
    (P := fun sc _ ↦ sc.ImportsFrom library →
      ∀ d ∈ sc.drafts, Q d.visible) accepted (fun _ d hd ↦ by cases hd) ?_ imports
  intro sc o line sc' taken before imports
  have earlier : sc.ImportsFrom library :=
    fun e he ↦ imports e (taken.imports_subset e he)
  exact taken.kept kept compiled earlier (before earlier)

end

/-! ### Compiled nodes -/

/-- What the parent of a draft has: a draft before it, or a node of the library. -/
def Draft.inherits (d : Draft) (library : Library) (before : List Draft) : Dependencies :=
  match d.parent with
  | none => ∅
  | some (.own index _) => (before[index]?.map Draft.visible).getD ∅
  | some (.imported ref) => ((library.node? ref).map Node.dependencies).getD ∅

/-- A compiled node has the members that its draft shows. -/
def Node.Shows (n : Node) (visible : Dependencies) : Prop :=
  ∀ x : String, n.dependencies[x]? = visible[x]?

theorem Node.getElem?_dependencies (n : Node) (x : String) :
    n.dependencies[x]? = n.table[x]?.map fun slot ↦ slot.member.deps :=
  Std.HashMap.getElem?_map

/-- Members that are added one after the other, under different names, replace or extend what a node
has. -/
theorem getElem?_dependencies_foldl (home : Nat) (homeName x : String) (members : List Member)
    (distinct : (members.map Member.name).Nodup) (n : Node) :
    (members.foldl (fun n m ↦ n.define home homeName m) n).dependencies[x]? =
      ((members.find? fun m ↦ m.name == x).map Member.deps).or n.dependencies[x]? := by
  induction members generalizing n with
  | nil => rfl
  | cons m members ih =>
    rw [List.map_cons, List.nodup_cons] at distinct
    rw [List.foldl_cons, ih distinct.2, Node.getElem?_dependencies,
      Node.getElem?_table_define, Node.getElem?_dependencies, List.find?_cons]
    by_cases same : m.name = x
    · have later : (members.find? fun m ↦ m.name == x) = none := by
        rw [List.find?_eq_none]
        intro m' hm' he
        exact distinct.1 (same ▸ beq_iff_eq.mp he ▸ List.mem_map_of_mem hm')
      rw [if_pos same, later, beq_iff_eq.mpr same]
      rfl
    · rw [if_neg same, beq_eq_false_iff_ne.mpr same]

section

variable {library : Library} {sc : Scope} {o : Outline}

/-- A draft starts from what its parent has in the library. -/
theorem inherited_eq_inherits {before : List Draft} {d : Draft} {w : WrittenNode}
    (hd : d.Follows before sc.imports w) (imports : sc.ImportsFrom library) :
    w.scope.inherited d.parent = d.inherits library before := by
  unfold Draft.inherits
  cases hparent : d.parent with
  | none => rfl
  | some target =>
    rcases hd.parent_cases hparent with ⟨j, own, rfl, -⟩ | ⟨e, he, ref, n, rfl, hm, hn⟩
    · simp only [Scope.inherited, Scope.visibleOn, hd.drafts]
      cases before[j]? with
      | none | some d' => rfl
    · have found := imports e (hd.imports e he)
      rw [← hm] at found
      have node : library.node? ref = some n := by
        rw [Library.node?, found]
        exact hn
      -- Any import with the number of the parent's module is that module.
      obtain ⟨e', he'⟩ : ∃ e', w.scope.imports.find? (fun e ↦ e.2.id == ref.module) = some e' := by
        rw [← Option.isSome_iff_exists, List.find?_isSome]
        exact ⟨e, he, by simp [hm]⟩
      have id : e'.2.id = ref.module := by simpa using List.find?_some he'
      have same : e'.2 = e.2 := by
        have found' := imports e' (hd.imports e' (List.mem_of_find?_eq_some he'))
        rw [id, found] at found'
        exact (Option.some.inj found').symm
      simp only [node, Scope.inherited, Scope.visibleOn, he', same, hn]
      rfl

/-- A draft shows what is its own and, for other names, what its parent has. -/
theorem getElem?_visible (hf : sc.Follows o)
    (imports : sc.ImportsFrom library) {i : Nat} {d : Draft}
    (hd : sc.drafts[i]? = some d) (x : String) :
    d.visible[x]? = ((d.members.find? fun m ↦ m.name == x).map Member.deps).or
      (d.inherits library (sc.drafts.take i))[x]? := by
  obtain ⟨w, -, hdw⟩ := exists_of_rel_left (hf.nodes i) hd
  rw [hdw.visible, inherited_eq_inherits hdw imports]

/-- The node that a draft starts from has the members which the draft inherits. -/
theorem shows_base {k : Nat} {nodes : Array Node} {d : Draft} {w : WrittenNode}
    (hd : d.Follows (sc.drafts.take k) sc.imports w) (earlier : ∀ j < k, ∃ n, nodes[j]? = some n ∧
      ∃ d, sc.drafts[j]? = some d ∧ n.Shows d.visible) :
    (d.base library nodes).Shows (d.inherits library (sc.drafts.take k)) := by
  intro x
  unfold Draft.base Draft.inherits
  cases hparent : d.parent with
  | none => simp [Node.dependencies]
  | some target =>
    rcases hd.parent_cases hparent with ⟨j, own, rfl, hj⟩ | ⟨-, -, ref, -, rfl, -⟩
    · have hjk : j < k := by
        rw [List.length_take] at hj
        omega
      obtain ⟨n, hn, d', hd', shows⟩ := earlier j hjk
      simp only [hn, List.getElem?_take_of_lt hjk, hd', Option.map_some, Option.getD_some]
      exact shows x
    · dsimp only
      cases library.node? ref with
      | none => simp [Node.dependencies]
      | some n => rfl

/-- The nodes of a compiled script have the members that its drafts show. -/
theorem shows_nodes (hf : sc.Follows o) (imports : sc.ImportsFrom library) (name : String)
    (whitelist : Option Whitelist) :
    (sc.toModule library name whitelist).nodes.size = sc.drafts.length ∧
      ∀ j < sc.drafts.length, ∃ n, (sc.toModule library name whitelist).nodes[j]? = some n ∧
        ∃ d, sc.drafts[j]? = some d ∧ n.Shows d.visible := by
  refine toModule_induction sc library name whitelist fun k d nodes hd earlier ↦ ⟨d, hd, ?_⟩
  obtain ⟨w, -, hdw⟩ := exists_of_rel_left (hf.nodes k) hd
  have distinct : (d.members.map Member.name).Nodup := by
    rw [names_eq_of_members hdw.members]
    exact hdw.distinct
  intro x
  rw [Draft.toNode, getElem?_dependencies_foldl _ _ _ _ distinct, getElem?_visible hf imports hd,
    shows_base hdw earlier]

/-- The graphs of a library stay of the kind when one more script is compiled. -/
theorem Library.Every.push {Q : Dependencies → Prop} (kept : Dependencies.Kept Q)
    (compiled : library.Every Q) (hf : sc.Follows o) (imports : sc.ImportsFrom library)
    (drafts : ∀ d ∈ sc.drafts, Q d.visible) (name : String) (whitelist : Option Whitelist) :
    (library.push (sc.toModule library name whitelist)).Every Q := by
  intro ref n found
  obtain ⟨m, hm, hn⟩ := Option.bind_eq_some_iff.mp found
  simp only [Library.module?, Library.push] at hm
  rcases Nat.lt_or_ge ref.module library.modules.size with old | new
  · rw [Array.getElem?_push_lt old, ← Array.getElem?_eq_getElem old] at hm
    exact compiled ref n (Option.bind_eq_some_iff.mpr ⟨m, hm, hn⟩)
  · have here : ref.module = library.modules.size := by
      have := (Array.getElem?_eq_some_iff.mp hm).1
      simp only [Array.size_push] at this
      omega
    rw [here, Array.getElem?_push_size] at hm
    cases hm
    obtain ⟨size, compiled⟩ := shows_nodes hf imports name whitelist
    have hlt : ref.index < sc.drafts.length := by
      rw [← size]
      exact (Array.getElem?_eq_some_iff.mp hn).1
    obtain ⟨n', hn', d, hd, shows⟩ := compiled ref.index hlt
    rw [hn] at hn'
    cases hn'
    exact kept.congr (drafts d (List.mem_of_getElem? hd)) shows

end

/-- The graphs of a program's nodes are of any kind that accepted definitions do not lead out of. -/
theorem every_of_compiles {Q : Dependencies → Prop} (kept : Dependencies.Kept Q)
    {texts : List WrittenModule} {library : Library} (h : Compiles texts library) :
    library.Every Q := by
  induction h with
  | nothing =>
    intro ref n found
    simp [Library.node?, Library.module?] at found
  | script whitelist _ accepted imports ih =>
    exact .push kept ih (follows_of_ofLines accepted) imports
      (kept_of_ofLines kept ih accepted imports) _ whitelist

/-! ### Cycles and missing names -/

theorem kept_acyclic : Dependencies.Kept Dependencies.Acyclic where
  empty := Dependencies.acyclic_empty
  congr := Dependencies.Acyclic.congr
  insert _ _ noCycle before := (Dependencies.acyclic_insert_iff before _ _).mpr noCycle

/-- No node of a program has a cycle among its members. -/
theorem acyclic_of_compiles {texts : List WrittenModule} {library : Library}
    (h : Compiles texts library) : library.Every Dependencies.Acyclic :=
  every_of_compiles kept_acyclic h

/-- Every name that is referred to has an entry itself. -/
def Dependencies.Closed (graph : Dependencies) : Prop :=
  ∀ x y : String, graph.Refers x y → y ∈ graph

theorem kept_closed : Dependencies.Kept Dependencies.Closed where
  empty x y h := absurd h Dependencies.not_refers_empty
  congr {graph graph'} closed same x y := by
    rintro ⟨names, found, hy⟩
    have there := closed x y ⟨names, (same x).symm.trans found, hy⟩
    rw [Std.HashMap.mem_iff_isSome_getElem?] at there ⊢
    rw [same]
    exact there
  insert {d draft m} hc hm _ before x y h := by
    rw [Dependencies.refers_insert_iff] at h
    rw [Std.HashMap.mem_insert]
    split at h
    · have sees := d.scope.sees_of_references (Definition.fields_of_member hm).2.2 y h
      rw [Scope.sees, hc] at sees
      exact .inr sees
    · exact .inr (before x y h)

/-- No member of a program refers to a name that its node does not have. -/
theorem closed_of_compiles {texts : List WrittenModule} {library : Library}
    (h : Compiles texts library) : library.Every Dependencies.Closed :=
  every_of_compiles kept_closed h

end Formulary
