import Formulary.Proofs.Accepted
import Formulary.Proofs.Graphs
import Formulary.Registry

/-!
# Nearest definitions

A compiled node has under each name what the nearest node on its line of descent defines. The scope
in which its script was checked saw the same names on it, with the same references. Its parameters
are those that any node on the line declares, whatever a descendant makes of them
(`Program.table_is_nearest`).
-/

namespace Formulary

theorem mem_sortNames_iff {names : List String} {x : String} : x ∈ sortNames names ↔ x ∈ names :=
  (List.mergeSort_perm names _).mem_iff

/-- Names that differ are listed in strictly ascending order. -/
theorem sortNames_ascending {names : List String} (distinct : names.Nodup) :
    (sortNames names).Pairwise (· < ·) := by
  have ordered : (sortNames names).Pairwise fun a b ↦ decide (a ≤ b) = true := by
    apply List.pairwise_mergeSort
    · intro a b c hab hbc
      simp only [decide_eq_true_eq] at hab hbc ⊢
      exact String.le_trans hab hbc
    · intro a b
      simpa using String.le_total a b
  have apart : (sortNames names).Nodup := (List.mergeSort_perm names _).nodup_iff.mpr distinct
  apply (ordered.and apart).imp
  rintro a b ⟨le, ne⟩
  exact Std.lt_of_le_of_ne (of_decide_eq_true le) ne

theorem WrittenNode.mem_paramNames_iff {n : WrittenNode} {x : String} :
    x ∈ n.paramNames ↔ ∃ d ∈ n.definitions, d.wording.isParam = true ∧ d.name = x := by
  simp [paramNames, and_assoc]

/-- The parameters of a node are listed in ascending order, each once, and they are those that some
node on its line of descent declares. -/
theorem Node.Tabulates.paramNames {n : Node} {line : List Ancestor} (h : n.Tabulates line) :
    n.paramNames.Pairwise (· < ·) ∧ ∀ x, x ∈ n.paramNames ↔
      ∃ a ∈ line, ∃ d ∈ a.node.definitions, d.wording.isParam = true ∧ d.name = x := by
  constructor
  · apply sortNames_ascending
    rw [h.params]
    exact nodup_paramsOn line
  · intro x
    rw [Node.paramNames, mem_sortNames_iff, h.params, mem_paramsOn_iff]
    simp only [WrittenNode.mem_paramNames_iff]

/-- The program that a script is added to, and the script. -/
def Program.push (p : Program) {ρ : Type} {load : String → Loading ρ Module} {module : String}
    {classes : List ClassSignature} {lines : List Line} {sc : Scope} {o : Outline} {r r' : ρ}
    (whitelist : Option Whitelist)
    (accepted : (Outline.ofLines module classes load lines).run.run r = (.ok (sc, o), r'))
    (imports : sc.ImportsFrom p.library) : Program where
  texts := p.texts ++ [⟨module, o.nodes⟩]
  library := p.library.push (sc.toModule p.library module whitelist)
  compiled := .script whitelist p.compiled accepted imports

/-- Whatever script is accepted, with modules of a program as its imports, each node of the compiled
module has a line of descent: the node as it is written, and then the line of its parent. Under each
name the node has the member that the nearest node on the line defines, and nothing if none does.
Where the script ends, the scope shows the same names on the node, with the same references. The
node's parameters, in ascending order, are the names that some node on the line declares as a
parameter. -/
theorem Program.table_is_nearest (p : Program) {ρ : Type} {load : String → Loading ρ Module}
    {module : String} {classes : List ClassSignature} {lines : List Line} {sc : Scope}
    {o : Outline} {r r' : ρ} (whitelist : Option Whitelist)
    (accepted : (Outline.ofLines module classes load lines).run.run r = (.ok (sc, o), r'))
    (imports : ∀ e ∈ sc.imports, p.library.module? e.2.id = some e.2) :
    let m := sc.toModule p.library module whitelist
    let descent := Formulary.lineage (p.texts ++ [⟨module, o.nodes⟩])
    m.nodes.size = o.nodes.length ∧
    ∀ i n, m.nodes[i]? = some n → ∃ d w, sc.drafts[i]? = some d ∧ o.nodes[i]? = some w ∧
      n.name = w.name ∧
      descent m.id i = ⟨m.id, module, w⟩ ::
        ((w.parentPlace? m.id).map fun place ↦ descent place.1 place.2).getD [] ∧
      (∀ x, Option.Rel (fun l slot ↦ Slot.Holds slot l)
        (definition? x (descent m.id i)) n.table[x]?) ∧
      (∀ x : String, d.visible[x]? = n.table[x]?.map fun slot ↦ slot.member.deps) ∧
      n.paramNames.Pairwise (· < ·) ∧
      ∀ x, x ∈ n.paramNames ↔ ∃ a ∈ descent m.id i, ∃ definition ∈ a.node.definitions,
        definition.wording.isParam = true ∧ definition.name = x := by
  intro m descent
  have hf : sc.Follows o := follows_of_ofLines accepted
  have rendered : p.library.Renders p.texts := renders_of_compiles p.compiled
  obtain ⟨size, shown⟩ := shows_nodes hf imports module whitelist
  have length : sc.drafts.length = o.nodes.length := by
    have closed := hf.length
    have current := hf.current
    unfold Scope.drafts Outline.nodes
    cases hs : sc.current <;> cases ho : o.current <;> rw [hs, ho] at current
    · simpa using closed
    · cases current
    · cases current
    · simpa using closed
  refine ⟨size.trans length, ?_⟩
  intro i n hn
  have hi : i < sc.drafts.length := by
    rw [← size]
    exact (Array.getElem?_eq_some_iff.mp hn).1
  obtain ⟨n', hn', d, hd, shows⟩ := shown i hi
  obtain ⟨w, hw, hdw⟩ := exists_of_rel_left (hf.nodes i) hd
  cases hn.symm.trans hn'
  have found :
      (p.push whitelist accepted imports).library.node? ⟨m.id, i, module, n.name⟩ = some n :=
    (Library.node?_push_nextId _ _ _ _ _).trans hn
  have table : n.Tabulates (descent m.id i) := (p.push whitelist accepted imports).tabulates found
  refine ⟨d, w, hd, hw, ?_, lineage_eq_cons module rendered hdw hw imports, table.slots, ?_,
    table.paramNames⟩
  · obtain ⟨-, named⟩ := renders_nodes module rendered hf imports whitelist
    obtain ⟨n', hn', w', hw', renders⟩ := named i hi
    cases hn.symm.trans hn'
    cases hw.symm.trans hw'
    exact renders.name
  · intro x
    rw [← Node.getElem?_dependencies, shows x]

/-! A parameter that becomes a formula in another module: `A` in the module `Base` declares `x`, and
`B` in `M`, which inherits from it, has `x = 2`. -/

namespace Heir

def memberX : Member := ⟨"x", 2, .param none, []⟩

def memberTwo : Member := ⟨"x", 3, .formula (.const (.int 2)), []⟩

def nodeA : WrittenNode where
  scope := { classes := [] }
  name := "A"
  parent := none
  definitions := [⟨.having [] "A" [], 2, "x", .param none⟩]

/-- The module `Base` as a program. -/
def program : Program :=
  ((Accepted.node "Base" [] "A" default).define ⟨2, ⟨5, 9⟩, .param "x" none⟩ memberX rfl rfl rfl
    rfl).program rfl

def base : Module := (Scope.having [] "A" [memberX]).toModule {} "Base" none

/-- Every import is that of `Base`. -/
def load (_ : String) : Loading Unit Module := return base

/-- The scope after the import. -/
def imported : Scope := { classes := [], imports := [("Base", base)] }

def refA : NodeRef := ⟨0, 0, "Base", "A"⟩

/-- The scope in which `B` is open and has these members. -/
def inB (visible : Dependencies) (members : List Member) : Scope :=
  { imported with current := some ⟨"B", some (.imported refA), visible, members⟩ }

/-- The names on `B` when it is opened. -/
def visible : Dependencies := imported.visibleOn (.imported refA)

def nodeB : WrittenNode where
  scope := imported
  name := "B"
  parent := some ⟨some "Base", "A"⟩
  definitions := [⟨inB visible [], 3, "x", .formula (.literal default (.int 2))⟩]

def lines : List Line :=
  [⟨1, default, .imports "Base"⟩, ⟨2, default, .node "B" (some ⟨some "Base", "A"⟩)⟩,
    ⟨3, default, .formula "x" (.literal default (.int 2))⟩]

theorem node_A : base.node? "A" = some refA := by
  have named : (base.nodes.findIdx? fun n ↦ n.name == "A") = some 0 := by
    simp [base, Scope.toModule, Scope.drafts, Scope.having, name_toNode]
  rw [Module.node?, named]
  rfl

theorem resolved : imported.resolveNode ⟨some "Base", "A"⟩ = .ok (.imported refA) := by
  simp [Scope.resolveNode, imported, Ordered.get?, node_A]

theorem accepted : (Outline.ofLines "M" [] load lines).run.run () =
    (.ok (inB (visible.insert "x" []) [memberTwo], { current := some nodeB }), ()) := by
  have loaded : (Scope.declareIn "M" load { classes := [] }
      ⟨1, default, .imports "Base"⟩).run.run () = (.ok imported, ()) := rfl
  have opened : (imported.declareIn "M" load
      ⟨2, default, .node "B" (some ⟨some "Base", "A"⟩)⟩).run.run () =
        (.ok (inB visible []), ()) := by
    have settled : imported.openNode "B" (some ⟨some "Base", "A"⟩) = .ok (inB visible []) := by
      simp only [Scope.openNode, Option.mapM_some, resolved]
      rfl
    rw [Scope.declareIn, run_tryCatch, Scope.declare]
    simp only [settled]
    rfl
  have defined : ((inB visible []).declareIn "M" load
      ⟨3, default, .formula "x" (.literal default (.int 2))⟩).run.run () =
        (.ok (inB (visible.insert "x" []) [memberTwo]), ()) :=
    Scope.run_declareIn_of_member ⟨inB visible [], 3, "x", .formula (.literal default (.int 2))⟩
      ⟨"B", some (.imported refA), visible, []⟩ memberTwo rfl rfl rfl rfl
      (Dependencies.isCyclic_insert_nil visible "x") "M" load ()
  rw [Outline.ofLines, lines, run_foldlM_cons (Outline.run_noted loaded _),
    run_foldlM_cons (Outline.run_noted opened _), run_foldlM_cons (Outline.run_noted defined _)]
  rfl

theorem imports : ∀ e ∈ (inB (visible.insert "x" []) [memberTwo]).imports,
    program.library.module? e.2.id = some e.2 := by
  intro e he
  cases List.mem_singleton.mp he
  rfl

theorem place : nodeB.parentPlace? 1 = some (0, 0) := by
  simp only [WrittenNode.parentPlace?, WrittenNode.target?, nodeB, Option.bind_some, resolved]
  rfl

/-- `B` has the formula under `x`, and `x` is still one of its parameters. -/
theorem table_B :
    (Outline.ofLines "M" [] load lines).run.run () =
      (.ok (inB (visible.insert "x" []) [memberTwo], { current := some nodeB }), ()) ∧
    ∃ n slot,
      ((inB (visible.insert "x" []) [memberTwo]).toModule program.library "M" none).nodes[0]? =
        some n ∧
      n.table["x"]? = some slot ∧ slot.home = 1 ∧ slot.member = memberTwo ∧
      "x" ∈ n.paramNames := by
  obtain ⟨size, nodes⟩ := program.table_is_nearest none accepted imports
  have first : 0 < ((inB (visible.insert "x" []) [memberTwo]).toModule program.library "M"
      none).nodes.size := by
    rw [size]
    exact Nat.zero_lt_one
  have hn := Array.getElem?_eq_getElem first
  obtain ⟨d, w, -, hw, -, descent, slots, -, -, params⟩ := nodes 0 _ hn
  cases hw
  obtain ⟨slot, found, holds⟩ := exists_of_rel_left (slots "x") (by rw [descent]; rfl)
  refine ⟨accepted, _, slot, hn, found, holds.home, (Except.ok.inj holds.member).symm, ?_⟩
  refine (params "x").mpr ⟨⟨0, "Base", nodeA⟩, ?_, _, List.mem_singleton_self _, rfl, rfl⟩
  rw [descent]
  apply List.mem_cons_of_mem
  change _ ∈ ((nodeB.parentPlace? 1).map _).getD []
  rw [place, Option.map_some, Option.getD_some, lineage]
  exact List.mem_singleton_self _

end Heir

end Formulary
