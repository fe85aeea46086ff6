import Formulary.Proofs.AsWritten
import Formulary.Proofs.Nearest
import Mathlib.Data.List.Nodup

/-!
# Parameters of nodes and of modules

The parameters of a node are those that it and its ancestors declare, and those of a module are the
ones that its own nodes declare. So the parameters of a module's nodes, taken together, are those of
the module and those of ancestors in other modules (`Program.params_listed`). The two lists are the
same if no node has such an ancestor, but not in general (`Heir.param_of_imported`).
-/

namespace Formulary

variable {σ : Type}

/-! ### Names of nodes -/

/-- No two nodes of a script have the same name. -/
theorem Scope.Takes.nodup_names {sc sc' : Scope} {line : Line} (h : sc.Takes line sc')
    (nodup : (sc.drafts.map Draft.name).Nodup) : (sc'.drafts.map Draft.name).Nodup := by
  cases h with
  | again | imports => exact nodup
  | @node name path parent hd new hp =>
    have fresh : name ∉ sc.drafts.map Draft.name := by
      rw [ownNode?, Option.map_eq_none_iff, List.findIdx?_eq_none_iff] at new
      intro known
      obtain ⟨d, hd, same⟩ := List.mem_map.mp known
      exact absurd (new d hd) (by simp [same])
    have more : ∀ d : Draft, d.name = name → ((sc.drafts ++ [d]).map Draft.name).Nodup := by
      rintro d rfl
      rw [List.map_append, List.map_singleton]
      exact List.Nodup.append nodup (List.nodup_singleton _) (List.disjoint_singleton.mpr fresh)
    exact more _ rfl
  | @member d draft m hd hc hm new acyclic =>
    have names : sc.drafts.map Draft.name = sc.closed.map Draft.name ++ [draft.name] := by
      rw [drafts, hc, List.map_append]
      rfl
    rw [names] at nodup
    rw [drafts, List.map_append]
    exact nodup

theorem Draft.Follows.paramNames {before : List Draft} {imports : List (String × Module)}
    {d : Draft} {w : WrittenNode} (h : d.Follows before imports w) :
    d.paramNames = w.paramNames := by
  have members := h.members
  unfold Draft.paramNames WrittenNode.paramNames
  generalize w.definitions = definitions, d.members = members at members ⊢
  induction members with
  | nil => rfl
  | cons hm _ ih =>
    rw [List.filter_cons, List.filter_cons, Definition.isParam_of_member hm]
    split
    · rw [List.map_cons, List.map_cons, ih, Definition.name_of_member hm]
    · exact ih

/-- A module has the parameters that its own nodes declare, and no two of these have the same
name. -/
theorem Compiles.names {texts : List WrittenModule} {library : Library}
    (h : Compiles texts library) {i : Nat} {m : Module} {t : WrittenModule}
    (hm : library.modules[i]? = some m) (ht : texts[i]? = some t) :
    m.params = Ordered.ofElements (t.nodes.flatMap WrittenNode.paramNames) ∧
      (t.nodes.map WrittenNode.name).Nodup := by
  induction h with
  | nothing => cases ht
  | @script texts library _ _ _ _ name _ _ sc o whitelist before accepted imports ih =>
    have size : library.modules.size = texts.length := (renders_of_compiles before).size
    rcases Nat.lt_or_ge i texts.length with old | new
    · rw [List.getElem?_append_left old] at ht
      rw [Library.push, Array.getElem?_push_lt (by omega), ← Array.getElem?_eq_getElem] at hm
      exact ih hm ht
    · rw [List.getElem?_append_right new, List.getElem?_singleton] at ht
      obtain ⟨last, same⟩ := Option.ite_none_right_eq_some.mp ht
      cases same
      obtain rfl : i = library.modules.size := by omega
      rw [Library.push, Array.getElem?_push_size] at hm
      cases hm
      have follows := (follows_of_ofLines accepted).nodes
      have params : sc.drafts.map Draft.paramNames = o.nodes.map WrittenNode.paramNames :=
        map_eq_map_of_getElem? follows fun _ _ _ hd ↦ hd.paramNames
      have names : sc.drafts.map Draft.name = o.nodes.map WrittenNode.name :=
        map_eq_map_of_getElem? follows fun _ _ _ hd ↦ hd.name
      constructor
      · rw [Scope.toModule, Indexed.ofElements_eq, List.flatMap_def, List.flatMap_def, params]
      · rw [← names]
        exact Outline.ofLines_induction accepted List.nodup_nil fun _ _ _ _ ↦
          Scope.Takes.nodup_names

/-- The nodes on a line of descent are written where they say. -/
theorem exists_of_mem_lineage {texts : List WrittenModule} {module index : Nat} {a : Ancestor}
    (h : a ∈ lineage texts module index) : ∃ t, texts[a.home]? = some t ∧ a.node ∈ t.nodes := by
  fun_induction lineage texts module index with
  | case1 | case2 => cases h
  | case3 module index t ht w hw ih =>
    rcases List.mem_cons.mp h with rfl | later
    · exact ⟨t, ht, List.mem_of_getElem? hw⟩
    · split at later
      · cases later
      · next place _ =>
        split at later
        · next earlier => exact ih place earlier later
        · cases later

namespace Program

variable (p : Program) (module : Fin p.library.modules.size)

/-- Asking for a node's parameters finds them, in ascending order, on its line of descent. -/
theorem paramsOf_eq (host : Host σ) (whitelist : Whitelist) (depth : Nat) {t : WrittenModule}
    (ht : p.texts[module.1]? = some t) {j : Nat} {w : WrittenNode} (hw : t.nodes[j]? = some w) :
    ∃ params, (p.engine module host whitelist depth).paramsOf w.name = .ok params ∧
      params.Pairwise (· < ·) ∧
      ∀ x, x ∈ params ↔ ∃ a ∈ Formulary.lineage p.texts module.1 j, x ∈ a.node.paramNames := by
  obtain ⟨t', ht', rendered⟩ := p.rendered module
  cases ht.symm.trans ht'
  have nodup := (p.compiled.names (Array.getElem?_eq_getElem module.2) ht).2
  have found : p.library.modules[module].node? w.name =
      some ⟨module.1, j, t.name, w.name⟩ := by
    have index : (t.nodes.findIdx? fun w' ↦ w'.name == w.name) = some j := by
      obtain ⟨bound, here⟩ := List.getElem?_eq_some_iff.mp hw
      refine List.findIdx?_eq_some_iff_getElem.mpr ⟨bound, by simp [here], fun k hk ↦ ?_⟩
      have apart := List.pairwise_iff_getElem.mp (List.pairwise_map.mp nodup)
      simpa [here] using apart k j (Nat.lt_trans hk bound) bound hk
    rw [p.node?_eq, ht, Option.bind_some, WrittenModule.node?, index]
    rfl
  obtain ⟨n, hn, -⟩ := exists_of_rel_right (rendered.nodes j) hw
  have node : p.library.node? ⟨module.1, j, t.name, w.name⟩ = some n := by
    rw [Library.node?, Library.module?, Array.getElem?_eq_getElem module.2]
    exact hn
  have table := p.tabulates node
  refine ⟨n.paramNames, ?_, table.paramNames.1, fun x ↦ ?_⟩
  · have ref : (p.engine module host whitelist depth).node w.name =
        .ok ⟨module.1, j, t.name, w.name⟩ := by
      unfold Engine.node
      rw [show (p.engine module host whitelist depth).module.node? w.name = _ from found]
    unfold Engine.paramsOf
    rw [ref]
    change Except.ok (((p.library.node? _).map Node.paramNames).getD []) = _
    rw [node]
    rfl
  · rw [Node.paramNames, mem_sortNames_iff, table.params, mem_paramsOn_iff]
    rfl

/-- Parameters are listed by module and by node. The parameters of a module, in ascending order, are
those that its own nodes declare. Those of each of its nodes, in ascending order, are the ones that
the node or an ancestor declares, wherever that is written. So what the nodes have, taken together,
is what the module has and what ancestors in other modules declare. -/
theorem params_listed (host : Host σ) (whitelist : Whitelist) (depth : Nat) :
    let e := p.engine module host whitelist depth
    ∃ t, p.texts[module.1]? = some t ∧
      (e.module.paramNames.Pairwise (· < ·) ∧
        ∀ x, x ∈ e.module.paramNames ↔ ∃ w ∈ t.nodes, x ∈ w.paramNames) ∧
      (∀ j w, t.nodes[j]? = some w → ∃ params, e.paramsOf w.name = .ok params ∧
        params.Pairwise (· < ·) ∧ ∀ x, x ∈ params ↔
          ∃ a ∈ Formulary.lineage p.texts module.1 j, x ∈ a.node.paramNames) ∧
      ∀ x, (∃ w ∈ t.nodes, ∃ params, e.paramsOf w.name = .ok params ∧ x ∈ params) ↔
        x ∈ e.module.paramNames ∨ ∃ j < t.nodes.length,
          ∃ a ∈ Formulary.lineage p.texts module.1 j, a.home ≠ module.1 ∧
            x ∈ a.node.paramNames := by
  intro e
  obtain ⟨t, ht, rendered⟩ := p.rendered module
  have params : e.module.params = Ordered.ofElements (t.nodes.flatMap WrittenNode.paramNames) :=
    (p.compiled.names (Array.getElem?_eq_getElem module.2) ht).1
  have own (x : String) : x ∈ e.module.paramNames ↔ ∃ w ∈ t.nodes, x ∈ w.paramNames := by
    rw [Module.paramNames, mem_sortNames_iff, params, Ordered.ofElements, Ordered.mem_union_iff,
      List.mem_flatMap]
    simp
  have each : ∀ j w, t.nodes[j]? = some w → _ := fun j w hw ↦
    p.paramsOf_eq module host whitelist depth ht hw
  refine ⟨t, ht, ⟨sortNames_ascending ?_, own⟩, each, fun x ↦ ⟨?_, ?_⟩⟩
  · rw [params]
    exact Ordered.nodup_union List.nodup_nil
  · rintro ⟨w, hw, found, asked, hx⟩
    obtain ⟨j, hj⟩ := List.mem_iff_getElem?.mp hw
    obtain ⟨found', asked', -, mem⟩ := each j w hj
    cases asked.symm.trans asked'
    obtain ⟨a, ha, hx⟩ := (mem x).mp hx
    by_cases home : a.home = module.1
    · obtain ⟨t', ht', written⟩ := exists_of_mem_lineage ha
      rw [home] at ht'
      cases ht.symm.trans ht'
      exact .inl ((own x).mpr ⟨a.node, written, hx⟩)
    · exact .inr ⟨j, (List.getElem?_eq_some_iff.mp hj).1, a, ha, home, hx⟩
  · have listed {j : Nat} {w : WrittenNode} (hj : t.nodes[j]? = some w) {a : Ancestor}
        (ha : a ∈ Formulary.lineage p.texts module.1 j) (hx : x ∈ a.node.paramNames) :
        ∃ w ∈ t.nodes, ∃ params, e.paramsOf w.name = .ok params ∧ x ∈ params := by
      obtain ⟨found, asked, -, mem⟩ := each j w hj
      exact ⟨w, List.mem_of_getElem? hj, found, asked, (mem x).mpr ⟨a, ha, hx⟩⟩
    rintro (hx | ⟨j, hj, a, ha, -, hx⟩)
    · obtain ⟨w, hw, hx⟩ := (own x).mp hx
      obtain ⟨j, hj⟩ := List.mem_iff_getElem?.mp hw
      have self : ⟨module.1, t.name, w⟩ ∈ Formulary.lineage p.texts module.1 j := by
        rw [Formulary.lineage, ht]
        simp only [hj]
        exact List.mem_cons_self
      exact listed hj self hx
    · exact listed (List.getElem?_eq_getElem hj) ha hx

end Program

namespace Heir

/-- The modules `Base` and `M` as a program. -/
def both : Program := program.push none accepted imports

/-- A host without methods or classes. -/
def host : Host Unit := ⟨[], fun _ _ _ ↦ pure .nil⟩

/-- The engine of the module `M`. -/
def engine : Engine Unit := both.engine ⟨1, Nat.lt_succ_self 1⟩ host {} 1

/-- `x` is a parameter of the node `B` of `M`, but it is none of the module's parameters: it is
declared in `Base` only. -/
theorem param_of_imported :
    ∃ params, engine.paramsOf "B" = .ok params ∧ "x" ∈ params ∧ "x" ∉ engine.module.paramNames := by
  have text : both.texts[1]? = some ⟨"M", [nodeB]⟩ := rfl
  obtain ⟨params, asked, -, mem⟩ :=
    both.paramsOf_eq ⟨1, Nat.lt_succ_self 1⟩ host {} 1 text (j := 0) (w := nodeB) rfl
  refine ⟨params, asked, (mem "x").mpr ⟨⟨0, "Base", nodeA⟩, ?_, List.mem_singleton_self "x"⟩, ?_⟩
  · have earlier : ∀ q, nodeB.parentPlace? 1 = some q → q.1 < 1 ∨ q.1 = 1 ∧ q.2 < 0 := by
      intro q hq
      cases place.symm.trans hq
      exact .inl Nat.zero_lt_one
    rw [lineage_of_parent text rfl earlier, place]
    apply List.mem_cons_of_mem
    change _ ∈ lineage both.texts 0 0
    rw [lineage]
    exact List.mem_cons_self
  · have none : engine.module.params = [] := (both.compiled.names (i := 1) rfl text).1
    rw [Module.paramNames, mem_sortNames_iff, none]
    exact List.not_mem_nil

end Heir

end Formulary
