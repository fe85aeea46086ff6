import Formulary.Proofs.AsWritten

/-!
# Memo keys

The slots of a node are numbered in the order in which their names are first defined, from the
oldest ancestor on. So the numbers tell the names apart, they are below the next one, and a
descendant keeps those of its ancestors, also for what it defines anew. Modules are numbered, too,
and nodes within them, so that no two attributes are kept under the same key
(`Program.memo_keys_apart`).
-/

namespace Formulary

/-- What is added to a set comes after its elements. -/
theorem Ordered.prefix_union {α : Type} [BEq α] (xs ys : List α) : xs <+: union xs ys := by
  induction ys generalizing xs with
  | nil => exact List.prefix_rfl
  | cons y ys ih =>
    have one : xs <+: add y xs := by
      unfold add
      split
      · exact List.prefix_rfl
      · exact List.prefix_append xs [y]
    exact one.trans (ih (add y xs))

namespace Node.Tabulates

variable {n m : Node} {line : List Ancestor} {x y : String} {slot slot' : Slot}

theorem mem_of_getElem? (h : n.Tabulates line) (hx : n.table[x]? = some slot) :
    x ∈ namesOn line := by
  rw [h.mem_iff, hx]
  rfl

/-- Slots with the same number belong to the same name. -/
theorem eq_of_id_eq (h : n.Tabulates line) (hx : n.table[x]? = some slot)
    (hy : n.table[y]? = some slot') (same : slot.id = slot'.id) : x = y := by
  rw [h.numbers x slot hx, h.numbers y slot' hy] at same
  exact (List.idxOf_inj (h.mem_of_getElem? hx)).mp same

theorem id_lt_nextSlot (h : n.Tabulates line) (hx : n.table[x]? = some slot) :
    slot.id < n.nextSlot := by
  rw [h.numbers x slot hx, h.next]
  exact List.idxOf_lt_length_of_mem (h.mem_of_getElem? hx)

/-- A node has a slot for each name of its parent, with the same number. -/
theorem exists_slot_of_parent {a : Ancestor} (hn : n.Tabulates (a :: line)) (hm : m.Tabulates line)
    (hx : m.table[x]? = some slot) : ∃ slot', n.table[x]? = some slot' ∧ slot'.id = slot.id := by
  have old := hm.mem_of_getElem? hx
  obtain ⟨new, split⟩ : namesOn line <+: namesOn (a :: line) := Ordered.prefix_union _ _
  have here : x ∈ namesOn (a :: line) := split ▸ List.mem_append_left new old
  obtain ⟨slot', hx'⟩ := Option.isSome_iff_exists.mp ((hn.mem_iff x).mp here)
  refine ⟨slot', hx', ?_⟩
  rw [hn.numbers x slot' hx', hm.numbers x slot hx, ← split, List.idxOf_append_of_mem old]

theorem nextSlot_le {a : Ancestor} (hn : n.Tabulates (a :: line)) (hm : m.Tabulates line) :
    m.nextSlot ≤ n.nextSlot := by
  rw [hn.next, hm.next]
  exact (Ordered.prefix_union _ _).length_le

end Node.Tabulates

/-- The parent of every node is written earlier. -/
theorem Compiles.parentPlace?_lt {texts : List WrittenModule} {library : Library}
    (h : Compiles texts library) {i j : Nat} {t : WrittenModule} {w : WrittenNode}
    (ht : texts[i]? = some t) (hw : t.nodes[j]? = some w) {place : Nat × Nat}
    (hp : w.parentPlace? i = some place) : place.1 < i ∨ place.1 = i ∧ place.2 < j := by
  induction h with
  | nothing => cases ht
  | @script texts library _ _ _ _ _ _ _ _ o _ before accepted imports ih =>
    have size : library.nextId = texts.length := (renders_of_compiles before).size
    rcases Nat.lt_or_ge i texts.length with old | new
    · rw [List.getElem?_append_left old] at ht
      exact ih ht
    · rw [List.getElem?_append_right new, List.getElem?_singleton] at ht
      obtain ⟨last, same⟩ := Option.ite_none_right_eq_some.mp ht
      cases same
      obtain ⟨d, -, hd⟩ := exists_of_rel_right ((follows_of_ofLines accepted).nodes j) hw
      have id : i = library.nextId := by omega
      subst id
      exact hd.parentPlace?_lt imports hp

namespace Program

variable (p : Program)

theorem lineage_of_parentPlace? {ref parent : NodeRef} {t : WrittenModule} {w : WrittenNode}
    (ht : p.texts[ref.module]? = some t) (hw : t.nodes[ref.index]? = some w)
    (hp : w.parentPlace? ref.module = some (parent.module, parent.index)) :
    p.lineage ref = ⟨ref.module, t.name, w⟩ :: p.lineage parent := by
  rw [lineage, lineage_of_parent ht hw fun place ↦ p.compiled.parentPlace?_lt ht hw, hp]
  rfl

/-- Attributes are kept apart. Modules have different numbers. In each node's table different names
have different numbers, all below the next one. Where the parent has a slot, the node has one with
the same number, whether the member is inherited or defined anew, and the next number of the parent
is no greater than that of the node. So two attributes are kept under one key only if they are the
same attribute of the same node. -/
theorem memo_keys_apart :
    (∀ id m, p.library.module? id = some m → m.id = id) ∧
    (∀ ref n, p.library.node? ref = some n →
      (∀ (x y : String) (slot slot' : Slot), n.table[x]? = some slot →
        n.table[y]? = some slot' → slot.id = slot'.id → x = y) ∧
      ∀ (x : String) (slot : Slot), n.table[x]? = some slot → slot.id < n.nextSlot) ∧
    (∀ ref n t w parent m, p.library.node? ref = some n → p.texts[ref.module]? = some t →
      t.nodes[ref.index]? = some w →
      w.parentPlace? ref.module = some (parent.module, parent.index) →
      p.library.node? parent = some m →
      m.nextSlot ≤ n.nextSlot ∧ ∀ (x : String) (slot : Slot), m.table[x]? = some slot →
        ∃ slot' : Slot, n.table[x]? = some slot' ∧ slot'.id = slot.id) ∧
    ∀ ref x slot ref' y slot', p.library.slot? ref x = some slot →
      p.library.slot? ref' y = some slot' →
      ((⟨ref.module, ref.index, slot.id⟩ : MemoKey) = ⟨ref'.module, ref'.index, slot'.id⟩ ↔
        ref.same ref' = true ∧ x = y) := by
  refine ⟨fun id m hm ↦ ?_, fun ref n hn ↦ ?_, fun ref n t w parent m hn ht hw hp hm ↦ ?_, ?_⟩
  · obtain ⟨bound, rfl⟩ := Array.getElem?_eq_some_iff.mp hm
    obtain ⟨t, -, rendered⟩ := p.rendered ⟨id, bound⟩
    exact rendered.id
  · have table := p.tabulates hn
    exact ⟨fun x y slot slot' ↦ table.eq_of_id_eq, fun x slot ↦ table.id_lt_nextSlot⟩
  · have table := p.tabulates hn
    rw [p.lineage_of_parentPlace? ht hw hp] at table
    exact ⟨table.nextSlot_le (p.tabulates hm),
      fun x slot ↦ table.exists_slot_of_parent (p.tabulates hm)⟩
  · intro ref x slot ref' y slot' hx hy
    obtain ⟨n, hn, hx⟩ := Option.bind_eq_some_iff.mp hx
    obtain ⟨n', hn', hy⟩ := Option.bind_eq_some_iff.mp hy
    rw [MemoKey.mk.injEq, NodeRef.same, Bool.and_eq_true, beq_iff_eq, beq_iff_eq, and_assoc]
    refine and_congr_right fun module ↦ and_congr_right fun index ↦ ?_
    have one : n = n' := by
      rw [Library.node?, module, index] at hn
      exact Option.some.inj (hn.symm.trans hn')
    subst one
    refine ⟨(p.tabulates hn).eq_of_id_eq hx hy, ?_⟩
    rintro rfl
    rw [Option.some.inj (hx.symm.trans hy)]

end Program

end Formulary
