import Formulary.Proofs.Members
import Formulary.Proofs.Written
import Mathlib.Data.List.Forall2
import Mathlib.Data.List.Induction

/-!
# Inheritance

The table of a compiled node holds, for every name, what the nearest node on its line of descent
defines: the node itself, its parent, the parent's parent and so on, wherever these are written
(`Program.tabulates`). Slots are numbered in the order in which names first come on that line, from
the oldest ancestor on.
-/

namespace Formulary

/-! ### Drafts and what they were made from -/

/-- A draft says what a written node says. `before` are the drafts before it and `imports` the
modules that are imported in the end. -/
structure Draft.Follows (before : List Draft) (imports : List (String × Module)) (d : Draft)
    (n : WrittenNode) : Prop where
  name : d.name = n.name
  parent : n.parent.mapM n.scope.resolveNode = .ok d.parent
  drafts : n.scope.drafts = before
  imports : ∀ e ∈ n.scope.imports, e ∈ imports
  members : List.Forall₂ (fun definition m ↦ definition.member = .ok m) n.definitions d.members
  distinct : (n.definitions.map Definition.name).Nodup
  visible : ∀ x, d.visible[x]? =
    ((d.members.find? fun m ↦ m.name == x).map Member.deps).or (n.scope.inherited d.parent)[x]?

/-- Every draft of a scope says what the node in its place says. -/
structure Scope.Follows (sc : Scope) (o : Outline) : Prop where
  closed : ∀ i, Option.Rel (Draft.Follows (sc.closed.take i) sc.imports) sc.closed[i]? o.closed[i]?
  current : Option.Rel (Draft.Follows sc.closed sc.imports) sc.current o.current

theorem Draft.Follows.mono {before : List Draft} {imports imports' : List (String × Module)}
    {d : Draft} {n : WrittenNode} (h : d.Follows before imports n)
    (hi : ∀ e ∈ imports, e ∈ imports') : d.Follows before imports' n :=
  { h with imports := fun e he ↦ hi e (h.imports e he) }

section

variable {α β : Type} {R S : α → β → Prop} {x : Option α} {y : Option β}

theorem rel_imp (hRS : ∀ a b, R a b → S a b) (h : Option.Rel R x y) : Option.Rel S x y := by
  cases h with
  | some h => exact .some (hRS _ _ h)
  | none => exact .none

theorem exists_of_rel_left (h : Option.Rel R x y) {a : α} (hx : x = some a) :
    ∃ b, y = some b ∧ R a b := by
  subst hx
  cases h with
  | some h => exact ⟨_, rfl, h⟩

theorem exists_of_rel_right (h : Option.Rel R x y) {b : β} (hy : y = some b) :
    ∃ a, x = some a ∧ R a b := by
  subst hy
  cases h with
  | some h => exact ⟨_, rfl, h⟩

/-- What is the same of things that belong together is the same list. -/
theorem map_eq_map_of_getElem? {γ : Type} {xs : List α} {ys : List β} {f : α → γ} {g : β → γ}
    {R : Nat → α → β → Prop} (h : ∀ i, Option.Rel (R i) xs[i]? ys[i]?)
    (same : ∀ i a b, R i a b → f a = g b) : xs.map f = ys.map g := by
  apply List.ext_getElem?
  intro i
  rw [List.getElem?_map, List.getElem?_map]
  have hi := h i
  generalize xs[i]? = x, ys[i]? = y at hi ⊢
  cases hi with
  | some hab => exact congrArg some (same i _ _ hab)
  | none => rfl

end

namespace Scope.Follows

variable {sc : Scope} {o : Outline}

theorem length (h : sc.Follows o) : sc.closed.length = o.closed.length := by
  rcases Nat.lt_trichotomy sc.closed.length o.closed.length with hl | hl | hl
  · have hr := h.closed sc.closed.length
    rw [List.getElem?_eq_none (Nat.le_refl _), List.getElem?_eq_getElem hl] at hr
    cases hr
  · exact hl
  · have hr := h.closed o.closed.length
    rw [List.getElem?_eq_none (Nat.le_refl o.closed.length), List.getElem?_eq_getElem hl] at hr
    cases hr

/-- The nodes that are closed and the one that is open, taken together. -/
theorem nodes (h : sc.Follows o) (i : Nat) :
    Option.Rel (Draft.Follows (sc.drafts.take i) sc.imports) sc.drafts[i]? o.nodes[i]? := by
  unfold drafts Outline.nodes
  rcases Nat.lt_trichotomy i sc.closed.length with hi | hi | hi
  · have ho : i < o.closed.length := by rw [← h.length]; exact hi
    rw [List.getElem?_append_left hi, List.getElem?_append_left ho,
      List.take_append_of_le_length (by omega)]
    exact h.closed i
  · subst hi
    rw [List.getElem?_append_right (Nat.le_refl _), h.length,
      List.getElem?_append_right (Nat.le_refl _), Nat.sub_self, ← h.length, List.take_left]
    have hc := h.current
    cases hs : sc.current <;> cases hn : o.current <;> rw [hs, hn] at hc
    · exact .none
    · cases hc
    · cases hc
    · exact hc
  · have hs : (sc.closed ++ sc.current.toList).length ≤ i := by
      cases sc.current <;> simp <;> omega
    have ho : (o.closed ++ o.current.toList).length ≤ i := by
      have hl := h.length
      cases o.current <;> simp <;> omega
    rw [List.getElem?_eq_none hs, List.getElem?_eq_none ho]
    exact .none

end Scope.Follows

theorem names_eq_of_members {definitions : List Definition} {members : List Member}
    (h : List.Forall₂ (fun definition m ↦ definition.member = .ok m) definitions members) :
    members.map Member.name = definitions.map Definition.name := by
  induction h with
  | nil => rfl
  | cons hm _ ih => rw [List.map_cons, List.map_cons, ih, Definition.name_of_member hm]

/-- A draft with one more member says what the node with one more definition says. -/
theorem Draft.Follows.define {before : List Draft} {imports : List (String × Module)}
    {draft : Draft} {n : WrittenNode} (h : draft.Follows before imports n) {d : Definition}
    {m : Member} (hm : d.member = .ok m)
    (new : (draft.members.any fun m ↦ m.name == d.name) = false) :
    Draft.Follows before imports
      { draft with
        visible := draft.visible.insert d.name m.deps
        members := draft.members ++ [m] }
      { n with definitions := n.definitions ++ [d] } := by
  have fresh : ∀ m' ∈ draft.members, m'.name ≠ d.name := by simpa using new
  refine ⟨h.name, h.parent, h.drafts, h.imports, ?_, ?_, ?_⟩
  · exact List.rel_append h.members (.cons hm .nil)
  · rw [List.map_append, List.nodup_append]
    refine ⟨h.distinct, by simp, ?_⟩
    intro x hx y hy
    rw [← names_eq_of_members h.members] at hx
    obtain ⟨m', hm', rfl⟩ := List.mem_map.mp hx
    obtain rfl : y = d.name := by simpa using hy
    exact fresh m' hm'
  · intro x
    rw [Std.HashMap.getElem?_insert, h.visible x, List.find?_append]
    by_cases hx : d.name = x
    · subst hx
      have none : (draft.members.find? fun m ↦ m.name == d.name) = none := by
        simpa using fresh
      simp [none, Definition.name_of_member hm]
    · have other : ([m].find? fun m ↦ m.name == x) = none := by
        simp [Definition.name_of_member hm, hx]
      simp [hx, other]

/-- An accepted line keeps scope and outline together. -/
theorem Scope.Takes.follows {sc sc' : Scope} {o : Outline} {line : Line} (h : sc.Takes line sc')
    (hf : sc.Follows o) : sc'.Follows (o.note sc line) := by
  cases h with
  | again hd known =>
    simpa [Outline.note, Line.definition?, hd] using hf
  | imports m hd new =>
    rw [Outline.note]
    simp only [hd, Line.definition?]
    refine ⟨?_, ?_⟩
    · intro i
      exact rel_imp (fun d n hdn ↦ hdn.mono fun e he ↦ Ordered.mem_put_of_mem new he) (hf.closed i)
    · exact rel_imp (fun d n hdn ↦ hdn.mono fun e he ↦ Ordered.mem_put_of_mem new he) hf.current
  | node hd new hp =>
    rw [Outline.note]
    simp only [hd]
    refine ⟨hf.nodes, .some ?_⟩
    exact ⟨rfl, hp, rfl, fun e he ↦ he, .nil, List.nodup_nil, fun x ↦ by simp⟩
  | @member d draft m hd hc hm new acyclic =>
    have hn : o.note sc line =
        { o with current := o.current.map fun n ↦
          { n with definitions := n.definitions ++ [d] } } := by
      unfold Outline.note
      split
      · next hnode => simp [Line.definition?, hnode] at hd
      · rw [hd]
    rw [hn]
    refine ⟨hf.closed, ?_⟩
    obtain ⟨n, ho, hdn⟩ := exists_of_rel_left hf.current hc
    rw [ho]
    exact .some (hdn.define hm new)

/-- The drafts of an accepted script say what the script says. -/
theorem follows_of_ofLines {ρ : Type} {module : String} {classes : List ClassSignature}
    {load : String → Loading ρ Module} {lines : List Line} {sc : Scope} {o : Outline} {r r' : ρ}
    (h : (Outline.ofLines module classes load lines).run.run r = (.ok (sc, o), r')) :
    sc.Follows o := by
  refine Outline.ofLines_induction h ⟨fun i ↦ .none, .none⟩ ?_
  intro sc o line sc' taken hf
  exact taken.follows hf

/-! ### Lines of descent -/

/-- A node on a line of descent, and the module that it is written in. -/
structure Ancestor where
  home : Nat
  homeName : String
  node : WrittenNode

/-- A definition, and the module that it is written in. -/
structure Located where
  home : Nat
  homeName : String
  definition : Definition

/-- The numbers of module and node of the parent of a node that is written in the given module. -/
def WrittenNode.parentPlace? (n : WrittenNode) (module : Nat) : Option (Nat × Nat) :=
  match n.target? with
  | some (.own index _) => some (module, index)
  | some (.imported ref) => some (ref.module, ref.index)
  | none => none

/-- A node, its parent, the parent's parent and so on. A parent is written before its children. -/
def lineage (texts : List WrittenModule) (module index : Nat) : List Ancestor :=
  match texts[module]? with
  | none => []
  | some m =>
    match m.nodes[index]? with
    | none => []
    | some n =>
      ⟨module, m.name, n⟩ ::
        match n.parentPlace? module with
        | none => []
        | some place =>
          if place.1 < module ∨ place.1 = module ∧ place.2 < index then
            lineage texts place.1 place.2
          else []
termination_by (module, index)
decreasing_by
  rename_i h
  rcases h with h | ⟨h, hi⟩
  · exact Prod.Lex.left _ _ h
  · rw [h]
    exact Prod.Lex.right _ hi

/-- If the parent of a node is written earlier, its line of descent goes on from the node. -/
theorem lineage_of_parent {texts : List WrittenModule} {module index : Nat} {t : WrittenModule}
    {w : WrittenNode} (ht : texts[module]? = some t) (hw : t.nodes[index]? = some w)
    (earlier : ∀ place, w.parentPlace? module = some place →
      place.1 < module ∨ place.1 = module ∧ place.2 < index) :
    lineage texts module index = ⟨module, t.name, w⟩ ::
      ((w.parentPlace? module).map fun place ↦ lineage texts place.1 place.2).getD [] := by
  rw [lineage, ht]
  simp only [hw]
  congr 1
  cases hp : w.parentPlace? module with
  | none => rfl
  | some place => exact if_pos (earlier place hp)

/-- What the nearest node on a line of descent defines a name to be. -/
def definition? (x : String) : List Ancestor → Option Located
  | [] => none
  | a :: line =>
    match a.node.own? x with
    | some d => some ⟨a.home, a.homeName, d⟩
    | none => definition? x line

theorem name_of_definition? {x : String} {line : List Ancestor} {l : Located}
    (h : definition? x line = some l) : l.definition.name = x := by
  induction line with
  | nil => cases h
  | cons a line ih =>
    rw [definition?] at h
    split at h
    · next d found =>
      cases h
      simpa using List.find?_some found
    · exact ih h

/-- Every name that is defined on a line of descent, in the order of their first definitions from
the oldest ancestor on. -/
def namesOn : List Ancestor → List String
  | [] => []
  | a :: line => Ordered.union (namesOn line) (a.node.definitions.map Definition.name)

/-- Every name that is declared as a parameter on a line of descent, in the same order. -/
def paramsOn : List Ancestor → List String
  | [] => []
  | a :: line => Ordered.union (paramsOn line) a.node.paramNames

/-- A module's own lines of descent do not depend on the modules after it. -/
theorem lineage_append (texts more : List WrittenModule) (module index : Nat)
    (h : module < texts.length) :
    lineage (texts ++ more) module index = lineage texts module index := by
  fun_induction lineage texts module index with
  | case1 module index hm => rw [List.getElem?_eq_getElem h] at hm; cases hm
  | case2 module index m hm hn =>
    rw [lineage, List.getElem?_append_left h, hm]
    simp only [hn]
  | case3 module index m hm n hn ih =>
    rw [lineage, List.getElem?_append_left h, hm]
    simp only [hn]
    congr 1
    split
    · rfl
    · next place _ =>
      split
      · next earlier => exact ih place earlier (by omega)
      · rfl

/-- The names on a line of descent are those that have a definition there. -/
theorem mem_namesOn_iff (line : List Ancestor) (x : String) :
    x ∈ namesOn line ↔ (definition? x line).isSome := by
  induction line with
  | nil => simp [namesOn, definition?]
  | cons a line ih =>
    rw [namesOn, Ordered.mem_union_iff, ih, definition?]
    cases hd : a.node.own? x with
    | some d =>
      have hm := List.mem_of_find?_eq_some hd
      have hx : d.name = x := by simpa using List.find?_some hd
      simp only [Option.isSome_some, iff_true]
      exact Or.inr (hx ▸ List.mem_map_of_mem hm)
    | none =>
      have hn : x ∉ a.node.definitions.map Definition.name := by
        intro hx
        obtain ⟨d, hd', hx⟩ := List.mem_map.mp hx
        have := List.find?_eq_none.mp hd d hd'
        simp [hx] at this
      simp [hn]

/-- The parameters on a line of descent are those that some node on it declares. -/
theorem mem_paramsOn_iff (line : List Ancestor) (x : String) :
    x ∈ paramsOn line ↔ ∃ a ∈ line, x ∈ a.node.paramNames := by
  induction line with
  | nil => simp [paramsOn]
  | cons a line ih =>
    rw [paramsOn, Ordered.mem_union_iff, ih, or_comm]
    simp only [List.mem_cons, exists_eq_or_imp]

theorem nodup_paramsOn (line : List Ancestor) : (paramsOn line).Nodup := by
  induction line with
  | nil => exact List.nodup_nil
  | cons a line ih => exact Ordered.nodup_union ih

/-! ### Tables -/

/-- A slot holds the member that a definition is compiled to, and knows where it is written. -/
structure Slot.Holds (slot : Slot) (l : Located) : Prop where
  home : slot.home = l.home
  homeName : slot.homeName = l.homeName
  member : l.definition.member = .ok slot.member

theorem Library.node?_push_nextId (l : Library) (m : Module) (i : Nat) (moduleName name : String) :
    (l.push m).node? ⟨l.nextId, i, moduleName, name⟩ = m.nodes[i]? := by
  have found : (l.push m).module? l.nextId = some m := Array.getElem?_push_size
  rw [Library.node?, found]
  rfl

/-- A new member takes over the number of the one that it replaces, or gets the next one. -/
theorem Node.getElem?_table_define (n : Node) (home : Nat) (homeName : String) (m : Member)
    (x : String) :
    (n.define home homeName m).table[x]? =
      if m.name = x then
        some ⟨(n.table[m.name]?.map Slot.id).getD n.nextSlot, home, homeName, m⟩
      else n.table[x]? := by
  cases ho : n.table[m.name]? with
  | some old | none => simp [Node.define, Std.HashMap.getElem?_insert, ho]

theorem Node.nextSlot_define (n : Node) (home : Nat) (homeName : String) (m : Member) :
    (n.define home homeName m).nextSlot =
      if n.table[m.name]?.isSome then n.nextSlot else n.nextSlot + 1 := by
  cases ho : n.table[m.name]? with
  | some old | none => simp [Node.define, ho]

/-- Only a parameter adds to the declared parameters. -/
theorem Node.params_define (n : Node) (home : Nat) (homeName : String) (m : Member) :
    (n.define home homeName m).params =
      if m.body.isParam then Ordered.add m.name n.params else n.params := by
  cases ho : n.table[m.name]? with
  | some old | none => simp [Node.define, ho]

/-- A node type's table is what a line of descent defines, numbered in order, and its parameters are
those that are declared there. -/
structure Node.Tabulates (n : Node) (line : List Ancestor) : Prop where
  slots : ∀ x, Option.Rel (fun l slot ↦ Slot.Holds slot l) (definition? x line) n.table[x]?
  numbers : ∀ x slot, n.table[x]? = some slot → slot.id = (namesOn line).idxOf x
  next : n.nextSlot = (namesOn line).length
  params : n.params = paramsOn line

namespace Node.Tabulates

variable {n : Node} {line : List Ancestor}

theorem mem_iff (h : n.Tabulates line) (x : String) : x ∈ namesOn line ↔ n.table[x]?.isSome := by
  rw [mem_namesOn_iff]
  have hr := h.slots x
  cases hd : definition? x line <;> cases ht : n.table[x]? <;> rw [hd, ht] at hr
  · simp
  · cases hr
  · cases hr
  · simp

/-- A node without definitions of its own has the table of its parent. -/
theorem inherit (h : n.Tabulates line) (home : Nat) (homeName : String) (w : WrittenNode)
    (hw : w.definitions = []) : n.Tabulates (⟨home, homeName, w⟩ :: line) := by
  have hd (x : String) : definition? x (⟨home, homeName, w⟩ :: line) = definition? x line := by
    simp [definition?, WrittenNode.own?, hw]
  have hn : namesOn (⟨home, homeName, w⟩ :: line) = namesOn line := by
    simp [namesOn, hw, Ordered.union]
  have hp : paramsOn (⟨home, homeName, w⟩ :: line) = paramsOn line := by
    simp [paramsOn, WrittenNode.paramNames, hw, Ordered.union]
  refine ⟨fun x ↦ ?_, ?_, ?_, ?_⟩
  · rw [hd]
    exact h.slots x
  · rw [hn]
    exact h.numbers
  · rw [hn]
    exact h.next
  · rw [hp]
    exact h.params

/-- A new definition takes a slot: the one of the member it replaces, or a new one. -/
theorem define {home : Nat} {homeName : String} {w : WrittenNode}
    (h : n.Tabulates (⟨home, homeName, w⟩ :: line)) {d : Definition} {m : Member}
    (hm : d.member = .ok m) (new : d.name ∉ w.definitions.map Definition.name) :
    (n.define home homeName m).Tabulates
      (⟨home, homeName, { w with definitions := w.definitions ++ [d] }⟩ :: line) := by
  have hname := Definition.name_of_member hm
  have names : namesOn (⟨home, homeName, { w with definitions := w.definitions ++ [d] }⟩ :: line) =
      Ordered.add d.name (namesOn (⟨home, homeName, w⟩ :: line)) := by
    simp [namesOn, Ordered.union, List.foldl_append]
  have known : Ordered.has d.name (namesOn (⟨home, homeName, w⟩ :: line)) =
      n.table[d.name]?.isSome := by
    rw [Bool.eq_iff_iff, ← h.mem_iff]
    simp [Ordered.has]
  refine ⟨fun x ↦ ?_, fun x slot hs ↦ ?_, ?_, ?_⟩
  · rw [Node.getElem?_table_define, hname]
    by_cases hx : d.name = x
    · subst hx
      have none : w.own? d.name = none := by
        rw [WrittenNode.own?, List.find?_eq_none]
        intro d' hd' he
        exact new (beq_iff_eq.mp he ▸ List.mem_map_of_mem hd')
      have found : definition? d.name (⟨home, homeName,
          { w with definitions := w.definitions ++ [d] }⟩ :: line) =
            some ⟨home, homeName, d⟩ := by
        rw [WrittenNode.own?] at none
        simp [definition?, WrittenNode.own?, List.find?_append, none]
      rw [found, if_pos rfl]
      exact .some ⟨rfl, rfl, hm⟩
    · have same : definition? x (⟨home, homeName,
          { w with definitions := w.definitions ++ [d] }⟩ :: line) =
            definition? x (⟨home, homeName, w⟩ :: line) := by
        simp [definition?, WrittenNode.own?, List.find?_append, hx]
      rw [same, if_neg hx]
      exact h.slots x
  · rw [Node.getElem?_table_define, hname] at hs
    rw [names]
    unfold Ordered.add
    rw [known]
    by_cases hx : d.name = x
    · subst hx
      rw [if_pos rfl] at hs
      cases hs
      cases ht : n.table[d.name]? with
      | some old => simpa using h.numbers d.name old ht
      | none =>
        have absent : d.name ∉ namesOn (⟨home, homeName, w⟩ :: line) := by
          rw [h.mem_iff, ht]
          simp
        simp [List.idxOf_append, absent, h.next]
    · rw [if_neg hx] at hs
      have present : x ∈ namesOn (⟨home, homeName, w⟩ :: line) := by
        rw [h.mem_iff, hs]
        rfl
      split
      · exact h.numbers x slot hs
      · rw [List.idxOf_append, if_pos present]
        exact h.numbers x slot hs
  · rw [Node.nextSlot_define, hname, names]
    unfold Ordered.add
    rw [known]
    split
    · exact h.next
    · rw [List.length_append, h.next]
      rfl
  · rw [Node.params_define, hname, Definition.isParam_of_member hm, h.params]
    cases hd : d.wording.isParam with
    | true => simp [paramsOn, WrittenNode.paramNames, Ordered.union, hd]
    | false => simp [paramsOn, WrittenNode.paramNames, hd]

end Node.Tabulates

/-- The definitions of a node, one after the other, take their slots. -/
theorem tabulates_foldl_define {home : Nat} {homeName : String} {line : List Ancestor}
    {definitions : List Definition} {members : List Member}
    (hm : List.Forall₂ (fun definition m ↦ definition.member = .ok m) definitions members)
    {n : Node} {w : WrittenNode} (h : n.Tabulates (⟨home, homeName, w⟩ :: line))
    (distinct : ((w.definitions ++ definitions).map Definition.name).Nodup) :
    (members.foldl (fun n m ↦ n.define home homeName m) n).Tabulates
      (⟨home, homeName, { w with definitions := w.definitions ++ definitions }⟩ :: line) := by
  induction hm generalizing n w with
  | nil => simpa using h
  | @cons d m definitions members hd _ ih =>
    have new : d.name ∉ w.definitions.map Definition.name := by
      intro hx
      rw [List.map_append, List.nodup_append] at distinct
      exact distinct.2.2 d.name hx d.name (by simp) rfl
    have next := ih (h.define hd new) (by simpa using distinct)
    simpa using next

theorem tabulates_nil (name : String) : Node.Tabulates { name } [] :=
  ⟨fun x ↦ by simp [definition?], fun x slot hs ↦ by simp at hs, rfl, rfl⟩

theorem Node.Tabulates.rename {n : Node} {line : List Ancestor} (h : n.Tabulates line)
    (name : String) : Node.Tabulates { n with name } line :=
  ⟨h.slots, h.numbers, h.next, h.params⟩

/-- A node as it was drafted has the table that its line of descent makes, if its parent has. -/
theorem tabulates_toNode {d : Draft} {w : WrittenNode} {before : List Draft}
    {imports : List (String × Module)} (h : d.Follows before imports w) {library : Library}
    {id : Nat} {module : String} {nodes : Array Node} {line : List Ancestor}
    (base : (d.base library nodes).Tabulates line) :
    (d.toNode library id module nodes).Tabulates (⟨id, module, w⟩ :: line) := by
  have start := base.inherit id module { w with definitions := [] } rfl
  exact tabulates_foldl_define h.members start (by simpa using h.distinct)

theorem name_toNode (d : Draft) (library : Library) (id : Nat) (module : String)
    (nodes : Array Node) : (d.toNode library id module nodes).name = d.name := by
  have kept (n : Node) (m : Member) : (n.define id module m).name = n.name := by
    cases ho : n.table[m.name]? with
    | some old | none => simp [Node.define, ho]
  have folded (members : List Member) (n : Node) :
      (members.foldl (fun n m ↦ n.define id module m) n).name = n.name := by
    induction members generalizing n with
    | nil => rfl
    | cons m members ih => rw [List.foldl_cons, ih, kept]
  rw [Draft.toNode, folded, Draft.base]
  split <;> rfl

/-! ### Parents -/

/-- A node that is found by its path is an earlier one of the same module or one of an imported
module. -/
theorem Scope.resolveNode_cases {sc : Scope} {path : NodePath} {target : NodeTarget}
    (h : sc.resolveNode path = .ok target) :
    (∃ index name, target = .own index name ∧ index < sc.drafts.length) ∨
      ∃ e ∈ sc.imports, ∃ ref, target = .imported ref ∧ e.2.node? path.name = some ref := by
  unfold resolveNode at h
  split at h
  · split at h
    · next own ho =>
      cases h
      unfold ownNode? at ho
      obtain ⟨index, hi, rfl⟩ := Option.map_eq_some_iff.mp ho
      exact Or.inl ⟨index, path.name, rfl, (List.findIdx?_eq_some_iff_getElem.mp hi).1⟩
    · cases h
  · split at h
    · cases h
    · next m hm =>
      split at h
      · next ref hr =>
        cases h
        obtain ⟨e, he, rfl⟩ := Ordered.mem_of_get?_eq_some hm
        exact Or.inr ⟨e, he, ref, rfl, hr⟩
      · cases h

/-- A node found by name is at its place in the module. -/
theorem Module.node?_eq_some {m : Module} {name : String} {ref : NodeRef}
    (h : m.node? name = some ref) :
    ref.module = m.id ∧ ref.moduleName = m.name ∧ ref.name = name ∧
      ∃ n, m.nodes[ref.index]? = some n ∧ n.name = name := by
  unfold Module.node? at h
  obtain ⟨index, hi, rfl⟩ := Option.map_eq_some_iff.mp h
  obtain ⟨hlt, hn, -⟩ := Array.findIdx?_eq_some_iff_getElem.mp hi
  exact ⟨rfl, rfl, rfl, m.nodes[index], Array.getElem?_eq_getElem hlt, beq_iff_eq.mp hn⟩

/-- The parent of a draft is the node that the written node inherits from. -/
theorem Draft.Follows.target {before : List Draft} {imports : List (String × Module)} {d : Draft}
    {n : WrittenNode} (h : d.Follows before imports n) : n.target? = d.parent := by
  have hp := h.parent
  unfold WrittenNode.target?
  cases hn : n.parent with
  | none =>
    have none : Except.ok none = (Except.ok d.parent : Except Problem _) := by rw [← hp, hn]; rfl
    exact Except.ok.inj none
  | some path =>
    rw [hn, Option.mapM_some] at hp
    rw [Option.bind_some]
    cases ht : n.scope.resolveNode path with
    | error problem => rw [ht] at hp; cases hp
    | ok target => rw [ht] at hp; exact Except.ok.inj hp

/-- The parent of a draft was found by a path. -/
theorem Draft.Follows.resolved {before : List Draft} {imports : List (String × Module)} {d : Draft}
    {n : WrittenNode} (h : d.Follows before imports n) {target : NodeTarget}
    (hparent : d.parent = some target) : ∃ path, n.scope.resolveNode path = .ok target := by
  have hp := h.parent
  rw [hparent] at hp
  cases hpath : n.parent with
  | none => rw [hpath] at hp; cases hp
  | some path =>
    refine ⟨path, ?_⟩
    rw [hpath, Option.mapM_some] at hp
    cases hr : n.scope.resolveNode path with
    | error problem => rw [hr] at hp; cases hp
    | ok t => rw [hr] at hp; cases hp; rfl

/-- The parent of a draft is a draft before it, or a node of a module that is imported there. -/
theorem Draft.Follows.parent_cases {before : List Draft} {imports : List (String × Module)}
    {d : Draft} {n : WrittenNode} (h : d.Follows before imports n) {target : NodeTarget}
    (hparent : d.parent = some target) :
    (∃ index name, target = .own index name ∧ index < before.length) ∨
      ∃ e ∈ n.scope.imports, ∃ ref m, target = .imported ref ∧ ref.module = e.2.id ∧
        e.2.nodes[ref.index]? = some m := by
  obtain ⟨path, hpath⟩ := h.resolved hparent
  rcases Scope.resolveNode_cases hpath with own | ⟨e, he, ref, rfl, href⟩
  · rw [h.drafts] at own
    exact .inl own
  · obtain ⟨id, -, -, m, hm, -⟩ := Module.node?_eq_some href
    exact .inr ⟨e, he, ref, m, rfl, id, hm⟩

/-! ### Modules -/

/-- A compiled node is called as it is written, and has the table of its line of descent. -/
structure Node.Renders (texts : List WrittenModule) (module index : Nat) (n : Node)
    (w : WrittenNode) : Prop where
  name : n.name = w.name
  table : n.Tabulates (lineage texts module index)

/-- A compiled module has the nodes that are written, in their places. -/
structure Module.Renders (texts : List WrittenModule) (i : Nat) (m : Module)
    (t : WrittenModule) : Prop where
  id : m.id = i
  name : m.name = t.name
  nodes : ∀ j, Option.Rel (Node.Renders texts i j) m.nodes[j]? t.nodes[j]?

/-- A library has the modules that are written, in their places. -/
def Library.Renders (library : Library) (texts : List WrittenModule) : Prop :=
  ∀ i, Option.Rel (Module.Renders texts i) library.modules[i]? texts[i]?

theorem Library.Renders.size {library : Library} {texts : List WrittenModule}
    (h : library.Renders texts) : library.modules.size = texts.length := by
  rcases Nat.lt_trichotomy library.modules.size texts.length with hl | hl | hl
  · have hr := h library.modules.size
    rw [Array.getElem?_eq_none (Nat.le_refl _), List.getElem?_eq_getElem hl] at hr
    cases hr
  · exact hl
  · have hr := h texts.length
    rw [List.getElem?_eq_none (Nat.le_refl _), Array.getElem?_eq_getElem hl] at hr
    cases hr

/-- What holds of each node of a script, if it holds of those before it, holds of all nodes of the
compiled module. -/
theorem toModule_induction {P : Nat → Node → Prop} (sc : Scope) (library : Library) (name : String)
    (whitelist : Option Whitelist)
    (step : ∀ k d nodes, sc.drafts[k]? = some d → (∀ j < k, ∃ n, nodes[j]? = some n ∧ P j n) →
      P k (d.toNode library library.nextId name nodes)) :
    (sc.toModule library name whitelist).nodes.size = sc.drafts.length ∧
      ∀ j < sc.drafts.length, ∃ n,
        (sc.toModule library name whitelist).nodes[j]? = some n ∧ P j n := by
  simp only [Scope.toModule]
  generalize sc.drafts = drafts at step ⊢
  induction drafts using List.reverseRecOn with
  | nil => exact ⟨rfl, fun j hj ↦ absurd hj (Nat.not_lt_zero j)⟩
  | append_singleton drafts d ih =>
    obtain ⟨size, earlier⟩ := ih fun k d' nodes hd ↦
      step k d' nodes (by rw [List.getElem?_append_left (List.getElem?_eq_some_iff.mp hd).1, hd])
    rw [List.foldl_append]
    generalize drafts.foldl (fun nodes d ↦
      nodes.push (d.toNode library library.nextId name nodes)) #[] = nodes at size earlier ⊢
    simp only [List.foldl_cons, List.foldl_nil, List.length_append, List.length_singleton]
    refine ⟨by rw [Array.size_push, size], fun j hj ↦ ?_⟩
    rcases Nat.lt_or_eq_of_le (Nat.le_of_lt_succ hj) with hlt | rfl
    · obtain ⟨n, hn, hP⟩ := earlier j hlt
      refine ⟨n, ?_, hP⟩
      rw [Array.getElem?_push_lt (by omega), ← hn, Array.getElem?_eq_getElem (by omega)]
    · refine ⟨_, by rw [← size, Array.getElem?_push_size], ?_⟩
      exact step _ d nodes (by simp) earlier

section

variable {texts : List WrittenModule} {library : Library} {sc : Scope} {o : Outline}
  (name : String)

/-- The parent of a node of the script that is compiled is written earlier. -/
theorem Draft.Follows.parentPlace?_lt {k : Nat} {d : Draft} {w : WrittenNode}
    (hd : d.Follows (sc.drafts.take k) sc.imports w)
    (imports : sc.ImportsFrom library) {place : Nat × Nat}
    (hp : w.parentPlace? library.nextId = some place) :
    place.1 < library.nextId ∨ place.1 = library.nextId ∧ place.2 < k := by
  unfold WrittenNode.parentPlace? at hp
  rw [hd.target] at hp
  cases hparent : d.parent with
  | none => rw [hparent] at hp; cases hp
  | some target =>
    rw [hparent] at hp
    rcases hd.parent_cases hparent with ⟨j, own, rfl, hj⟩ | ⟨e, he, ref, n, rfl, hm, hn⟩
    · cases hp
      rw [List.length_take] at hj
      exact .inr ⟨rfl, by omega⟩
    · cases hp
      have found := imports e (hd.imports e he)
      rw [← hm] at found
      exact .inl (Array.getElem?_eq_some_iff.mp found).1

/-- A node of the script that is compiled comes before its parent's line of descent. -/
theorem lineage_eq_cons (rendered : library.Renders texts) {k : Nat} {d : Draft} {w : WrittenNode}
    (hd : d.Follows (sc.drafts.take k) sc.imports w) (hw : o.nodes[k]? = some w)
    (imports : sc.ImportsFrom library) :
    lineage (texts ++ [⟨name, o.nodes⟩]) library.nextId k =
      ⟨library.nextId, name, w⟩ :: ((w.parentPlace? library.nextId).map fun place ↦
        lineage (texts ++ [⟨name, o.nodes⟩]) place.1 place.2).getD [] := by
  have id : library.nextId = texts.length := rendered.size
  have text : (texts ++ [⟨name, o.nodes⟩])[library.nextId]? = some ⟨name, o.nodes⟩ := by
    rw [id, List.getElem?_append_right (Nat.le_refl _), Nat.sub_self]
    rfl
  exact lineage_of_parent text hw fun place hp ↦ hd.parentPlace?_lt imports hp

/-- The parent of a draft is in its place and has its table, so the draft starts from that. -/
theorem base_tabulates (rendered : library.Renders texts) {k : Nat} {nodes : Array Node}
    {d : Draft} {w : WrittenNode} (hd : d.Follows (sc.drafts.take k) sc.imports w)
    (hw : o.nodes[k]? = some w) (imports : sc.ImportsFrom library)
    (earlier : ∀ j < k, ∃ n, nodes[j]? = some n ∧
      n.Tabulates (lineage (texts ++ [⟨name, o.nodes⟩]) library.nextId j)) :
    ∃ line, lineage (texts ++ [⟨name, o.nodes⟩]) library.nextId k =
        ⟨library.nextId, name, w⟩ :: line ∧
      (d.base library nodes).Tabulates line := by
  refine ⟨_, lineage_eq_cons name rendered hd hw imports, ?_⟩
  unfold Draft.base WrittenNode.parentPlace?
  rw [hd.target]
  cases hparent : d.parent with
  | none => exact tabulates_nil d.name
  | some target =>
    rcases hd.parent_cases hparent with ⟨j, own, rfl, hj⟩ | ⟨e, he, ref, n, rfl, hm, hn⟩
    · have hjk : j < k := by
        rw [List.length_take] at hj
        omega
      obtain ⟨n, hn, table⟩ := earlier j hjk
      simp only [hn, Option.map_some, Option.getD_some]
      exact table.rename d.name
    · have found := imports e (hd.imports e he)
      rw [← hm] at found
      have hlt : ref.module < texts.length := by
        rw [← rendered.size]
        exact (Array.getElem?_eq_some_iff.mp found).1
      have node : library.node? ref = some n := by
        rw [Library.node?, found]
        exact hn
      simp only [node, Option.map_some, Option.getD_some, lineage_append _ _ _ _ hlt]
      obtain ⟨t, ht, hr⟩ := exists_of_rel_left (rendered ref.module) found
      obtain ⟨w', -, hnode⟩ := exists_of_rel_left (hr.nodes ref.index) hn
      exact hnode.table.rename d.name

/-- The nodes of a compiled script have their tables. -/
theorem renders_nodes (rendered : library.Renders texts) (hf : sc.Follows o)
    (imports : sc.ImportsFrom library) (whitelist : Option Whitelist) :
    (sc.toModule library name whitelist).nodes.size = sc.drafts.length ∧
      ∀ j < sc.drafts.length, ∃ n, (sc.toModule library name whitelist).nodes[j]? = some n ∧
        ∃ w, o.nodes[j]? = some w ∧
          n.Renders (texts ++ [⟨name, o.nodes⟩]) library.nextId j w := by
  refine toModule_induction sc library name whitelist fun k d nodes hd earlier ↦ ?_
  obtain ⟨w, hw, hdw⟩ := exists_of_rel_left (hf.nodes k) hd
  obtain ⟨line, hline, base⟩ := base_tabulates name rendered hdw hw imports fun j hj ↦ by
    obtain ⟨n, hn, _, _, hr⟩ := earlier j hj
    exact ⟨n, hn, hr.table⟩
  refine ⟨w, hw, by rw [name_toNode, hdw.name], ?_⟩
  rw [hline]
  exact tabulates_toNode hdw base

/-- Compiling one more script renders it, and keeps the modules before it. -/
theorem renders_push (rendered : library.Renders texts) (hf : sc.Follows o)
    (imports : sc.ImportsFrom library) (whitelist : Option Whitelist) :
    (library.push (sc.toModule library name whitelist)).Renders
      (texts ++ [⟨name, o.nodes⟩]) := by
  intro i
  have hsize := rendered.size
  simp only [Library.push]
  rcases Nat.lt_trichotomy i texts.length with hi | hi | hi
  · rw [Array.getElem?_push_lt (by omega), List.getElem?_append_left hi,
      ← Array.getElem?_eq_getElem (by omega)]
    refine rel_imp (fun m t hr ↦ ⟨hr.id, hr.name, fun j ↦ ?_⟩) (rendered i)
    refine rel_imp (fun n w hn ↦ ⟨hn.name, ?_⟩) (hr.nodes j)
    rw [lineage_append _ _ _ _ hi]
    exact hn.table
  · subst hi
    rw [← hsize, Array.getElem?_push_size, hsize, List.getElem?_append_right (Nat.le_refl _),
      Nat.sub_self]
    refine .some ⟨hsize, rfl, fun j ↦ ?_⟩
    obtain ⟨size, compiled⟩ := renders_nodes name rendered hf imports whitelist
    have id : library.nextId = texts.length := hsize
    by_cases hj : j < sc.drafts.length
    · obtain ⟨n, hn, w, hw, hr⟩ := compiled j hj
      rw [id] at hr
      rw [hn, hw]
      exact .some hr
    · have none : o.nodes[j]? = none := by
        have hr := hf.nodes j
        rw [List.getElem?_eq_none (by omega)] at hr
        cases ho : o.nodes[j]? with
        | none => rfl
        | some w => rw [ho] at hr; cases hr
      rw [none, Array.getElem?_eq_none (by omega)]
      exact .none
  · rw [Array.getElem?_eq_none (by simp; omega), List.getElem?_eq_none (by simp; omega)]
    exact .none

end

theorem renders_of_compiles {texts : List WrittenModule} {library : Library}
    (h : Compiles texts library) : library.Renders texts := by
  induction h with
  | nothing => exact fun i ↦ .none
  | script whitelist _ accepted imports ih =>
    exact renders_push _ ih (follows_of_ofLines accepted) imports whitelist

namespace Program

/-- The line of descent of a node. -/
def lineage (p : Program) (ref : NodeRef) : List Ancestor :=
  Formulary.lineage p.texts ref.module ref.index

/-- A compiled node has the table of its line of descent. -/
theorem tabulates (p : Program) {ref : NodeRef} {n : Node} (h : p.library.node? ref = some n) :
    n.Tabulates (p.lineage ref) := by
  unfold Library.node? at h
  obtain ⟨m, hm, hn⟩ := Option.bind_eq_some_iff.mp h
  obtain ⟨t, -, hr⟩ := exists_of_rel_left (renders_of_compiles p.compiled ref.module) hm
  obtain ⟨w, -, hnode⟩ := exists_of_rel_left (hr.nodes ref.index) hn
  exact hnode.table

/-- A node that was not compiled has no line of descent. -/
theorem lineage_of_node?_eq_none (p : Program) {ref : NodeRef} (h : p.library.node? ref = none) :
    p.lineage ref = [] := by
  have rendered := renders_of_compiles p.compiled ref.module
  rw [lineage, Formulary.lineage]
  split
  · rfl
  · next t ht =>
    obtain ⟨m, hm, hr⟩ := exists_of_rel_right rendered ht
    split
    · rfl
    · next w hw =>
      obtain ⟨n, hn, -⟩ := exists_of_rel_right (hr.nodes ref.index) hw
      rw [Library.node?, Library.module?, hm, Option.bind_some, hn] at h
      cases h

/-- Looking a member up finds what the nearest node on the line of descent defines. -/
theorem slot?_rel (p : Program) (ref : NodeRef) (x : String) :
    Option.Rel (fun l slot ↦ Slot.Holds slot l) (definition? x (p.lineage ref))
      (p.library.slot? ref x) := by
  unfold Library.slot?
  cases hn : p.library.node? ref with
  | none => rw [p.lineage_of_node?_eq_none hn]; exact .none
  | some n => exact (p.tabulates hn).slots x

/-- The number of a slot is the place of its name on the line of descent. -/
theorem slot?_id (p : Program) {ref : NodeRef} {x : String} {slot : Slot}
    (h : p.library.slot? ref x = some slot) : slot.id = (namesOn (p.lineage ref)).idxOf x := by
  obtain ⟨n, hn, hs⟩ := Option.bind_eq_some_iff.mp h
  exact (p.tabulates hn).numbers x slot hs

end Program

end Formulary
