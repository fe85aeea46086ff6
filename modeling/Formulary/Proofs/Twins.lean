import Formulary.Proofs.Faces
import Formulary.Proofs.Renumbering

/-!
# Twin modules

Two compiled modules are twins if they are the same up to the numbers of modules. Scripts that are
taken line by line, each with twins in place of the other's imports, lead to scopes that are alike
(`Scope.TakesAll.alike`) and so to twins (`Scope.Alike.toModule`). So what two registries with the
same scripts keep under one name are twins (`Registry.Coherent.twin`).
-/

namespace Formulary

/-- The same node type, up to the numbers of modules. -/
structure Node.Twin (f : Nat → Nat) (n n' : Node) : Prop where
  name : n'.name = n.name
  nextSlot : n'.nextSlot = n.nextSlot
  params : n'.params = n.params
  table : ∀ x : String, n'.table[x]? = n.table[x]?.map (Slot.renumber f)

/-- The same module, up to the numbers of modules. -/
structure Module.Twin (f : Nat → Nat) (m m' : Module) : Prop where
  id : m'.id = f m.id
  name : m'.name = m.name
  imports : m'.imports = m.imports.map f
  params : m'.params = m.params
  whitelist : m'.whitelist = m.whitelist
  nodes : List.Forall₂ (Node.Twin f) m.nodes.toList m'.nodes.toList

namespace Module.Twin

variable {f : Nat → Nat} {m m' : Module} (h : m.Twin f m')
include h

theorem node {i : Nat} {n : Node} (hn : m.nodes[i]? = some n) :
    ∃ n', m'.nodes[i]? = some n' ∧ n.Twin f n' := by
  rw [← Array.getElem?_toList] at hn
  obtain ⟨bound, rfl⟩ := List.getElem?_eq_some_iff.mp hn
  have bound' : i < m'.nodes.toList.length := h.nodes.length_eq ▸ bound
  refine ⟨m'.nodes.toList[i], ?_, h.nodes.get bound bound'⟩
  rw [← Array.getElem?_toList, List.getElem?_eq_getElem bound']

theorem offers : m.offers = m'.offers := by
  refine map_eq_map_of_forall₂ h.nodes fun n n' twin ↦ ?_
  rw [twin.name, Prod.mk.injEq]
  refine ⟨rfl, funext fun x ↦ ?_⟩
  rw [twin.table, Option.map_map]
  rfl

theorem node? (name : String) : m'.node? name = (m.node? name).map (NodeRef.renumber f) := by
  rw [Module.node?_eq, Module.node?_eq, h.offers, h.id, h.name, Option.map_map]
  rfl

end Module.Twin

/-! ### Members of node types -/

namespace Node.Twin

variable {f : Nat → Nat} {n n' : Node}

theorem define (h : n.Twin f n') (home : Nat) (homeName : String) (m : Member) :
    (n.define home homeName m).Twin f (n'.define (f home) homeName (m.renumber f)) where
  name := by
    have kept (n : Node) (home : Nat) (m : Member) : (n.define home homeName m).name = n.name := by
      unfold Node.define
      dsimp only
      split <;> rfl
    rw [kept, kept, h.name]
  nextSlot := by
    rw [Node.nextSlot_define, Node.nextSlot_define, h.nextSlot]
    change (if n'.table[m.name]?.isSome then _ else _) = _
    rw [h.table, Option.isSome_map]
  params := by
    have grown (n : Node) (home : Nat) (m : Member) : (n.define home homeName m).params =
        if m.body.isParam then Ordered.add m.name n.params else n.params := by
      unfold Node.define
      dsimp only
      split <;> rfl
    rw [grown, grown, h.params]
    change (if (m.body.renumber f).isParam then Ordered.add m.name n.params else n.params) = _
    rw [Body.isParam_renumber]
  table x := by
    rw [Node.getElem?_table_define, Node.getElem?_table_define]
    change (if m.name = x then some ⟨(n'.table[m.name]?.map Slot.id).getD n'.nextSlot, f home,
      homeName, m.renumber f⟩ else n'.table[x]?) = _
    rw [h.table, h.table, h.nextSlot, Option.map_map]
    split <;> rfl

theorem members (h : n.Twin f n') (home : Nat) (homeName : String) (members : List Member) :
    (members.foldl (fun n m ↦ n.define home homeName m) n).Twin f
      ((members.map (Member.renumber f)).foldl (fun n m ↦ n.define (f home) homeName m) n') := by
  induction members generalizing n n' with
  | nil => exact h
  | cons m members ih =>
    rw [List.map_cons, List.foldl_cons, List.foldl_cons]
    exact ih (h.define home homeName m)

end Node.Twin

/-- The definition on a line is the same in every scope. -/
theorem Line.definition?_of_scope {line : Line} {sc : Scope} {d : Definition}
    (hd : line.definition? sc = some d) (sc' : Scope) :
    line.definition? sc' = some { d with scope := sc' } := by
  unfold Line.definition? at hd ⊢
  split at hd <;> cases hd <;> rfl

/-! ### Scopes -/

/-- The same draft, up to the numbers of modules. Its parent, if it is imported, is found in one of
two libraries. -/
structure Draft.Alike (f : Nat → Nat) (library library' : Library) (d d' : Draft) : Prop where
  face : d.face = d'.face
  parent : d'.parent = d.parent.map (NodeTarget.renumber f)
  members : d'.members = d.members.map (Member.renumber f)
  known : ∀ ref, d.parent = some (.imported ref) → ∃ n n', library.node? ref = some n ∧
    library'.node? (ref.renumber f) = some n' ∧ n.Twin f n'

namespace Scope

/-- The same scope, up to the numbers of modules, which are from one of two libraries. -/
structure Alike (f : Nat → Nat) (library library' : Library) (sc sc' : Scope) : Prop where
  classes : sc'.classes = sc.classes
  imports : List.Forall₂ (fun e e' ↦ e'.1 = e.1 ∧ e.2.Twin f e'.2) sc.imports sc'.imports
  left : sc.ImportsFrom library
  right : sc'.ImportsFrom library'
  closed : List.Forall₂ (Draft.Alike f library library') sc.closed sc'.closed
  current : Option.Rel (Draft.Alike f library library') sc.current sc'.current

variable {f : Nat → Nat} {library library' : Library} {sc sc' : Scope}

namespace Alike

variable (h : sc.Alike f library library' sc')
include h

theorem drafts : List.Forall₂ (Draft.Alike f library library') sc.drafts sc'.drafts := by
  unfold Scope.drafts
  refine List.rel_append h.closed ?_
  rcases rel_cases h.current with ⟨hc, hc'⟩ | ⟨d, d', hc, hc', alike⟩
  · rw [hc, hc']
    exact .nil
  · rw [hc, hc']
    exact .cons alike .nil

theorem resembles : sc.Resembles sc' where
  face := by
    have imports : sc.imports.map (Prod.map id Module.offers) =
        sc'.imports.map (Prod.map id Module.offers) :=
      map_eq_map_of_forall₂ h.imports fun e e' twin ↦ Prod.ext twin.1.symm twin.2.offers
    have closed : sc.closed.map Draft.face = sc'.closed.map Draft.face :=
      map_eq_map_of_forall₂ h.closed fun d d' alike ↦ alike.face
    have current : sc.current.map Draft.face = sc'.current.map Draft.face :=
      map_eq_map_of_rel h.current fun d d' alike ↦ alike.face
    simp only [Scope.face, h.classes, imports, closed, current]
  left := ⟨library, h.left⟩
  right := ⟨library', h.right⟩

/-! ### Names in scope -/

theorem get? (name : String) : Option.Rel (Module.Twin f) (Ordered.get? name sc.imports)
    (Ordered.get? name sc'.imports) := by
  have imports := h.imports
  generalize sc.imports = entries at imports ⊢
  generalize sc'.imports = entries' at imports ⊢
  induction imports with
  | nil => exact .none
  | cons twin _ ih =>
    rw [Ordered.get?, Ordered.get?, twin.1]
    split
    · exact .some twin.2
    · exact ih

theorem resolveNode (p : NodePath) :
    sc'.resolveNode p = (sc.resolveNode p).map (NodeTarget.renumber f) := by
  unfold Scope.resolveNode
  cases p.module with
  | none =>
    dsimp only
    rw [h.resembles.ownNode?]
    cases own : sc'.ownNode? p.name with
    | none => rfl
    | some target =>
      obtain ⟨index, -, rfl⟩ := Option.map_eq_some_iff.mp own
      rfl
  | some module =>
    dsimp only
    rcases rel_cases (h.get? module) with ⟨hm, hm'⟩ | ⟨m, m', hm, hm', twin⟩
    · rw [hm, hm']
      rfl
    · rw [hm, hm']
      dsimp only
      rw [twin.node?]
      cases m.node? p.name <;> rfl

theorem namesAlike : NamesAlike f sc sc' := by
  intro p
  unfold Scope.resolveTarget Scope.class?
  rw [h.resolveNode, h.classes]
  cases sc.resolveNode p with
  | ok target => rfl
  | error problem =>
    dsimp only [Except.map]
    split <;> rfl

/-- A node that is inherited from another module is found in the libraries. -/
theorem known {p : NodePath} {ref : NodeRef} (resolved : sc.resolveNode p = .ok (.imported ref)) :
    ∃ n n', library.node? ref = some n ∧ library'.node? (ref.renumber f) = some n' ∧
      n.Twin f n' := by
  rcases resolveNode_cases resolved with ⟨index, name, own, -⟩ | ⟨e, he, _, same, found⟩
  · cases own
  · cases same
    obtain ⟨e', he', -, twin⟩ := exists_of_forall₂_left h.imports he
    obtain ⟨id, -, -, n, hn, -⟩ := Module.node?_eq_some found
    obtain ⟨n', hn', twins⟩ := twin.node hn
    refine ⟨n, n', ?_, ?_, twins⟩
    · rw [Library.node?, id, h.left e he]
      exact hn
    · rw [Library.node?, NodeRef.renumber, id, ← twin.id, h.right e' he']
      exact hn'

/-- A path that a node inherits from means the same. -/
theorem parent {path : Option NodePath} {parent parent' : Option NodeTarget}
    (hp : path.mapM sc.resolveNode = .ok parent) (hp' : path.mapM sc'.resolveNode = .ok parent') :
    parent' = parent.map (NodeTarget.renumber f) ∧
      ∀ ref, parent = some (.imported ref) → ∃ n n', library.node? ref = some n ∧
        library'.node? (ref.renumber f) = some n' ∧ n.Twin f n' := by
  cases path with
  | none =>
    cases hp
    cases hp'
    exact ⟨rfl, fun ref hr ↦ by cases hr⟩
  | some p =>
    rw [Option.mapM_some, h.resolveNode] at hp'
    rw [Option.mapM_some] at hp
    cases resolved : sc.resolveNode p with
    | error problem =>
      rw [resolved] at hp
      cases hp
    | ok target =>
      rw [resolved] at hp hp'
      cases hp
      cases hp'
      refine ⟨rfl, fun ref hr ↦ ?_⟩
      cases hr
      exact h.known resolved

/-- Definitions that say the same are compiled to the same. -/
theorem member {d d' : Definition} (hs : d.scope = sc) (hs' : d'.scope = sc')
    (line : d'.line = d.line) (name : d'.name = d.name) (wording : d'.wording = d.wording) :
    d'.member = d.member.map (Member.renumber f) := by
  unfold Definition.member
  rw [wording, hs, hs', line, name]
  cases d.wording with
  | formula e =>
    dsimp only
    rw [h.resembles.references, lower_renumber h.namesAlike]
    cases sc'.references (some e) <;> cases sc.lower [] e <;> rfl
  | param default =>
    dsimp only
    rw [h.resembles.references, lowerOptional_renumber h.namesAlike]
    cases sc'.references default <;> cases sc.lowerOptional [] default <;> rfl

end Alike

/-! ### Scripts -/

/-- A line that is taken is declared, unless it imports something. -/
theorem Takes.declared {line : Line} {sc₁ : Scope} (h : sc.Takes line sc₁)
    (other : ∀ name, line.declaration ≠ .imports name) : sc.declared line = .ok sc₁ := by
  cases h with
  | again hd | imports m hd => exact absurd hd (other _)
  | @node name path parent hd new hp =>
    simp only [Scope.declared, hd, openNode, new, hp]
    rfl
  | @member d draft m hd hc hm new acyclic =>
    have checked := (Definition.fields_of_member hm).2.2
    rw [scope_of_definition? hd] at checked
    rw [declared_of_definition sc hd, define, checked]
    simp only [bind, Except.bind, withName_of_new hc new, acyclic, hm]
    rfl

section

variable {line : Line} {sc₁ sc₁' : Scope}

theorem Takes.import_cases (h : sc.Takes line sc₁) {name : String}
    (hd : line.declaration = .imports name) :
    (Ordered.hasKey name sc.imports = true ∧ sc₁ = sc) ∨ (Ordered.hasKey name sc.imports = false ∧
      ∃ m, sc₁ = { sc with imports := sc.imports ++ [(name, m)] }) := by
  cases h with
  | again hd' known =>
    cases hd.symm.trans hd'
    exact .inl ⟨known, rfl⟩
  | imports m hd' new =>
    cases hd.symm.trans hd'
    refine .inr ⟨new, m, ?_⟩
    rw [Ordered.put_of_hasKey_eq_false new]
  | node hd' => cases hd.symm.trans hd'
  | member hd' => simp [Line.definition?, hd] at hd'

theorem Takes.node_cases (h : sc.Takes line sc₁) {name : String} {path : Option NodePath}
    (hd : line.declaration = .node name path) :
    ∃ parent, path.mapM sc.resolveNode = .ok parent ∧ sc₁ = { sc with
      closed := sc.drafts
      current := some { name, parent, visible := sc.inherited parent } } := by
  cases h with
  | again hd' | imports m hd' => cases hd.symm.trans hd'
  | @node _ _ parent hd' new hp =>
    cases hd.symm.trans hd'
    exact ⟨parent, hp, rfl⟩
  | member hd' => simp [Line.definition?, hd] at hd'

theorem Takes.member_cases (h : sc.Takes line sc₁) {d : Definition}
    (hd : line.definition? sc = some d) :
    ∃ draft m, sc.current = some draft ∧ d.member = .ok m ∧ sc₁ = { sc with
      current := some { draft with
        visible := draft.visible.insert d.name m.deps
        members := draft.members ++ [m] } } := by
  cases h with
  | again hd' | imports m hd' | node hd' => simp [Line.definition?, hd'] at hd
  | @member _ draft m hd' hc hm =>
    cases hd.symm.trans hd'
    exact ⟨draft, m, hc, hm, rfl⟩

/-- One line: scopes stay alike, if what is imported are twins. -/
theorem Takes.alike (taken : sc.Takes line sc₁) (taken' : sc'.Takes line sc₁')
    (h : sc.Alike f library library' sc') (left : sc₁.ImportsFrom library)
    (right : sc₁'.ImportsFrom library')
    (twins : ∀ e ∈ sc₁.imports, ∀ e' ∈ sc₁'.imports, e'.1 = e.1 → e.2.Twin f e'.2) :
    sc₁.Alike f library library' sc₁' := by
  have same : (∀ name, line.declaration ≠ .imports name) → sc₁.Resembles sc₁' := by
    intro other
    have agree := h.resembles.declared line
    rw [taken.declared other, taken'.declared other] at agree
    cases agree with
    | ok same => exact same
  cases hl : line.definition? sc with
  | some d =>
    have other : ∀ name, line.declaration ≠ .imports name := by
      intro name hd
      simp [Line.definition?, hd] at hl
    obtain ⟨draft, m, hc, hm, rfl⟩ := taken.member_cases hl
    obtain ⟨draft', m', hc', hm', rfl⟩ := taken'.member_cases (Line.definition?_of_scope hl sc')
    rcases rel_cases h.current with ⟨none, -⟩ | ⟨_, _, here, here', alike⟩
    · cases none.symm.trans hc
    cases here.symm.trans hc
    cases here'.symm.trans hc'
    have compiled : ({ d with scope := sc' } : Definition).member =
        d.member.map (Member.renumber f) := h.member (scope_of_definition? hl) rfl rfl rfl rfl
    rw [hm, hm'] at compiled
    cases compiled
    refine { h with current := .some { alike with face := ?_, members := ?_ } }
    · cases (same other).current with
      | some faces => exact faces
    · rw [List.map_append, ← alike.members]
      rfl
  | none =>
    cases hd : line.declaration with
    | imports name =>
      have known := h.resembles.hasKey name
      rcases taken.import_cases hd with ⟨old, rfl⟩ | ⟨new, m, rfl⟩
      · rcases taken'.import_cases hd with ⟨old', rfl⟩ | ⟨new', m', rfl⟩
        · exact h
        · rw [old, new'] at known
          cases known
      · rcases taken'.import_cases hd with ⟨old', rfl⟩ | ⟨new', m', rfl⟩
        · rw [new, old'] at known
          cases known
        · refine { h with imports := List.rel_append h.imports (.cons ⟨rfl, ?_⟩ .nil), left, right }
          exact twins _ (List.mem_append_right _ (List.mem_singleton_self _)) _
            (List.mem_append_right _ (List.mem_singleton_self _)) rfl
    | node name path =>
      have other : ∀ name, line.declaration ≠ .imports name := by
        intro name' clash
        cases hd.symm.trans clash
      obtain ⟨parent, hp, rfl⟩ := taken.node_cases hd
      obtain ⟨parent', hp', rfl⟩ := taken'.node_cases hd
      obtain ⟨parents, known⟩ := h.parent hp hp'
      refine { h with closed := h.drafts, current := .some ⟨?_, parents, rfl, known⟩ }
      cases (same other).current with
      | some faces => exact faces
    | formula name body | param name default => simp [Line.definition?, hd] at hl

/-- A whole script: scopes stay alike, if what is imported in the end are twins. -/
theorem TakesAll.alike {lines : List Line} (taken : sc.TakesAll lines sc₁)
    (taken' : sc'.TakesAll lines sc₁') (h : sc.Alike f library library' sc')
    (left : sc₁.ImportsFrom library) (right : sc₁'.ImportsFrom library')
    (twins : ∀ e ∈ sc₁.imports, ∀ e' ∈ sc₁'.imports, e'.1 = e.1 → e.2.Twin f e'.2) :
    sc₁.Alike f library library' sc₁' := by
  induction taken generalizing sc' with
  | nil =>
    cases taken'
    exact h
  | cons first rest ih =>
    cases taken' with
    | cons first' rest' =>
      refine ih rest' (first.alike first' h ?_ ?_ ?_) left twins
      · exact fun e he ↦ left e (rest.imports_subset e he)
      · exact fun e he ↦ right e (rest'.imports_subset e he)
      · exact fun e he e' he' ↦ twins e (rest.imports_subset e he) e' (rest'.imports_subset e' he')

end

/-! ### Compiled scripts -/

end Scope

namespace Draft.Alike

variable {f : Nat → Nat} {library library' : Library} {d d' : Draft}

theorem base (h : d.Alike f library library' d') {before before' : Array Node}
    (earlier : List.Forall₂ (Node.Twin f) before.toList before'.toList) :
    (d.base library before).Twin f (d'.base library' before') := by
  have name : d'.name = d.name := (congrArg Draft.Face.name h.face).symm
  have fresh : Node.Twin f { name := d.name } { name := d'.name } :=
    ⟨name, rfl, rfl, fun x ↦ by simp⟩
  have renamed {n n' : Node} (twin : n.Twin f n') :
      Node.Twin f { n with name := d.name } { n' with name := d'.name } := { twin with name }
  unfold Draft.base
  rw [h.parent]
  cases hp : d.parent with
  | none => exact fresh
  | some target =>
    cases target with
    | own index own =>
      dsimp only [Option.map, NodeTarget.renumber]
      rcases rel_cases (rel_getElem? earlier index) with ⟨hn, hn'⟩ | ⟨n, n', hn, hn', twin⟩
      · rw [← Array.getElem?_toList, ← Array.getElem?_toList, hn, hn']
        exact fresh
      · rw [← Array.getElem?_toList, ← Array.getElem?_toList, hn, hn']
        exact renamed twin
    | imported ref =>
      obtain ⟨n, n', hn, hn', twin⟩ := h.known ref hp
      dsimp only [Option.map, NodeTarget.renumber]
      rw [hn, hn']
      exact renamed twin

theorem toNode (h : d.Alike f library library' d') {id id' : Nat} (number : id' = f id)
    (module : String) {before before' : Array Node}
    (earlier : List.Forall₂ (Node.Twin f) before.toList before'.toList) :
    (d.toNode library id module before).Twin f (d'.toNode library' id' module before') := by
  rw [Draft.toNode, Draft.toNode, h.members, number]
  exact (h.base earlier).members id module d.members

theorem paramNames (h : d.Alike f library library' d') : d'.paramNames = d.paramNames := by
  rw [Draft.paramNames, Draft.paramNames, h.members, List.filter_map, List.map_map]
  congr 1
  refine List.filter_congr fun m _ ↦ ?_
  exact Body.isParam_renumber f m.body

end Draft.Alike

/-- Scopes that are alike are compiled to twins. -/
theorem Scope.Alike.toModule {f : Nat → Nat} {library library' : Library} {sc sc' : Scope}
    (h : sc.Alike f library library' sc') (number : library'.nextId = f library.nextId)
    (name : String) (whitelist : Option Whitelist) :
    (sc.toModule library name whitelist).Twin f (sc'.toModule library' name whitelist) where
  id := number
  name := rfl
  imports := by
    change sc'.imports.map _ = (sc.imports.map _).map f
    rw [List.map_map]
    exact (map_eq_map_of_forall₂ h.imports fun e e' twin ↦ twin.2.id.symm).symm
  params := by
    change Indexed.ofElements _ = Indexed.ofElements _
    rw [List.flatMap_def, List.flatMap_def,
      map_eq_map_of_forall₂ h.drafts fun d d' alike ↦ alike.paramNames.symm]
  whitelist := rfl
  nodes := by
    have step {nodes nodes' : Array Node} {d d' : Draft}
        (earlier : List.Forall₂ (Node.Twin f) nodes.toList nodes'.toList)
        (alike : d.Alike f library library' d') : List.Forall₂ (Node.Twin f)
          (nodes.push (d.toNode library library.nextId name nodes)).toList
          (nodes'.push (d'.toNode library' library'.nextId name nodes')).toList := by
      rw [Array.toList_push, Array.toList_push]
      exact List.rel_append earlier (.cons (alike.toNode number name earlier) .nil)
    exact List.rel_foldl (R := Draft.Alike f library library')
      (P := fun (nodes nodes' : Array Node) ↦ List.Forall₂ (Node.Twin f) nodes.toList nodes'.toList)
      (fun _ _ earlier _ _ alike ↦ step earlier alike) .nil h.drafts

/-! ### Registries -/

namespace Registry

/-- Two registries have the same scripts and give modules the same to compile with. -/
structure SameScripts (r r' : Registry) : Prop where
  source? : ∀ x, r'.source? x = r.source? x
  classes : r'.classes = r.classes
  whitelist : r'.whitelist = r.whitelist

variable {r r' : Registry} {f : Nat → Nat}

/-- What is kept under one name has corresponding numbers. -/
def Renumbers (f : Nat → Nat) (r r' : Registry) : Prop :=
  ∀ x m m', r.kept? x = some m → r'.kept? x = some m' → f m.id = m'.id

/-- What is kept under one name, of the same scripts, are twins. -/
theorem Coherent.twin (h : r.Coherent) (h' : r'.Coherent) (same : r.SameScripts r')
    (numbers : Renumbers f r r') {x : String} {m m' : Module} (hm : r.kept? x = some m)
    (hm' : r'.kept? x = some m') : m.Twin f m' := by
  -- By induction on the number, since imports have smaller ones.
  induction id : m.id using Nat.strongRecOn generalizing x m m' with
  | ind n ih =>
    obtain ⟨lines, sc, before, built⟩ := h.built x m hm
    obtain ⟨lines', sc', before', built'⟩ := h'.built x m' hm'
    obtain ⟨source, found, read⟩ := built.script
    obtain ⟨source', found', read'⟩ := built'.script
    rw [same.source?, found] at found'
    cases found'
    rw [read] at read'
    cases read'
    have start : Scope.Alike f before before' { classes := r.classes } { classes := r'.classes } :=
      ⟨same.classes, .nil, fun e he ↦ (by cases he), fun e he ↦ (by cases he), .nil, .none⟩
    have alike := built.taken.alike built'.taken start built.imports built'.imports (by
      intro e he e' he' name
      refine ih e.2.id (id ▸ built.id_lt he) (h.keepsImports hm built e he) ?_ rfl
      rw [← name]
      exact h'.keepsImports hm' built' e' he')
    have number : before'.nextId = f before.nextId := by
      have numbers := numbers x m m' hm hm'
      rw [built.module, built'.module] at numbers
      exact numbers.symm
    rw [built.module, built'.module, same.whitelist]
    exact alike.toModule number x r.whitelist

end Registry

end Formulary
