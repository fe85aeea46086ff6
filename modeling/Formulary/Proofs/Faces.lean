import Formulary.Proofs.Acyclic
import Formulary.Proofs.Coherent
import Formulary.Proofs.Matching
import Formulary.Proofs.Spans

/-!
# Faces of scopes

Whether a declaration is accepted does not depend on how the modules in scope were compiled, but
only on which nodes they offer, and which members these have. Two scopes with the same face accept
the same declarations, refuse others for the same reason, and keep having the same face
(`Scope.Resembles.declared`).
-/

namespace Formulary

/-- For each member of a node, the members that it refers to. -/
abbrev Shown := String → Option (List String)

/-- The nodes of a module in their order, and the members of each. -/
def Module.offers (m : Module) : List (String × Shown) :=
  m.nodes.toList.map fun n ↦ (n.name, fun x ↦ n.table[x]?.map fun slot ↦ slot.member.deps)

/-- The class that a name means, if it means one. -/
def Target.signature? : Target → Option ClassSignature
  | .node _ => none
  | .hostClass signature => some signature

/-- What matters about a node that is being written. -/
structure Draft.Face where
  name : String
  shown : Shown
  own : List String

/-- The face of a draft. -/
def Draft.face (d : Draft) : Draft.Face :=
  ⟨d.name, fun x ↦ d.visible[x]?, d.members.map Member.name⟩

/-- Graphs with the same entries have the same cycles. -/
theorem Dependencies.isCyclic_congr {graph graph' : Dependencies}
    (same : ∀ x : String, graph[x]? = graph'[x]?) (name : String) :
    graph.isCyclic name = graph'.isCyclic name := by
  have refers : graph.Refers = graph'.Refers := by
    funext x y
    simp only [Dependencies.Refers, same]
  rw [Bool.eq_iff_iff, isCyclic_iff, isCyclic_iff, refers]

namespace Scope

/-- A definition is declared by defining it. -/
theorem declared_of_definition (sc : Scope) {line : Line} {d : Definition}
    (hl : line.definition? sc = some d) : sc.declared line = sc.define d := by
  unfold Line.definition? at hl
  unfold declared
  split at hl
  · next name body hd =>
    cases hl
    rw [hd]
    exact sc.defineFormula_eq_define line.number name body
  · next name default hd =>
    cases hl
    rw [hd]
    exact sc.defineParam_eq_define line.number name default
  · cases hl
  · cases hl

/-- What matters about a scope. -/
structure Face where
  classes : List ClassSignature
  imports : List (String × List (String × Shown))
  closed : List Draft.Face
  current : Option Draft.Face

/-- The face of a scope. -/
def face (sc : Scope) : Face where
  classes := sc.classes
  imports := sc.imports.map (Prod.map id Module.offers)
  closed := sc.closed.map Draft.face
  current := sc.current.map Draft.face

/-- One more import with the same face. -/
theorem face_import {sc sc' : Scope} (face : sc.face = sc'.face) {m m' : Module}
    (offers : m.offers = m'.offers) (name : String) :
    Scope.face { sc with imports := sc.imports ++ [(name, m)] } =
      Scope.face { sc' with imports := sc'.imports ++ [(name, m')] } := by
  simp only [Scope.face, Face.mk.injEq] at face ⊢
  obtain ⟨classes, imports, closed, current⟩ := face
  refine ⟨classes, ?_, closed, current⟩
  rw [List.map_append, List.map_append, imports]
  simp [offers]

/-- Two scopes that have the same face, each with modules from a library of its own. -/
structure Resembles (sc sc' : Scope) : Prop where
  face : sc.face = sc'.face
  left : ∃ library, sc.ImportsFrom library
  right : ∃ library, sc'.ImportsFrom library

variable {sc sc' : Scope}

namespace Resembles

variable (h : sc.Resembles sc')
include h

theorem classes : sc.classes = sc'.classes := congrArg Face.classes h.face

theorem drafts : sc.drafts.map Draft.face = sc'.drafts.map Draft.face := by
  have closed := congrArg Face.closed h.face
  have current := congrArg Face.current h.face
  simp only [Scope.face] at closed current
  rw [Scope.drafts, Scope.drafts, List.map_append, List.map_append, closed,
    ← Option.toList_map, ← Option.toList_map, current]

theorem hasKey (name : String) :
    Ordered.hasKey name sc.imports = Ordered.hasKey name sc'.imports := by
  have imports := congrArg Face.imports h.face
  have keyed (entries : List (String × Module)) : Ordered.hasKey name entries =
      Ordered.hasKey name (entries.map (Prod.map id Module.offers)) := by
    simp [Ordered.hasKey, List.any_map, Function.comp_def]
  rw [keyed, keyed sc'.imports]
  exact congrArg _ imports

theorem get? (name : String) : (Ordered.get? name sc.imports).map Module.offers =
    (Ordered.get? name sc'.imports).map Module.offers := by
  have imports := congrArg Face.imports h.face
  have same : ∀ a b : String, (id a == id b) = (a == b) := fun a b ↦ rfl
  rw [← Ordered.get?_map same, ← Ordered.get?_map same]
  exact congrArg _ imports

theorem current : Option.Rel (fun d d' ↦ d.face = d'.face) sc.current sc'.current := by
  have current := congrArg Face.current h.face
  simp only [Scope.face] at current
  cases hc : sc.current <;> cases hc' : sc'.current <;> rw [hc, hc'] at current
  · exact .none
  · cases current
  · cases current
  · exact .some (Option.some.inj current)

theorem sees (name : String) : sc.sees name = sc'.sees name := by
  have current := h.current
  unfold Scope.sees
  cases hc : sc.current <;> cases hc' : sc'.current <;> rw [hc, hc'] at current
  · cases current
  · cases current
  · cases current with
  | some same =>
    have shown := congrFun (congrArg Draft.Face.shown same) name
    simp only [Draft.face] at shown
    simp only [Std.HashMap.contains_eq_isSome_getElem?, shown]

theorem ownNode? (name : String) : sc.ownNode? name = sc'.ownNode? name := by
  have named (drafts : List Draft) : (drafts.findIdx? fun d ↦ d.name == name) =
      (drafts.map Draft.face).findIdx? fun f ↦ f.name == name := by
    rw [List.findIdx?_map]
    rfl
  rw [Scope.ownNode?, Scope.ownNode?, named, named sc'.drafts, h.drafts]

end Resembles

end Scope

/-! ### Nodes in scope -/

theorem Module.node?_eq (m : Module) (name : String) :
    m.node? name = (m.offers.findIdx? fun o ↦ o.1 == name).map fun index ↦
      ⟨m.id, index, m.name, name⟩ := by
  have listed : (m.nodes.findIdx? fun n ↦ n.name == name) =
      m.nodes.toList.findIdx? fun n ↦ n.name == name := by
    rw [← List.findIdx?_toArray, Array.toArray_toList]
  rw [node?, listed, offers, List.findIdx?_map]
  rfl

namespace Scope

variable {sc sc' : Scope}

/-- What is visible on a node of an imported module is what the module offers. -/
theorem getElem?_visibleOn_imported {library : Library} (imports : sc.ImportsFrom library)
    {name : String} {m : Module} (hm : Ordered.get? name sc.imports = some m) {ref : NodeRef}
    (id : ref.module = m.id) (x : String) :
    (sc.visibleOn (.imported ref))[x]? = m.offers[ref.index]?.bind fun o ↦ o.2 x := by
  obtain ⟨e, he, rfl⟩ := Ordered.mem_of_get?_eq_some hm
  obtain ⟨e', he'⟩ : ∃ e', sc.imports.find? (fun e ↦ e.2.id == ref.module) = some e' := by
    rw [← Option.isSome_iff_exists, List.find?_isSome]
    exact ⟨e, he, by simp [id]⟩
  -- Any import with the number of the module is that module.
  have same : e'.2 = e.2 := by
    have number : e'.2.id = ref.module := by simpa using List.find?_some he'
    have found := imports e' (List.mem_of_find?_eq_some he')
    rw [number, id, imports e he] at found
    exact (Option.some.inj found).symm
  simp only [visibleOn, he', same, Module.offers, List.getElem?_map, Array.getElem?_toList]
  cases e.2.nodes[ref.index]? with
  | none => simp
  | some n => simp

namespace Resembles

variable (h : sc.Resembles sc')
include h

theorem visibleOn_own (index : Nat) (name x : String) :
    (sc.visibleOn (.own index name))[x]? = (sc'.visibleOn (.own index name))[x]? := by
  have drafts := congrArg (fun drafts ↦ drafts[index]?) h.drafts
  simp only [List.getElem?_map] at drafts
  unfold Scope.visibleOn
  dsimp only
  cases hd : sc.drafts[index]? <;> cases hd' : sc'.drafts[index]? <;> rw [hd, hd'] at drafts
  · cases drafts
  · cases drafts
  · exact congrFun (congrArg Draft.Face.shown (Option.some.inj drafts)) x

/-- A path means nodes on which the same is visible, or is refused for the same reason. -/
theorem resolveNode (path : NodePath) :
    Agree (fun t t' ↦ ∀ x : String, (sc.visibleOn t)[x]? = (sc'.visibleOn t')[x]?)
      (sc.resolveNode path) (sc'.resolveNode path) := by
  unfold Scope.resolveNode
  cases path.module with
  | none =>
    dsimp only
    rw [h.ownNode?]
    cases own : sc'.ownNode? path.name with
    | none => exact .error _
    | some target =>
      obtain ⟨index, -, rfl⟩ := Option.map_eq_some_iff.mp own
      exact .ok (h.visibleOn_own index path.name)
  | some module =>
    dsimp only
    have offers := h.get? module
    cases hm : Ordered.get? module sc.imports <;> cases hm' : Ordered.get? module sc'.imports <;>
      rw [hm, hm'] at offers
    · exact .error _
    · cases offers
    · cases offers
    · next m m' =>
      have offers : m.offers = m'.offers := Option.some.inj offers
      dsimp only
      rw [m.node?_eq, m'.node?_eq, offers]
      cases m'.offers.findIdx? fun o ↦ o.1 == path.name with
      | none => exact .error _
      | some index =>
        obtain ⟨library, imports⟩ := h.left
        obtain ⟨library', imports'⟩ := h.right
        refine .ok fun x ↦ ?_
        rw [getElem?_visibleOn_imported imports hm rfl,
          getElem?_visibleOn_imported imports' hm' rfl, offers]

/-- The class that a name means, if it does not mean a node. -/
theorem resolveTarget (path : NodePath) :
    Agree (fun t t' ↦ t.signature? = t'.signature?) (sc.resolveTarget path)
      (sc'.resolveTarget path) := by
  unfold Scope.resolveTarget
  have nodes := h.resolveNode path
  cases hn : sc.resolveNode path <;> cases hn' : sc'.resolveNode path <;> rw [hn, hn'] at nodes
  · cases nodes
    dsimp only [Scope.class?]
    rw [h.classes]
    split
    · exact .ok rfl
    · exact .error _
  · cases nodes
  · cases nodes
  · exact .ok rfl

theorem checkFunction (path : NodePath) (function : String) (count : Nat) :
    sc.checkFunction path function count = sc'.checkFunction path function count := by
  unfold Scope.checkFunction
  have targets := h.resolveTarget path
  cases ht : sc.resolveTarget path <;> cases ht' : sc'.resolveTarget path <;>
    rw [ht, ht'] at targets
  · cases targets
    rfl
  · cases targets
  · cases targets
  · next t t' =>
    cases targets with
    | ok same =>
      cases t <;> cases t' <;> cases same
      · rfl
      · rfl

/-- The same names are known in both scopes. -/
theorem concurs : sc.Concurs sc' where
  sees := h.sees
  path p := by
    rw [Scope.mentions, Scope.mentions]
    have targets := h.resolveTarget p
    cases ht : sc.resolveTarget p <;> cases ht' : sc'.resolveTarget p <;> rw [ht, ht'] at targets
    · cases targets
      rfl
    · cases targets
    · cases targets
    · rfl
  function := h.checkFunction

theorem references (body : Option Expr) : sc.references body = sc'.references body :=
  h.concurs.references body

omit h

/-! ### Declarations -/

/-- A face is kept by changes that leave the imports alone. -/
theorem of_drafts {sc₁ sc₁' : Scope} (h : sc.Resembles sc') (imports : sc₁.imports = sc.imports)
    (imports' : sc₁'.imports = sc'.imports) (classes : sc₁.classes = sc.classes)
    (classes' : sc₁'.classes = sc'.classes)
    (closed : sc₁.closed.map Draft.face = sc₁'.closed.map Draft.face)
    (current : sc₁.current.map Draft.face = sc₁'.current.map Draft.face) :
    sc₁.Resembles sc₁' where
  face := by
    have offers := congrArg Face.imports h.face
    simp only [Scope.face] at offers
    simp only [Scope.face, imports, imports', classes, classes', h.classes, offers, closed, current]
  left := by
    unfold ImportsFrom
    rw [imports]
    exact h.left
  right := by
    unfold ImportsFrom
    rw [imports']
    exact h.right

theorem withName (h : sc.Resembles sc') (name : String) (deps : List String) :
    Agree (fun d d' ↦ d.face = d'.face) (sc.withName name deps) (sc'.withName name deps) := by
  have current := h.current
  unfold Scope.withName
  cases hc : sc.current <;> cases hc' : sc'.current <;> rw [hc, hc'] at current
  · exact .error _
  · cases current
  · cases current
  · next d d' =>
    cases current with
    | some same =>
      have names : d.name = d'.name := congrArg Draft.Face.name same
      have own : d.members.map Member.name = d'.members.map Member.name :=
        congrArg Draft.Face.own same
      have taken (members : List Member) : (members.any fun m ↦ m.name == name) =
          (members.map Member.name).any fun x ↦ x == name := by
        rw [List.any_map]
        rfl
      have shown (x : String) : (d.visible.insert name deps)[x]? =
          (d'.visible.insert name deps)[x]? := by
        rw [Std.HashMap.getElem?_insert, Std.HashMap.getElem?_insert]
        exact if_congr Iff.rfl rfl (congrFun (congrArg Draft.Face.shown same) x)
      dsimp only
      rw [taken, taken d'.members, own, names, Dependencies.isCyclic_congr shown]
      split
      · exact .error _
      · split
        · exact .error _
        · refine .ok ?_
          simp only [Draft.face, own]
          exact congrArg (Draft.Face.mk d'.name · _) (funext shown)

theorem define (h : sc.Resembles sc') {d d' : Definition} (hs : d.scope = sc) (hs' : d'.scope = sc')
    (name : d.name = d'.name) (wording : d.wording = d'.wording) :
    Agree Resembles (sc.define d) (sc'.define d') := by
  unfold Scope.define
  rw [wording, name, h.references]
  cases checked : sc'.references d'.wording.body? with
  | error problem => exact .error _
  | ok deps =>
    -- What passes the check can be compiled.
    obtain ⟨m, hm⟩ := member_of_references (d := d) (by rw [hs, wording, h.references, checked])
    obtain ⟨m', hm'⟩ := member_of_references (d := d') (by rw [hs', checked])
    refine (h.withName d'.name deps).bind fun draft draft' same ↦ ?_
    rw [hm, hm']
    refine .ok (h.of_drafts rfl rfl rfl rfl (congrArg Face.closed h.face) ?_)
    have names : m.name = m'.name := by
      rw [Definition.name_of_member hm, Definition.name_of_member hm', name]
    simp only [Draft.face, Option.map_some, List.map_append, List.map_cons, List.map_nil, names,
      Draft.Face.mk.injEq, Option.some.injEq] at same ⊢
    exact ⟨same.1, same.2.1, by rw [same.2.2]⟩

theorem openNode (h : sc.Resembles sc') (name : String) (parent : Option NodePath) :
    Agree Resembles (sc.openNode name parent) (sc'.openNode name parent) := by
  have opened (target target' : Option NodeTarget) (visible : ∀ x : String,
      (sc.inherited target)[x]? = (sc'.inherited target')[x]?) :
      Resembles { sc with
        closed := sc.drafts
        current := some { name, parent := target, visible := sc.inherited target } }
      { sc' with
        closed := sc'.drafts
        current := some { name, parent := target', visible := sc'.inherited target' } } :=
    h.of_drafts rfl rfl rfl rfl h.drafts
      (congrArg (fun shown ↦ some (Draft.Face.mk name shown [])) (funext visible))
  unfold Scope.openNode
  rw [h.ownNode?]
  split
  · exact .error _
  · cases parent with
    | none => exact .ok (opened none none fun x ↦ rfl)
    | some path =>
      have resolved := h.resolveNode path
      simp only [Option.mapM_some]
      cases hp : sc.resolveNode path <;> cases hp' : sc'.resolveNode path <;>
        rw [hp, hp'] at resolved
      · cases resolved
        exact .error _
      · cases resolved
      · cases resolved
      · cases resolved with
        | ok visible => exact .ok (opened _ _ visible)

/-- Scopes with the same face accept the same declarations, and refuse others for the same
reason. -/
theorem declared (h : sc.Resembles sc') (line : Line) :
    Agree Resembles (sc.declared line) (sc'.declared line) := by
  cases hd : line.declaration with
  | imports name =>
    simp only [Scope.declared, hd]
    exact .ok h
  | node name parent =>
    simp only [Scope.declared, hd]
    exact h.openNode name parent
  | formula name body | param name default =>
    rw [declared_of_definition sc (by rw [Line.definition?, hd]),
      declared_of_definition sc' (by rw [Line.definition?, hd])]
    exact h.define rfl rfl rfl rfl

end Resembles

end Scope

end Formulary
