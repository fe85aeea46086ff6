import Formulary.Proofs.Cycles
import Formulary.Proofs.Inheritance

/-!
# Scripts put together line by line

A script that is accepted, whatever it could import, with the scope that its lines lead to. It grows
by a header or by a definition, and the whole is a program. The sample scripts of this library are
made in this way, most of them with a single node (`Scope.having`).
-/

namespace Formulary

/-- The names of these members, and what each of them refers to. -/
def Dependencies.of (members : List Member) : Dependencies :=
  members.foldl (fun known m ↦ known.insert m.name m.deps) ∅

/-- What is referred to is referred to by one of the members. -/
theorem Dependencies.exists_of_refers {members : List Member} {x y : String}
    (h : (Dependencies.of members).Refers x y) : ∃ m ∈ members, y ∈ m.deps := by
  have grown : ∀ (members : List Member) (known : Dependencies),
      Dependencies.Refers (members.foldl (fun known m ↦ known.insert m.name m.deps) known) x y →
        known.Refers x y ∨ ∃ m ∈ members, y ∈ m.deps := by
    intro members
    induction members with
    | nil => exact fun known h ↦ .inl h
    | cons m members ih =>
      intro known h
      rcases ih _ h with earlier | ⟨m', hm', hy⟩
      · rw [Dependencies.refers_insert_iff] at earlier
        split at earlier
        · exact .inr ⟨m, List.mem_cons_self, earlier⟩
        · exact .inl earlier
      · exact .inr ⟨m', List.mem_cons_of_mem _ hm', hy⟩
  rcases grown members ∅ h with none | found
  · simp at none
  · exact found

/-- The scope of a script with one node, which has no parent, and these members so far. -/
def Scope.having (classes : List ClassSignature) (node : String) (members : List Member) : Scope :=
  { classes, current := some ⟨node, none, .of members, members⟩ }

/-- Lines of a module that lead to a scope, whatever can be loaded, and leave everything loaded as
it is. -/
structure Accepted (module : String) (classes : List ClassSignature) (sc : Scope) where
  lines : List Line
  outline : Outline
  accepted : ∀ {ρ : Type} (load : String → Loading ρ Module) (r : ρ),
    (Outline.ofLines module classes load lines).run.run r = (.ok (sc, outline), r)

namespace Accepted

variable {module : String} {classes : List ClassSignature} {sc sc' : Scope}

/-- One more line. -/
def next (a : Accepted module classes sc) (line : Line)
    (h : ∀ {ρ : Type} (load : String → Loading ρ Module) (r : ρ),
      (sc.declareIn module load line).run.run r = (.ok sc', r)) : Accepted module classes sc' where
  lines := a.lines ++ [line]
  outline := a.outline.note sc line
  accepted load r := by
    have before := a.accepted load r
    rw [Outline.ofLines] at before
    rw [Outline.ofLines, List.foldlM_append, run_bind, before]
    exact run_foldlM_cons (Outline.run_noted (h load r) _) []

/-- The header of the first node, on the first line. -/
def node (module : String) (classes : List ClassSignature) (name : String) (span : Span) :
    Accepted module classes (.having classes name []) :=
  next ⟨[], {}, fun _ _ ↦ rfl⟩ ⟨1, span, .node name none⟩ fun _ _ ↦ rfl

/-- A definition under a name that the one node does not have yet, and that nothing refers to. -/
def define {name : String} {members : List Member}
    (a : Accepted module classes (.having classes name members)) (line : Line) (m : Member)
    {d : Definition} (said : line.definition? (.having classes name members) = some d)
    (compiled : d.member = .ok m) (new : (members.any fun m ↦ m.name == d.name) = false)
    (free : ((members ++ [m]).any fun m ↦ m.deps.contains d.name) = false) :
    Accepted module classes (.having classes name (members ++ [m])) :=
  a.next line fun load r ↦ by
    have known : (Dependencies.of members).insert d.name m.deps =
        Dependencies.of (members ++ [m]) := by
      rw [← Definition.name_of_member compiled, Dependencies.of, Dependencies.of, List.foldl_append]
      rfl
    have acyclic : Dependencies.isCyclic (.of (members ++ [m])) d.name = false := by
      refine Dependencies.isCyclic_eq_false fun x refers ↦ ?_
      obtain ⟨m', hm', mentioned⟩ := Dependencies.exists_of_refers refers
      simp only [List.any_eq_false, List.contains_iff_mem] at free
      exact free m' hm' mentioned
    have taken := Scope.run_declareIn_of_member d ⟨name, none, .of members, members⟩ m said rfl
      compiled new (known ▸ acyclic) module load r
    rw [taken, known]
    rfl

variable (a : Accepted module classes sc)

/-- The lines are accepted without an outline, too. -/
theorem run_ofLines {ρ : Type} (load : String → Loading ρ Module) (r : ρ) :
    (Scope.ofLines module classes load a.lines).run.run r = (.ok sc, r) := by
  rw [← fst_map_ofLines, map_eq_pure_bind, run_bind, a.accepted load r]
  rfl

/-- There is nothing to load. -/
def noImports (name : String) : Loading Unit Module := throw (Problem.notImported name).diagnostic

/-- The script as a program, if it imports nothing. -/
def program (alone : sc.imports = []) : Program where
  texts := [⟨module, a.outline.nodes⟩]
  library := Library.push {} (sc.toModule {} module none)
  compiled := by
    refine .script none .nothing (a.accepted noImports ()) fun e he ↦ ?_
    rw [alone] at he
    cases he

end Accepted

/-- What a name alone is compiled to. -/
theorem Definition.member_ident {sc : Scope} {name : String} (sees : sc.sees name = true)
    (line : Nat) (attr : String) :
    Definition.member ⟨sc, line, attr, .formula (.ident default name)⟩ =
      .ok ⟨attr, line, .formula (.attr name), [name]⟩ := by
  have checked : sc.references (some (.ident default name)) = .ok [name] := by
    simp only [Scope.references, Scope.mentionsOptional, Scope.mentions, sees]
    rfl
  simp only [Definition.member, checked]
  rfl

/-- What a line of descent defines is written in one of the scripts. -/
theorem exists_mem_of_definition? {texts : List WrittenModule} {module index : Nat} {x : String}
    {l : Located} (h : definition? x (lineage texts module index) = some l) :
    ∃ t ∈ texts, ∃ n ∈ t.nodes, l.definition ∈ n.definitions := by
  fun_induction lineage texts module index with
  | case1 module index hm | case2 module index m hm hn => cases h
  | case3 module index m hm n hn ih =>
    rw [definition?] at h
    split at h
    · next d own =>
      cases h
      exact ⟨m, List.mem_of_getElem? hm, n, List.mem_of_getElem? hn, List.mem_of_find?_eq_some own⟩
    · split at h
      · cases h
      · next place _ =>
        split at h
        · next earlier => exact ih place earlier h
        · cases h

namespace Program

variable (p : Program) {ref : NodeRef} {x : String}

/-- The slot of a definition. -/
theorem slot?_eq_some {l : Located} {m : Member} (defined : definition? x (p.lineage ref) = some l)
    (hm : l.definition.member = .ok m) :
    p.library.slot? ref x =
      some ⟨(namesOn (p.lineage ref)).idxOf x, l.home, l.homeName, m⟩ := by
  obtain ⟨slot, found, holds⟩ := exists_of_rel_left (p.slot?_rel ref x) defined
  rw [found, ← p.slot?_id found, ← holds.home, ← holds.homeName,
    Except.ok.inj (hm.symm.trans holds.member)]

/-- The slot of a definition in a node without a parent. -/
theorem slot?_of_own (ref : NodeRef) (x : String) {t : WrittenModule} {n : WrittenNode}
    {d : Definition} {m : Member} (text : p.texts[ref.module]? = some t)
    (node : t.nodes[ref.index]? = some n) (alone : n.parent = none) (own : n.own? x = some d)
    (hm : d.member = .ok m) :
    p.library.slot? ref x = some
      ⟨(Ordered.union [] (n.definitions.map Definition.name)).idxOf x, ref.module, t.name, m⟩ := by
  have line : p.lineage ref = [⟨ref.module, t.name, n⟩] := by
    rw [lineage, Formulary.lineage, text]
    dsimp only
    rw [node]
    dsimp only
    rw [WrittenNode.parentPlace?, WrittenNode.target?, alone]
    rfl
  have defined : definition? x (p.lineage ref) = some ⟨ref.module, t.name, d⟩ := by
    rw [line, definition?, own]
  rw [p.slot?_eq_some defined hm, line]
  rfl

/-- The member in a slot is that of a definition in one of the scripts. -/
theorem exists_mem_of_slot? {slot : Slot} (found : p.library.slot? ref x = some slot) :
    ∃ t ∈ p.texts, ∃ n ∈ t.nodes, ∃ d ∈ n.definitions, d.member = .ok slot.member := by
  obtain ⟨l, defined, holds⟩ := exists_of_rel_right (p.slot?_rel ref x) found
  obtain ⟨t, ht, n, hn, hd⟩ := exists_mem_of_definition? defined
  exact ⟨t, ht, n, hn, l.definition, hd, holds.member⟩

end Program

end Formulary
