import Formulary.Proofs.Accepted
import Formulary.Proofs.Graphs

/-!
# Cycles are refused

A script is refused as soon as a definition makes a cycle among the members of a node, and only then
is it refused for that reason (`Program.refuses_cycles`). So no node of a program has one, whichever
nodes it inherits from.
-/

namespace Formulary

/-- No node of an accepted script has a cycle, if none of those has that it may inherit from. -/
theorem acyclic_of_ofLines {ρ : Type} {library : Library} {module : String}
    {classes : List ClassSignature} {load : String → Loading ρ Module} {lines : List Line}
    {sc : Scope} {o : Outline} {r r' : ρ} (acyclic : library.Every Dependencies.Acyclic)
    (accepted : (Outline.ofLines module classes load lines).run.run r = (.ok (sc, o), r'))
    (imports : sc.ImportsFrom library) :
    ∀ d ∈ sc.drafts, d.visible.Acyclic :=
  kept_of_ofLines kept_acyclic acyclic accepted imports

/-! ### Refusals -/

namespace Scope

variable {sc : Scope} {line : Line} {d : Definition} {draft : Draft}

/-- A name that is new in the open node is refused just if a cycle comes of it. -/
theorem withName_eq_cyclic_iff (hc : sc.current = some draft) (acyclic : draft.visible.Acyclic)
    {name : String} (new : (draft.members.any fun m ↦ m.name == name) = false)
    (deps : List String) :
    sc.withName name deps = .error (.cyclic name draft.name) ↔
      ¬Dependencies.Acyclic (draft.visible.insert name deps) := by
  rw [Dependencies.acyclic_insert_iff acyclic, withName_of_new hc new]
  cases Dependencies.isCyclic (draft.visible.insert name deps) name with
  | true => simp
  | false => simp

/-- Of a new name nothing but a cycle is refused. -/
theorem withName_eq_error (hc : sc.current = some draft) {name : String}
    (new : (draft.members.any fun m ↦ m.name == name) = false) {deps : List String}
    {problem : Problem} (h : sc.withName name deps = .error problem) :
    problem = .cyclic name draft.name := by
  rw [withName_of_new hc new] at h
  split at h
  · cases h
    rfl
  · cases h

/-- A definition whose expression passes the check can be compiled. -/
theorem member_of_references {deps : List String}
    (h : d.scope.references d.wording.body? = .ok deps) : ∃ m, d.member = .ok m := by
  obtain ⟨code, hcode⟩ := lowerOptional_of_references h
  unfold Definition.member
  cases hw : d.wording with
  | formula e =>
    rw [hw] at h hcode
    obtain ⟨code', hcode', -⟩ := bind_eq_ok hcode
    simp only [Wording.body?] at h
    simp only [h, hcode']
    exact ⟨_, rfl⟩
  | param default =>
    rw [hw] at h hcode
    simp only [Wording.body?] at h hcode
    simp only [h, hcode]
    exact ⟨_, rfl⟩

/-- A definition is refused for a cycle just if its expression passes the check and its name, once
it is added, makes a cycle. -/
theorem define_recursion_iff (hs : d.scope = sc) (hc : sc.current = some draft)
    (acyclic : draft.visible.Acyclic) (new : (draft.members.any fun m ↦ m.name == d.name) = false) :
    (∃ problem, sc.define d = .error problem ∧ problem.kind = .recursion) ↔
      ∃ deps, sc.references d.wording.body? = .ok deps ∧
        ¬Dependencies.Acyclic (draft.visible.insert d.name deps) := by
  unfold define
  cases checked : sc.references d.wording.body? with
  | error problem =>
    constructor
    · rintro ⟨_, ⟨⟩, recursion⟩
      exact absurd recursion (sc.blameless_references _ problem checked)
    · rintro ⟨deps, ⟨⟩, -⟩
  | ok deps =>
    have cyclic := withName_eq_cyclic_iff hc acyclic new deps
    simp only [bind, Except.bind]
    cases named : sc.withName d.name deps with
    | error problem =>
      cases withName_eq_error hc new named
      exact ⟨fun _ ↦ ⟨deps, rfl, cyclic.mp named⟩, fun _ ↦ ⟨_, rfl, rfl⟩⟩
    | ok draft' =>
      -- No cycle was found, and compiling does not look for one.
      obtain ⟨m, hm⟩ := member_of_references (hs ▸ checked)
      simp only [hm]
      constructor
      · rintro ⟨_, ⟨⟩, -⟩
      · rintro ⟨_, ⟨⟩, cycle⟩
        rw [named] at cyclic
        cases cyclic.mpr cycle

/-- What a settled declaration is refused for is kept when it is given its place. -/
theorem declareIn_recursion_iff {ρ : Type} {load : String → Loading ρ Module}
    {x : Except Problem Scope} (settled : sc.declare load line = settle x) (module : String)
    (r : ρ) :
    (∃ diagnostic r', (sc.declareIn module load line).run.run r = (.error diagnostic, r') ∧
        diagnostic.kind = .recursion) ↔
      ∃ problem, x = .error problem ∧ problem.kind = .recursion := by
  unfold declareIn
  rw [run_tryCatch, settled]
  cases x with
  | ok sc' =>
    constructor
    · rintro ⟨_, _, ⟨⟩, -⟩
    · rintro ⟨_, ⟨⟩, -⟩
  | error problem =>
    constructor
    · rintro ⟨_, _, ⟨⟩, recursion⟩
      exact ⟨problem, rfl, recursion⟩
    · rintro ⟨_, ⟨⟩, recursion⟩
      exact ⟨_, r, rfl, recursion⟩

end Scope

/-- After a script is accepted, with modules of a program as its imports, no node has a cycle in
what it has itself or else inherits. A name that is new in the open node is refused just if a cycle
comes of it. A line that defines such a name is refused for a cycle just if its expression passes
the check and a cycle comes of the names that it refers to; an expression that does not pass is
refused for what the check found. So no node of a program has a cycle among its members. -/
theorem Program.refuses_cycles (p : Program) {ρ : Type} {load : String → Loading ρ Module}
    {module : String} {classes : List ClassSignature} {lines : List Line} {sc : Scope} {r r' : ρ}
    (accepted : (Scope.ofLines module classes load lines).run.run r = (.ok sc, r'))
    (imports : ∀ e ∈ sc.imports, p.library.module? e.2.id = some e.2) :
    (∀ i (d : Draft), sc.drafts[i]? = some d → d.visible.Acyclic ∧
      ∀ x : String, d.visible[x]? = ((d.members.find? fun m ↦ m.name == x).map Member.deps).or
        (d.inherits p.library (sc.drafts.take i))[x]?) ∧
    (∀ draft, sc.current = some draft →
      (∀ name deps, (∀ m ∈ draft.members, m.name ≠ name) →
        (sc.withName name deps = .error (.cyclic name draft.name) ↔
          ¬Dependencies.Acyclic (draft.visible.insert name deps))) ∧
      ∀ (line : Line) d, line.definition? sc = some d → (∀ m ∈ draft.members, m.name ≠ d.name) →
        ((∃ diagnostic r'', (sc.declareIn module load line).run.run r' = (.error diagnostic, r'') ∧
            diagnostic.kind = .recursion) ↔
          ∃ deps, sc.references d.wording.body? = .ok deps ∧
            ¬Dependencies.Acyclic (draft.visible.insert d.name deps))) ∧
    ∀ ref n, p.library.node? ref = some n → n.dependencies.Acyclic := by
  have library := acyclic_of_compiles p.compiled
  obtain ⟨o, outlined⟩ := exists_outline accepted
  have drafts := acyclic_of_ofLines library outlined imports
  refine ⟨fun i d hd ↦ ?_, fun draft hc ↦ ?_, library⟩
  · exact ⟨drafts d (List.mem_of_getElem? hd),
      getElem?_visible (follows_of_ofLines outlined) imports hd⟩
  · have acyclic := drafts draft (Scope.mem_drafts_of_current hc)
    refine ⟨fun name deps new ↦ ?_, fun line d hl new ↦ ?_⟩
    · exact Scope.withName_eq_cyclic_iff hc acyclic (by simpa using new) deps
    · have new : (draft.members.any fun m ↦ m.name == d.name) = false := by simpa using new
      rw [Scope.declareIn_recursion_iff (Scope.declare_of_definition load hl),
        Scope.define_recursion_iff (Scope.scope_of_definition? hl) hc acyclic new]

/-! A node that turns around what it inherits: `A` has a parameter `x` and a formula `y = x`, and
`B`, which inherits from it, is to have `x = y`. -/

namespace Override

def memberX : Member := ⟨"x", 2, .param none, []⟩

def memberY : Member := ⟨"y", 3, .formula (.attr "x"), ["x"]⟩

/-- The names on `A`, which are those on `B`. -/
def names : Dependencies := .of [memberX, memberY]

/-- The scope in which `B` is open. -/
def inB : Scope where
  classes := []
  closed := [⟨"A", none, names, [memberX, memberY]⟩]
  current := some ⟨"B", some (.own 0 "A"), names, []⟩

/-- The node `A`. -/
def first : Accepted "M" [] (.having [] "A" [memberX, memberY]) :=
  ((Accepted.node "M" [] "A" default).define ⟨2, default, .param "x" none⟩ memberX rfl rfl rfl
    rfl).define ⟨3, default, .formula "y" (.ident default "x")⟩ memberY rfl
    (Definition.member_ident (by simp [Scope.sees, Scope.having, Dependencies.of, memberX]) _ _)
    rfl rfl

/-- The lines up to the header of `B`. -/
def script : Accepted "M" [] inB :=
  first.next ⟨4, default, .node "B" (some ⟨none, "A"⟩)⟩ fun _ _ ↦ rfl

/-- The line in `B`. -/
def last : Line := ⟨5, default, .formula "x" (.ident default "y")⟩

/-- In `B`, `x = y` is refused: `y` is inherited and refers to `x`. -/
theorem refused :
    (Scope.ofLines "M" [] Accepted.noImports script.lines).run.run () = (.ok inB, ()) ∧
    ∃ diagnostic r, (inB.declareIn "M" Accepted.noImports last).run.run () =
      (.error diagnostic, r) ∧ diagnostic.kind = .recursion := by
  have checked : inB.references (some (.ident default "y")) = .ok ["y"] := by
    have sees : inB.sees "y" = true := by
      simp [Scope.sees, inB, names, Dependencies.of, memberX, memberY]
    simp only [Scope.references, Scope.mentionsOptional, Scope.mentions, sees]
    rfl
  have cycle : ¬Dependencies.Acyclic (names.insert "x" ["y"]) := by
    intro acyclic
    refine acyclic "x" (.tail (.single (b := "y") ?_) ?_)
    · simp
    · simp [names, Dependencies.of, memberX, memberY]
  obtain ⟨-, refuses, -⟩ := Program.refuses_cycles ⟨[], {}, .nothing⟩
    (script.run_ofLines Accepted.noImports ()) fun e he ↦ by cases he
  refine ⟨script.run_ofLines _ (),
    ((refuses _ rfl).2 _ _ rfl fun m hm ↦ by cases hm).mpr ⟨["y"], ?_, cycle⟩⟩
  exact checked

end Override

end Formulary
