import Formulary.Proofs.EvalLaws
import Formulary.Scope.Declare

/-!
# Scripts as they are written

What a script says, before any of it is turned into code: its nodes with their parents, and the
definitions of each node, every one with the scope that its names are looked up in. A program is a
library of compiled modules together with the scripts that it was compiled from, in the same order.
-/

namespace Formulary

/-- What a definition says. -/
inductive Wording where
  | formula (e : Expr)
  | param (default : Option Expr)

/-- The expression that a definition consists of; a parameter may have none. -/
def Wording.body? : Wording → Option Expr
  | .formula e => some e
  | .param default => default

/-- Whether a definition declares a parameter. -/
def Wording.isParam : Wording → Bool
  | .formula _ => false
  | .param _ => true

/-- A definition in a script. -/
structure Definition where
  /-- What is known where the definition stands. -/
  scope : Scope
  line : Nat
  name : String
  wording : Wording

namespace Definition

/-- The member that a definition is compiled to. -/
def member (d : Definition) : Except Problem Member :=
  match d.wording with
  | .formula e => do
    let deps ← d.scope.references (some e)
    let code ← d.scope.lower [] e
    return ⟨d.name, d.line, .formula code, deps⟩
  | .param default => do
    let deps ← d.scope.references default
    let code ← d.scope.lowerOptional [] default
    return ⟨d.name, d.line, .param code, deps⟩

/-- A member has the name and the line of its definition, and the names that it refers to. -/
theorem fields_of_member {d : Definition} {m : Member} (h : d.member = .ok m) :
    m.name = d.name ∧ m.line = d.line ∧ d.scope.references d.wording.body? = .ok m.deps := by
  unfold member at h
  split at h
  · next e hw =>
    obtain ⟨deps, code, hdeps, _, rfl⟩ := bind₂_eq_ok h
    exact ⟨rfl, rfl, hw ▸ hdeps⟩
  · next default hw =>
    obtain ⟨deps, code, hdeps, _, rfl⟩ := bind₂_eq_ok h
    exact ⟨rfl, rfl, hw ▸ hdeps⟩

theorem name_of_member {d : Definition} {m : Member} (h : d.member = .ok m) : m.name = d.name :=
  (fields_of_member h).1

theorem line_of_member {d : Definition} {m : Member} (h : d.member = .ok m) : m.line = d.line :=
  (fields_of_member h).2.1

/-- A member is a parameter if its definition declares one. -/
theorem isParam_of_member {d : Definition} {m : Member} (h : d.member = .ok m) :
    m.body.isParam = d.wording.isParam := by
  unfold member at h
  split at h
  · next e hw =>
    obtain ⟨deps, code, -, -, rfl⟩ := bind₂_eq_ok h
    rw [hw]
    rfl
  · next default hw =>
    obtain ⟨deps, code, -, -, rfl⟩ := bind₂_eq_ok h
    rw [hw]
    rfl

end Definition

/-- The definition on a line, if there is one. -/
def Line.definition? (line : Line) (sc : Scope) : Option Definition :=
  match line.declaration with
  | .formula name body => some ⟨sc, line.number, name, .formula body⟩
  | .param name default => some ⟨sc, line.number, name, .param default⟩
  | .imports _ | .node _ _ => none

/-- A node in a script. -/
structure WrittenNode where
  /-- What is known where the node's header stands. -/
  scope : Scope
  name : String
  parent : Option NodePath
  definitions : List Definition := []

namespace WrittenNode

/-- The node that a node inherits from. -/
def target? (n : WrittenNode) : Option NodeTarget :=
  n.parent.bind fun path ↦ (n.scope.resolveNode path).toOption

/-- The definition of a name in the node itself. -/
def own? (n : WrittenNode) (name : String) : Option Definition :=
  n.definitions.find? fun d ↦ d.name == name

/-- Names that the node itself declares as parameters. -/
def paramNames (n : WrittenNode) : List String :=
  (n.definitions.filter fun d ↦ d.wording.isParam).map Definition.name

end WrittenNode

/-- The nodes of a script as far as it is read; the last one is open for definitions. -/
structure Outline where
  closed : List WrittenNode := []
  current : Option WrittenNode := none

namespace Outline

/-- Every node so far, in order. -/
def nodes (o : Outline) : List WrittenNode := o.closed ++ o.current.toList

/-- The outline after one more line, which is read in the given scope. -/
def note (o : Outline) (sc : Scope) (line : Line) : Outline :=
  match line.declaration with
  | .node name parent => { closed := o.nodes, current := some { scope := sc, name, parent } }
  | _ =>
    match line.definition? sc with
    | some d =>
      { o with current := o.current.map fun n ↦ { n with definitions := n.definitions ++ [d] } }
    | none => o

end Outline

namespace Scope

/-- The members that a node starts with. -/
def inherited (sc : Scope) : Option NodeTarget → Dependencies
  | some target => sc.visibleOn target
  | none => ∅

/-- How a scope changes by a line that is accepted. -/
inductive Takes (sc : Scope) (line : Line) : Scope → Prop where
  /-- A module that is imported already. -/
  | again {name : String} (hd : line.declaration = .imports name)
      (known : Ordered.hasKey name sc.imports = true) : Takes sc line sc
  | imports {name : String} (m : Module) (hd : line.declaration = .imports name)
      (new : Ordered.hasKey name sc.imports = false) :
      Takes sc line { sc with imports := Ordered.put name m sc.imports }
  | node {name : String} {path : Option NodePath} {parent : Option NodeTarget}
      (hd : line.declaration = .node name path) (new : sc.ownNode? name = none)
      (hp : path.mapM sc.resolveNode = .ok parent) :
      Takes sc line { sc with
        closed := sc.drafts
        current := some { name, parent, visible := sc.inherited parent } }
  | member {d : Definition} {draft : Draft} {m : Member} (hd : line.definition? sc = some d)
      (hc : sc.current = some draft) (hm : d.member = .ok m)
      (new : (draft.members.any fun m ↦ m.name == d.name) = false)
      (acyclic : Dependencies.isCyclic (draft.visible.insert d.name m.deps) d.name = false) :
      Takes sc line { sc with
        current := some { draft with
          visible := draft.visible.insert d.name m.deps
          members := draft.members ++ [m] } }

/-- A name that is new in the open node is added to it, unless a cycle comes of it. -/
theorem withName_of_new {sc : Scope} {draft : Draft} {name : String}
    (hc : sc.current = some draft) (new : (draft.members.any fun m ↦ m.name == name) = false)
    (deps : List String) :
    sc.withName name deps =
      if Dependencies.isCyclic (draft.visible.insert name deps) name then
        .error (.cyclic name draft.name)
      else .ok { draft with visible := draft.visible.insert name deps } := by
  unfold withName
  rw [hc]
  dsimp only
  rw [new]
  rfl

/-- A name is added to the open node if it is new there and no cycle comes of it. -/
theorem withName_eq_ok {sc : Scope} {name : String} {deps : List String} {d' : Draft}
    (h : sc.withName name deps = .ok d') :
    ∃ d, sc.current = some d ∧ (d.members.any fun m ↦ m.name == name) = false ∧
      Dependencies.isCyclic (d.visible.insert name deps) name = false ∧
      d' = { d with visible := d.visible.insert name deps } := by
  unfold withName at h
  split at h
  · cases h
  · next d hc =>
    split at h
    · cases h
    · next new =>
      simp only at h
      split at h
      · cases h
      · next acyclic =>
        cases h
        exact ⟨d, hc, by simpa using new, by simpa using acyclic, rfl⟩

variable {ρ : Type}

theorem run_settle {α : Type} {r r' : ρ} {x : Except Problem α} {a : α}
    (h : (settle x : Loading ρ α).run.run r = (.ok a, r')) : x = .ok a ∧ r = r' := by
  cases x with
  | error p => cases h
  | ok b => cases h; exact ⟨rfl, rfl⟩

/-- Defines a member in three steps: its expression is checked, its name is added to the open node,
and it is compiled. -/
def define (sc : Scope) (d : Definition) : Except Problem Scope := do
  let deps ← sc.references d.wording.body?
  let draft ← sc.withName d.name deps
  let m ← d.member
  return { sc with current := some { draft with members := draft.members ++ [m] } }

theorem defineFormula_eq_define (sc : Scope) (line : Nat) (name : String) (body : Expr) :
    sc.defineFormula line name body = sc.define ⟨sc, line, name, .formula body⟩ := by
  simp only [define, defineFormula, Definition.member, Wording.body?]
  cases sc.references (some body) with
  | error problem => rfl
  | ok deps => cases sc.withName name deps <;> cases sc.lower [] body <;> rfl

theorem defineParam_eq_define (sc : Scope) (line : Nat) (name : String) (default : Option Expr) :
    sc.defineParam line name default = sc.define ⟨sc, line, name, .param default⟩ := by
  simp only [define, defineParam, Definition.member, Wording.body?]
  cases sc.references default with
  | error problem => rfl
  | ok deps => cases sc.withName name deps <;> cases sc.lowerOptional [] default <;> rfl

/-- A line with a definition defines a member. -/
theorem declare_of_definition {sc : Scope} {line : Line} {d : Definition}
    (load : String → Loading ρ Module) (hl : line.definition? sc = some d) :
    sc.declare load line = settle (sc.define d) := by
  unfold Line.definition? at hl
  unfold declare
  split at hl
  · next name body hd =>
    cases hl
    rw [hd]
    exact congrArg settle (sc.defineFormula_eq_define line.number name body)
  · next name default hd =>
    cases hl
    rw [hd]
    exact congrArg settle (sc.defineParam_eq_define line.number name default)
  · cases hl
  · cases hl

theorem scope_of_definition? {sc : Scope} {line : Line} {d : Definition}
    (hl : line.definition? sc = some d) : d.scope = sc := by
  unfold Line.definition? at hl
  split at hl
  · cases hl; rfl
  · cases hl; rfl
  · cases hl
  · cases hl

/-- A line with a definition that has code is accepted if its name is new and makes no cycle. -/
theorem run_declareIn_of_member {sc : Scope} {line : Line} (d : Definition) (draft : Draft)
    (m : Member) (hl : line.definition? sc = some d) (hc : sc.current = some draft)
    (hm : d.member = .ok m) (new : (draft.members.any fun m ↦ m.name == d.name) = false)
    (acyclic : Dependencies.isCyclic (draft.visible.insert d.name m.deps) d.name = false)
    (module : String) (load : String → Loading ρ Module) (r : ρ) :
    (sc.declareIn module load line).run.run r =
      (.ok { sc with
        current := some { draft with
          visible := draft.visible.insert d.name m.deps
          members := draft.members ++ [m] } }, r) := by
  have checked := (Definition.fields_of_member hm).2.2
  rw [scope_of_definition? hl] at checked
  have named : sc.withName d.name m.deps =
      .ok { draft with visible := draft.visible.insert d.name m.deps } := by
    rw [withName_of_new hc new, acyclic]
    rfl
  unfold declareIn
  rw [run_tryCatch, declare_of_definition load hl]
  simp only [define, checked, hm, bind, Except.bind, named]
  rfl

/-- An accepted declaration changes the scope in one of the ways above. -/
theorem takes_of_declare {load : String → Loading ρ Module} {sc sc' : Scope} {line : Line}
    {r r' : ρ} (h : (sc.declare load line).run.run r = (.ok sc', r')) : sc.Takes line sc' := by
  cases hl : line.definition? sc with
  | some d =>
    rw [declare_of_definition load hl] at h
    obtain ⟨h, -⟩ := run_settle h
    obtain ⟨deps, hdeps, h⟩ := bind_eq_ok h
    obtain ⟨draft', hd', h⟩ := bind_eq_ok h
    obtain ⟨m, hm, h⟩ := bind_eq_ok h
    obtain ⟨draft, hc, new, acyclic, rfl⟩ := withName_eq_ok hd'
    cases h
    have same : m.deps = deps := by
      have hdeps' := (Definition.fields_of_member hm).2.2
      rw [scope_of_definition? hl, hdeps] at hdeps'
      cases hdeps'
      rfl
    subst same
    exact .member hl hc hm new acyclic
  | none =>
    unfold declare at h
    split at h
    · next name hd =>
      unfold importModule at h
      split at h
      · next known =>
        cases h
        exact .again hd known
      · next new =>
        obtain ⟨m, r₁, -, h⟩ := run_bind_eq_ok h
        cases h
        exact .imports m hd (by simpa using new)
    · next name path hd =>
      obtain ⟨h, -⟩ := run_settle h
      unfold openNode at h
      dsimp only at h
      split at h
      · cases h
      · next new =>
        obtain ⟨parent, hp, h⟩ := bind_eq_ok h
        cases h
        have new : sc.ownNode? name = none := by simpa using new
        cases parent with
        | none | some target => exact .node hd new hp
    · next name body hd =>
      rw [Line.definition?, hd] at hl
      cases hl
    · next name default hd =>
      rw [Line.definition?, hd] at hl
      cases hl

end Scope

/-! ### Whole scripts -/

section

variable {ρ : Type}

/-- Takes the declarations of a script one after the other, and keeps the outline beside the
scope. -/
def Outline.ofLines (module : String) (classes : List ClassSignature)
    (load : String → Loading ρ Module) (lines : List Line) : Loading ρ (Scope × Outline) :=
  lines.foldlM (fun known line ↦ do
    let sc ← known.1.declareIn module load line
    return (sc, known.2.note known.1 line)) ({ classes }, {})

/-- The outline is only noted: scripts are accepted, and refused, as they are without it. -/
theorem fst_map_ofLines (module : String) (classes : List ClassSignature)
    (load : String → Loading ρ Module) (lines : List Line) :
    Prod.fst <$> Outline.ofLines module classes load lines =
      Scope.ofLines module classes load lines := by
  unfold Outline.ofLines Scope.ofLines
  generalize ({ } : Outline) = o
  generalize ({ classes } : Scope) = sc
  induction lines generalizing sc o with
  | nil => simp
  | cons line lines ih =>
    rw [List.foldlM_cons, List.foldlM_cons, bind_assoc, map_bind]
    simp only [pure_bind, ih]

/-- The outline of an accepted script. -/
theorem exists_outline {module : String} {classes : List ClassSignature}
    {load : String → Loading ρ Module} {lines : List Line} {sc : Scope} {r r' : ρ}
    (h : (Scope.ofLines module classes load lines).run.run r = (.ok sc, r')) :
    ∃ o, (Outline.ofLines module classes load lines).run.run r = (.ok (sc, o), r') := by
  rw [← fst_map_ofLines, map_eq_pure_bind] at h
  obtain ⟨⟨sc', o⟩, r₁, accepted, h⟩ := run_bind_eq_ok h
  cases h
  exact ⟨o, accepted⟩

/-- A declaration in a named module is accepted as it is in any. -/
theorem run_declare_of_declareIn {module : String} {load : String → Loading ρ Module}
    {sc sc' : Scope} {line : Line} {r r' : ρ}
    (h : (sc.declareIn module load line).run.run r = (.ok sc', r')) :
    (sc.declare load line).run.run r = (.ok sc', r') := by
  unfold Scope.declareIn at h
  rw [run_tryCatch] at h
  split at h
  · next first => rw [first, h]
  · cases h

/-- An accepted line is noted in the outline. -/
theorem Outline.run_noted {module : String} {load : String → Loading ρ Module} {sc sc' : Scope}
    {line : Line} {r r' : ρ} (h : (sc.declareIn module load line).run.run r = (.ok sc', r'))
    (o : Outline) :
    (do
      let sc' ← sc.declareIn module load line
      return (sc', o.note sc line) : Loading ρ (Scope × Outline)).run.run r =
        (.ok (sc', o.note sc line), r') := by
  rw [run_bind, h]
  rfl

/-- What holds at the start of a script and is kept by every line of it that is accepted holds at
its end. -/
theorem Outline.ofLines_induction_mem {P : Scope → Outline → Prop} {module : String}
    {classes : List ClassSignature} {load : String → Loading ρ Module} {lines : List Line}
    {sc : Scope} {o : Outline} {r r' : ρ}
    (h : (Outline.ofLines module classes load lines).run.run r = (.ok (sc, o), r'))
    (start : P { classes } {})
    (step : ∀ sc o, ∀ line ∈ lines, ∀ sc', sc.Takes line sc' → P sc o → P sc' (o.note sc line)) :
    P sc o := by
  unfold Outline.ofLines at h
  generalize ({ } : Outline) = o₀ at h start
  generalize ({ classes } : Scope) = sc₀ at h start
  induction lines generalizing sc₀ o₀ r with
  | nil =>
    cases h
    exact start
  | cons line lines ih =>
    rw [List.foldlM_cons] at h
    obtain ⟨⟨sc₁, o₁⟩, r₁, first, h⟩ := run_bind_eq_ok h
    obtain ⟨sc₂, r₂, declared, noted⟩ := run_bind_eq_ok first
    cases noted
    have taken := Scope.takes_of_declare (run_declare_of_declareIn declared)
    have later := fun sc o line hl ↦ step sc o line (List.mem_cons_of_mem _ hl)
    exact ih later _ _ h (step sc₀ o₀ line List.mem_cons_self sc₁ taken start)

/-- What holds at the start of a script and is kept by every accepted line holds at its end. -/
theorem Outline.ofLines_induction {P : Scope → Outline → Prop} {module : String}
    {classes : List ClassSignature} {load : String → Loading ρ Module} {lines : List Line}
    {sc : Scope} {o : Outline} {r r' : ρ}
    (h : (Outline.ofLines module classes load lines).run.run r = (.ok (sc, o), r'))
    (start : P { classes } {})
    (step : ∀ sc o line sc', sc.Takes line sc' → P sc o → P sc' (o.note sc line)) : P sc o :=
  Outline.ofLines_induction_mem h start fun sc o line _ ↦ step sc o line

end

/-- A module as it is written. -/
structure WrittenModule where
  name : String
  nodes : List WrittenNode

/-- The modules that a scope imports are those of a library. -/
def Scope.ImportsFrom (sc : Scope) (library : Library) : Prop :=
  ∀ e ∈ sc.imports, library.module? e.2.id = some e.2

/-- The modules of a library were compiled from these scripts, one after the other. What a script
imports was compiled before it, and it may be given a whitelist of its own. -/
inductive Compiles : List WrittenModule → Library → Prop where
  | nothing : Compiles [] {}
  | script {texts : List WrittenModule} {library : Library} {ρ : Type}
      {load : String → Loading ρ Module} {r r' : ρ} {name : String}
      {classes : List ClassSignature} {lines : List Line} {sc : Scope} {o : Outline}
      (whitelist : Option Whitelist) (before : Compiles texts library)
      (accepted : (Outline.ofLines name classes load lines).run.run r = (.ok (sc, o), r'))
      (imports : sc.ImportsFrom library) :
      Compiles (texts ++ [⟨name, o.nodes⟩]) (library.push (sc.toModule library name whitelist))

/-- Compiled modules with the scripts that they come from. -/
structure Program where
  texts : List WrittenModule
  library : Library
  compiled : Compiles texts library

end Formulary
