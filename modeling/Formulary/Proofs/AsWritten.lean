import Formulary.Engine
import Formulary.Method
import Formulary.Proofs.Checked
import Formulary.Proofs.Inheritance
import Formulary.Proofs.Meaning

/-!
# Evaluation as it is written

An evaluator that runs the scripts themselves: it looks a name up along the line of descent, and
computes what the definition found there says, with comprehension variables by name. The compiled
engine does the same in every world (`Program.evaluate_as_written`): it returns the same value or
fault, computes and keeps the same attributes, and calls the host in the same way.
-/

namespace Formulary

variable {σ : Type}

/-- What a definition computes. A parameter is what is given, or else its default. -/
def Definition.meaning (s : Setting σ) (read : Read (Eval σ)) (cx : Context) (d : Definition) :
    Eval σ Value :=
  match d.wording with
  | .formula e => e.meaning s read cx d.scope []
  | .param default => do
    match ← Eval.param? cx.env d.name with
    | some v => return v
    | none =>
      match default with
      | some e => e.meaning s read cx d.scope []
      | none => Eval.fail (.undefinedParam d.name)

/-- Running a member is what its definition means. -/
theorem runBody_of_member {d : Definition} {m : Member} (h : d.member = .ok m) (s : Setting σ)
    (read : Read (Eval σ)) (cx : Context) :
    runBody s read cx m.name m.body = d.meaning s read cx := by
  cases he : d.wording with
  | formula e =>
    simp only [Definition.member, he] at h
    obtain ⟨deps, code, -, hcode, rfl⟩ := bind₂_eq_ok h
    simp only [Definition.meaning, he]
    exact run_of_lower [] e code hcode
  | param default =>
    simp only [Definition.member, he] at h
    obtain ⟨deps, code, -, hcode, rfl⟩ := bind₂_eq_ok h
    simp only [Definition.meaning, he]
    refine bind_congr fun given ↦ ?_
    cases given with
    | some v => rfl
    | none =>
      cases default with
      | none =>
        rw [Scope.lowerOptional] at hcode
        cases hcode
        rfl
      | some e =>
        rw [Scope.lowerOptional] at hcode
        obtain ⟨c, hc, hcode⟩ := bind_eq_ok hcode
        cases hcode
        exact run_of_lower [] e c hc

/-- To run the code of a checked expression is to do what the expression means: once an expression
has passed the check, it has code. -/
theorem run_of_references (s : Setting σ) (read : Read (Eval σ)) (cx : Context) (sc : Scope)
    (e : Expr) :
    (do
      let _ ← sc.references (some e)
      let code ← sc.lower [] e
      return run s read cx [] code) =
    (do
      let _ ← sc.references (some e)
      return e.meaning s read cx sc []) := by
  cases h : sc.references (some e) with
  | error problem => rfl
  | ok deps =>
    obtain ⟨found, hcode⟩ := Scope.lowerOptional_of_references h
    rw [Scope.lowerOptional] at hcode
    obtain ⟨code, hcode, -⟩ := bind_eq_ok hcode
    rw [hcode]
    exact congrArg Except.ok (run_of_lower [] e code hcode)

/-- The frame left by a failure within a definition. -/
def Located.frame (l : Located) : Fault.Frame := ⟨l.homeName, l.definition.line, l.definition.name⟩

/-- The key under which an attribute of a node is kept. -/
def keyOf (texts : List WrittenModule) (node : NodeRef) (attr : String) : MemoKey :=
  ⟨node.module, node.index, (namesOn (lineage texts node.module node.index)).idxOf attr⟩

/-- Reads an attribute of a node in scripts: its value in the environment if it was computed there,
or else what the nearest definition on the line of descent computes. -/
def readWritten (texts : List WrittenModule) (s : Setting σ) : (depth : Nat) → Read (Eval σ)
  | 0, _, _, _, _ => throw .exhausted
  | depth + 1, held, env, node, attr =>
    match definition? attr (lineage texts node.module node.index) with
    | none => Eval.fail (.invalidAttribute attr s!"node {node.name}" "no such attribute")
    | some l => do
      let key := keyOf texts node attr
      match ← Eval.cached? env key with
      | some v => return v
      | none => do
        Eval.record (.entered env key l.frame)
        let v ← tryCatch (l.definition.meaning s (readWritten texts s depth)
            ⟨env, held, node, l.home, l.homeName⟩) fun stop ↦ do
          Eval.record (.left env key none)
          throw (stop.within l.frame)
        Eval.store env key v
        Eval.record (.left env key (some v))
        return v

/-- The node of a written module with a given name; `module` is the module's number. -/
def WrittenModule.node? (t : WrittenModule) (module : Nat) (name : String) : Option NodeRef :=
  (t.nodes.findIdx? fun w ↦ w.name == name).map fun index ↦ ⟨module, index, t.name, name⟩

/-- One attribute of a node in scripts, in an environment of its own. -/
def evaluateWritten (texts : List WrittenModule) (s : Setting σ) (depth module : Nat)
    (node attr : String) (params : List (Value × Value)) : Eval σ Value :=
  match texts[module]?.bind fun t ↦ t.node? module node with
  | none => Eval.fail (.undefinedNode node)
  | some ref => do
    let env ← Eval.newEnv params
    readWritten texts s depth [] env ref attr

namespace Program

/-- What evaluation in a program needs, with a host and a whitelist for modules without one. -/
def setting (p : Program) (host : Host σ) (whitelist : Whitelist) : Setting σ :=
  ⟨p.library, host, whitelist, Value.send⟩

/-- The engine of one module of a program. -/
def engine (p : Program) (module : Fin p.library.modules.size) (host : Host σ)
    (whitelist : Whitelist) (depth : Nat) : Engine σ :=
  ⟨p.setting host whitelist, p.library.modules[module], depth⟩

/-- Reading an attribute of compiled modules is reading it in their scripts. -/
theorem readAttr_eq_readWritten (p : Program) (host : Host σ) (whitelist : Whitelist)
    (depth : Nat) :
    readAttr (p.setting host whitelist) depth =
      readWritten p.texts (p.setting host whitelist) depth := by
  induction depth with
  | zero => rfl
  | succ depth ih =>
    funext held env node attr
    have hslot := p.slot?_rel node attr
    cases hs : p.library.slot? node attr with
    | none =>
      rw [readAttr_of_none (s := p.setting host whitelist) hs, readWritten]
      rw [hs] at hslot
      cases hd : definition? attr (p.lineage node) with
      | none =>
        rw [lineage] at hd
        simp only [hd]
      | some l => rw [hd] at hslot; cases hslot
    | some slot =>
      rw [readAttr_of_some (s := p.setting host whitelist) hs, readWritten]
      obtain ⟨l, hd, holds⟩ := exists_of_rel_right hslot hs
      have hid := p.slot?_id hs
      have hkey : (⟨node.module, node.index, slot.id⟩ : MemoKey) = keyOf p.texts node attr := by
        rw [keyOf, hid, lineage]
      have hframe : slot.frame = l.frame := by
        rw [Slot.frame, Located.frame, holds.homeName, Definition.name_of_member holds.member,
          Definition.line_of_member holds.member]
      rw [lineage] at hd
      simp only [hd, hkey]
      refine bind_congr fun cached ↦ ?_
      cases cached with
      | some v => rfl
      | none =>
        simp only [compute, hkey, hframe, holds.home, holds.homeName, ih,
          runBody_of_member holds.member]
        rfl

/-- Compiled modules are numbered in order. -/
theorem rendered (p : Program) (module : Fin p.library.modules.size) :
    ∃ t, p.texts[module.1]? = some t ∧ p.library.modules[module].Renders p.texts module.1 t :=
  exists_of_rel_left (renders_of_compiles p.compiled module.1) (Array.getElem?_eq_getElem _)

/-- A node is found by name in a compiled module where it is written. -/
theorem node?_eq (p : Program) (module : Fin p.library.modules.size) (name : String) :
    p.library.modules[module].node? name =
      p.texts[module.1]?.bind fun t ↦ t.node? module.1 name := by
  obtain ⟨t, ht, hr⟩ := p.rendered module
  have names : p.library.modules[module].nodes.toList.map Node.name =
      t.nodes.map WrittenNode.name :=
    map_eq_map_of_getElem? (fun j ↦ Array.getElem?_toList ▸ hr.nodes j) fun _ _ _ node ↦ node.name
  have found : (p.library.modules[module].nodes.findIdx? fun n ↦ n.name == name) =
      t.nodes.findIdx? fun w ↦ w.name == name := by
    calc
      _ = p.library.modules[module].nodes.toList.findIdx? fun n ↦ n.name == name := by
        rw [← List.findIdx?_toArray, Array.toArray_toList]
      _ = (p.library.modules[module].nodes.toList.map Node.name).findIdx? (· == name) := by
        rw [List.findIdx?_map]
        rfl
      _ = t.nodes.findIdx? fun w ↦ w.name == name := by
        rw [names, List.findIdx?_map]
        rfl
  rw [ht, Option.bind_some, Module.node?, WrittenModule.node?, found, hr.id, hr.name]

/-- The engine of a compiled module evaluates what the scripts say. Code of a checked expression
does what the expression means. Reading an attribute in any environment, whichever node calls are
being read, and evaluating one in a new environment, is the same function of the world as it is on
the scripts themselves: the result, the environments with their memos, the host's state and the log
are equal. -/
theorem evaluate_as_written (p : Program) (module : Fin p.library.modules.size) (host : Host σ)
    (whitelist : Whitelist) (depth : Nat) :
    (∀ (read : Read (Eval σ)) (cx : Context) (sc : Scope) (e : Expr),
      (do
        let _ ← sc.references (some e)
        let code ← sc.lower [] e
        return run (p.setting host whitelist) read cx [] code) =
      (do
        let _ ← sc.references (some e)
        return e.meaning (p.setting host whitelist) read cx sc [])) ∧
    (∀ held env node attr, (p.engine module host whitelist depth).read held env node attr =
      readWritten p.texts (p.setting host whitelist) depth held env node attr) ∧
    ∀ node attr params, (p.engine module host whitelist depth).evaluate node attr params =
      evaluateWritten p.texts (p.setting host whitelist) depth module.1 node attr params := by
  have same : (p.engine module host whitelist depth).read =
      readWritten p.texts (p.setting host whitelist) depth :=
    p.readAttr_eq_readWritten host whitelist depth
  refine ⟨run_of_references _, fun held env node attr ↦ by rw [same], fun node attr params ↦ ?_⟩
  rw [Engine.evaluate, same, evaluateWritten, ← p.node?_eq module node]
  cases found : p.library.modules[module].node? node with
  | none =>
    rw [Engine.node_of_none (e := p.engine module host whitelist depth) found]
    rfl
  | some ref =>
    rw [Engine.node_of_some (e := p.engine module host whitelist depth) found]
    rfl

end Program

end Formulary
