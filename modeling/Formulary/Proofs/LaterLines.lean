import Formulary.Proofs.BothSides
import Formulary.Proofs.Recomputation
import Mathlib.Data.List.Nodup

/-!
# Lines that come later

A script may go on with more lines that begin a node. The nodes before them stay as they are
(`Scope.TakesAll.drafts_isPrefix`), also if the script is compiled to another module then, with
another number (`Numbering.exchange`). Nothing that can be evaluated on these nodes comes to the
later ones, so it does the same in both modules (`Program.later_lines_change_nothing`).
-/

namespace Formulary

/-! ### Scripts that go on -/

/-- A node header comes first, or does so after imports. -/
inductive OpensNode : List Line → Prop where
  | header {line : Line} {rest : List Line} {name : String} {path : Option NodePath}
      (hd : line.declaration = .node name path) : OpensNode (line :: rest)
  | imports {line : Line} {rest : List Line} {name : String}
      (hd : line.declaration = .imports name) (later : OpensNode rest) : OpensNode (line :: rest)

namespace Scope

variable {sc sc' sc₁ : Scope} {line : Line} {lines : List Line}

theorem Takes.closed_isPrefix (h : sc.Takes line sc₁) : sc.closed <+: sc₁.closed := by
  cases h with
  | again | imports | member => exact List.prefix_rfl
  | node => exact List.prefix_append _ _

theorem TakesAll.closed_isPrefix (h : sc.TakesAll lines sc') : sc.closed <+: sc'.closed := by
  induction h with
  | nil => exact List.prefix_rfl
  | cons first _ ih => exact first.closed_isPrefix.trans ih

/-- Lines that begin a node add to the nodes before them and change none. -/
theorem TakesAll.drafts_isPrefix (h : sc.TakesAll lines sc') (opens : OpensNode lines) :
    sc.drafts <+: sc'.drafts := by
  induction opens generalizing sc with
  | header hd =>
    cases h with
    | cons first rest =>
      obtain ⟨parent, -, rfl⟩ := first.node_cases hd
      exact rest.closed_isPrefix.trans (List.prefix_append _ _)
  | imports hd _ ih =>
    cases h with
    | cons first rest =>
      have later := ih rest
      rcases first.import_cases hd with ⟨-, rfl⟩ | ⟨-, m, rfl⟩ <;> exact later

/-- Nodes that were added change none of the compiled nodes before. -/
theorem nodes_isPrefix (h : sc.drafts <+: sc'.drafts) (library : Library) (name : String)
    (whitelist : Option Whitelist) :
    (sc.toModule library name whitelist).nodes.toList <+:
      (sc'.toModule library name whitelist).nodes.toList := by
  obtain ⟨added, same⟩ := h
  have grows (nodes : Array Node) : nodes.toList <+: (added.foldl (fun nodes d ↦
      nodes.push (d.toNode library library.nextId name nodes)) nodes).toList := by
    clear same
    induction added generalizing nodes with
    | nil => exact List.prefix_rfl
    | cons d added ih =>
      refine .trans ?_ (ih _)
      rw [Array.toList_push]
      exact List.prefix_append _ _
  simp only [toModule, ← same, List.foldl_append]
  exact grows _

/-- No name is imported twice. -/
theorem TakesAll.nodup_imports (h : sc.TakesAll lines sc')
    (nodup : (sc.imports.map Prod.fst).Nodup) : (sc'.imports.map Prod.fst).Nodup := by
  induction h with
  | nil => exact nodup
  | cons first _ ih =>
    apply ih
    cases first with
    | imports m hd new =>
      rw [Ordered.keys_put]
      exact Ordered.nodup_add nodup
    | _ => exact nodup

end Scope

section

variable {m m' : Module} (nodes : m.nodes.toList <+: m'.nodes.toList)
include nodes

theorem Module.getElem?_nodes_of_isPrefix {i : Nat} {node : Node} (h : m.nodes[i]? = some node) :
    m'.nodes[i]? = some node := by
  obtain ⟨added, same⟩ := nodes
  rw [← Array.getElem?_toList] at h ⊢
  rw [← same, List.getElem?_append_left (List.getElem?_eq_some_iff.mp h).1, h]

theorem Module.node?_of_isPrefix (id : m'.id = m.id) (name : m'.name = m.name) {x : String}
    {ref : NodeRef} (h : m.node? x = some ref) : m'.node? x = some ref := by
  obtain ⟨added, same⟩ := nodes
  rw [node?_eq] at h ⊢
  obtain ⟨index, found, rfl⟩ := Option.map_eq_some_iff.mp h
  rw [offers] at found ⊢
  rw [← same, List.map_append, List.findIdx?_append, found, id, name]
  rfl

end

/-! ### The same script twice -/

/-- What is imported under one name by both of two scripts is the same module. -/
def Scope.Resolves (sc sc' : Scope) : Prop :=
  ∀ e ∈ sc.imports, ∀ e' ∈ sc'.imports, e'.1 = e.1 → e'.2 = e.2

/-- Modules that both of two libraries have under one number are the same. -/
def Library.Agrees (library library' : Library) : Prop :=
  ∀ ⦃id m m'⦄, library.module? id = some m → library'.module? id = some m' → m' = m

theorem Library.lt_nextId {library : Library} {id : Nat} {m : Module}
    (h : library.module? id = some m) : id < library.nextId :=
  (Array.getElem?_eq_some_iff.mp h).1

/-- A script that is compiled twice, with twins in place of the other's imports, gives twins. -/
theorem Scope.TakesAll.twin {f : Nat → Nat} {library library' : Library}
    {classes : List ClassSignature} {lines : List Line} {sc sc' : Scope}
    (taken : Scope.TakesAll { classes } lines sc) (taken' : Scope.TakesAll { classes } lines sc')
    (left : sc.ImportsFrom library) (right : sc'.ImportsFrom library')
    (twins : ∀ e ∈ sc.imports, ∀ e' ∈ sc'.imports, e'.1 = e.1 → e.2.Twin f e'.2)
    (number : library'.nextId = f library.nextId) (name : String) (whitelist : Option Whitelist) :
    (sc.toModule library name whitelist).Twin f (sc'.toModule library' name whitelist) := by
  have start : Scope.Alike f library library' { classes } { classes } :=
    ⟨rfl, .nil, fun _ he ↦ (by cases he), fun _ he ↦ (by cases he), .nil, .none⟩
  exact (taken.alike taken' start left right twins).toModule number name whitelist

/-- A script is accepted without the outline as it is with it. -/
theorem Outline.run_scope {ρ : Type} {load : String → Loading ρ Module} {name : String}
    {classes : List ClassSignature} {lines : List Line} {sc : Scope} {o : Outline} {r r' : ρ}
    (h : (Outline.ofLines name classes load lines).run.run r = (.ok (sc, o), r')) :
    (Scope.ofLines name classes load lines).run.run r = (.ok sc, r') := by
  rw [← fst_map_ofLines, map_eq_pure_bind, run_bind, h]
  rfl

/-- A module is a twin of itself if the numbers up to its own stay. -/
theorem Program.twin_self (p : Program) {f : Nat → Nat} {id : Nat} {m : Module}
    (found : p.library.module? id = some m) (fixed : ∀ k ≤ id, f k = k) : m.Twin f m := by
  have compiled := p.compiled
  generalize p.library = library at compiled found
  generalize p.texts = texts at compiled
  induction compiled generalizing id m with
  | nothing => simp [Library.module?] at found
  | @script _ library _ _ _ _ name _ _ sc _ whitelist before accepted imports ih =>
    rcases Library.module?_push_cases found with earlier | ⟨rfl, rfl⟩
    · exact ih fixed earlier
    · have taken := Scope.takesAll_of_run (Outline.run_scope accepted)
      refine taken.twin taken imports imports (fun e he e' he' same ↦ ?_)
        (fixed _ (Nat.le_refl _)).symm name whitelist
      rw [List.inj_on_of_nodup_map (taken.nodup_imports .nil) he' he same]
      have smaller := Library.lt_nextId (imports e he)
      exact ih (fun k hk ↦ fixed k (Nat.le_trans hk (Nat.le_of_lt smaller))) (imports e he)

/-! ### Numbers -/

/-- The module with the number `a` on one side has the number `a'` on the other. Smaller numbers, if
both sides have them, mean the same on both; no other number is common to both. -/
def Numbering.exchange (a a' : Nat) : Numbering where
  number way id :=
    if id < a ∧ id < a' then id else if id = a then a' else a + a' + 1 + 2 * id + way.toNat
  injective way i j same := by
    dsimp only at same
    split_ifs at same <;> omega

theorem Numbering.exchange_of_lt {a a' id : Nat} (h : id < a) (h' : id < a') (way : Bool) :
    (exchange a a').number way id = id := if_pos ⟨h, h'⟩

theorem Numbering.exchange_self (a a' : Nat) (way : Bool) : (exchange a a').number way a = a' := by
  simp [exchange]

theorem Numbering.exchange_cases {a a' id id' : Nat}
    (h : ∀ way, (exchange a a').number way id = id') :
    id < a ∧ id < a' ∧ id' = id ∨ id = a ∧ id' = a' := by
  have first := h false
  have second := h true
  simp only [exchange, Bool.toNat_false, Bool.toNat_true] at first second
  split at first
  · next small => exact .inl ⟨small.1, small.2, first.symm⟩
  · split at first
    · next same => exact .inr ⟨same, first.symm⟩
    · next large other =>
      rw [if_neg large, if_neg other] at second
      omega

section

variable {σ : Type} {p p' : Program} {classes : List ClassSignature} {lines : List Line}
  {sc sc' : Scope}

/-- A module that both of two programs have, under one number, is the same in both. -/
theorem Library.Agrees.twin (agree : p.library.Agrees p'.library) {id : Nat} {m m' : Module}
    (found : p.library.module? id = some m) (found' : p'.library.module? id = some m')
    (way : Bool) :
    m.Twin ((Numbering.exchange p.library.nextId p'.library.nextId).number way) m' := by
  rw [agree found found']
  exact p.twin_self found fun k hk ↦ Numbering.exchange_of_lt
    (Nat.lt_of_le_of_lt hk (Library.lt_nextId found))
    (Nat.lt_of_le_of_lt hk (Library.lt_nextId found')) way

/-- One script that is compiled in two programs gives twins. -/
theorem Library.Agrees.twin_toModule (agree : p.library.Agrees p'.library)
    (taken : Scope.TakesAll { classes } lines sc) (taken' : Scope.TakesAll { classes } lines sc')
    (imports : sc.ImportsFrom p.library) (imports' : sc'.ImportsFrom p'.library)
    (resolved : sc.Resolves sc') (name : String) (whitelist : Option Whitelist) (way : Bool) :
    (sc.toModule p.library name whitelist).Twin
      ((Numbering.exchange p.library.nextId p'.library.nextId).number way)
      (sc'.toModule p'.library name whitelist) := by
  refine taken.twin taken' imports imports' (fun e he e' he' same ↦ ?_)
    (Numbering.exchange_self _ _ way).symm name whitelist
  have here := imports' e' he'
  rw [resolved e he e' he' same] at here ⊢
  exact agree.twin (imports e he) here way

/-- Programs with twins added to them mirror each other in what both had before, and in these. -/
theorem Library.Agrees.mirrors (agree : p.library.Agrees p'.library) {m m' : Module} (twin : ∀ way,
      m.Twin ((Numbering.exchange p.library.nextId p'.library.nextId).number way) m')
    (host : Host σ) (policy : Whitelist) :
    (Numbering.exchange p.library.nextId p'.library.nextId).Mirrors
      ⟨p.library.push m, host, policy, Value.send⟩
      ⟨p'.library.push m', host, policy, Value.send⟩ := by
  refine ⟨rfl, rfl, ⟨rfl, rfl⟩, fun {id id'} same ↦ ?_⟩
  rcases Numbering.exchange_cases same with ⟨small, small', rfl⟩ | ⟨rfl, rfl⟩
  · have found : p.library.module? id' = some p.library.modules[id'] :=
      Array.getElem?_eq_getElem small
    have found' : p'.library.module? id' = some p'.library.modules[id'] :=
      Array.getElem?_eq_getElem small'
    exact ⟨_, _, Library.Within.push _ m _ _ found, Library.Within.push _ m' _ _ found',
      agree.twin found found'⟩
  · exact ⟨m, m', Registry.module?_nextId_push _ _, Registry.module?_nextId_push _ _, twin⟩

/-- A module with more nodes treats those that were there before as it did. -/
theorem alike_of_isPrefix {library : Library} {m m' : Module}
    (nodes : m.nodes.toList <+: m'.nodes.toList) (whitelist : m'.whitelist = m.whitelist)
    {host : Host σ} {policy : Whitelist} {good : Value → Prop}
    (there : ∀ {ref}, good (.node ref) → ∃ node, (library.push m).node? ref = some node) :
    Setting.Alike ⟨library.push m, host, policy, Value.send⟩
      ⟨library.push m', host, policy, Value.send⟩ good where
  slot {ref} hr attr := by
    obtain ⟨node, found⟩ := there hr
    have found' : (library.push m').node? ref = some node := by
      obtain ⟨t, ht, hn⟩ := Option.bind_eq_some_iff.mp found
      rcases Library.module?_push_cases ht with before | ⟨last, rfl⟩
      · exact Option.bind_eq_some_iff.mpr ⟨t, Library.Within.push _ m' _ _ before, hn⟩
      · refine Option.bind_eq_some_iff.mpr ⟨m', ?_, Module.getElem?_nodes_of_isPrefix nodes hn⟩
        rw [last]
        exact Registry.module?_nextId_push _ _
    rw [Library.slot?, Library.slot?, found, found']
  method {ref attr slot} _ _ := by
    have same : Setting.whitelistOf ⟨library.push m', host, policy, Value.send⟩ slot.home =
        Setting.whitelistOf ⟨library.push m, host, policy, Value.send⟩ slot.home := by
      simp only [Setting.whitelistOf, Library.module?, Library.push, Array.getElem?_push]
      split
      · rw [Option.bind_some, Option.bind_some, whitelist]
      · rfl
    funext receiver method args
    unfold Setting.callMethod
    rw [same]
    rfl
  function := rfl

end

/-! ### Evaluations -/

/-- On the nodes of the first engine's library, as far as both sides have them, the second engine
does what the first one does: it gives the same values, up to the numbers of modules, or the same
fault, and leaves the same world behind, with the same log of host calls. -/
structure Engine.Preserves {σ : Type} (n : Numbering) {h : Host σ} (blind : h.Blind)
    (ok : σ → Prop) (e e' : Engine σ) : Prop where
  evaluate : ∀ {x ref} attr {params params'}, e.node x = .ok ref → n.Entries params params' →
    (Value.map params').MentionsOnly (n.Image e.setting.library) →
    Matches (n.WorldsWithin e.setting.library blind ok) (n.ValuesWithin e.setting.library)
      (e.evaluate x attr params) (e'.evaluate x attr params')
  read : ∀ {ref ref'} held env attr, n.Source e.setting.library ref → n.Refs ref ref' →
    Matches (n.WorldsWithin e.setting.library blind ok) (n.ValuesWithin e.setting.library)
      (e.read held env ref attr) (e'.read held env ref' attr)

section

variable {σ : Type} {e : Engine σ} {x : String} {ref : NodeRef}

theorem Engine.node_eq_ok_iff : e.node x = .ok ref ↔ e.module.node? x = some ref := by
  rw [Engine.node]
  cases e.module.node? x with
  | none => exact ⟨fun h ↦ (by cases h), fun h ↦ (by cases h)⟩
  | some found => exact ⟨fun h ↦ (by cases h; rfl), fun h ↦ (by cases h; rfl)⟩

theorem Engine.evaluate_of_node (h : e.node x = .ok ref) (attr : String)
    (params : List (Value × Value)) :
    e.evaluate x attr params = (do
      let env ← Eval.newEnv params
      e.read [] env ref attr) := by
  rw [evaluate, h]
  rfl

end

section

variable {σ : Type} {n : Numbering} {p : Program} {host : Host σ} {policy : Whitelist}
  {depth : Nat} {e : Engine σ} {library : Library} {m m' : Module} {ok : σ → Prop}

/-- An engine that mirrors another one is preserved by a module with more nodes in place of its
own, since evaluation that starts with the nodes before does not come to the later ones. -/
theorem Engine.Mirrors.preserves (compiled : p.library = library.push m)
    (mirrors : Mirrors n e ⟨⟨library.push m, host, policy, Value.send⟩, m, depth⟩)
    (own : ∀ {x ref}, e.node x = .ok ref → ∃ node, e.setting.library.node? ref = some node)
    (nodes : m.nodes.toList <+: m'.nodes.toList) (id : m'.id = m.id) (name : m'.name = m.name)
    (whitelist : m'.whitelist = m.whitelist) (blind : e.setting.host.Blind)
    (keeps : e.setting.host.Keeps (Value.MentionsOnly (n.Source e.setting.library)) ok) :
    Preserves n blind ok e ⟨⟨library.push m', host, policy, Value.send⟩, m', depth⟩ := by
  let s : Setting σ := ⟨library.push m, host, policy, Value.send⟩
  let s' : Setting σ := ⟨library.push m', host, policy, Value.send⟩
  let fine := World.Among (Value.MentionsOnly (n.Image e.setting.library)) (n.States blind ok)
  have keep := Value.valuesKeep_mentionsOnly (n.Image e.setting.library)
  have regime : Regime s (Value.MentionsOnly (n.Image e.setting.library)) fine := by
    have same : p.setting host policy = s := by rw [Program.setting, compiled]
    rw [← same]
    refine p.regime_image (same ▸ mirrors.setting) ?_
    have hosts : host = e.setting.host := mirrors.setting.host
    subst hosts
    exact Numbering.keeps_image blind keeps
  have reads : ∀ held env ref' attr, (Value.node ref').MentionsOnly (n.Image e.setting.library) →
      (confined Bool fine).Holds (Value.MentionsOnly (n.Image e.setting.library))
        fun i ↦ readAttr (bif i then s' else s) depth held env ref' attr := by
    intro held
    refine regime.readAttr (t := fun i ↦ bif i then s' else s) false keep (fun i ↦ ?_) depth _
      (Regime.heldAlike_const held)
    cases i with
    | false => exact .refl _ _
    | true =>
      refine alike_of_isPrefix nodes whitelist fun {ref'} hr ↦ ?_
      exact ((mirrors.setting.has_iff ref').mpr (Value.mentionsOnly_node_iff.mp hr)).2
  have image {ref ref' : NodeRef} (source : n.Source e.setting.library ref)
      (refs : n.Refs ref ref') : (Value.node ref').MentionsOnly (n.Image e.setting.library) :=
    Value.mentionsOnly_node_iff.mpr ⟨ref, source, refs⟩
  constructor
  case read =>
    intro ref ref' held env attr source refs
    have reading := mirrors.read blind held env attr refs
    rw [Engine.read] at reading ⊢
    exact Numbering.matches_within (reads held env ref' attr (image source refs)) reading
  case evaluate =>
    intro x ref attr params params' found hp among
    have agree := mirrors.node x
    rw [found] at agree
    obtain ⟨ref', found', refs⟩ := agree.exists_right
    have source : n.Source e.setting.library ref := ⟨own found, ref', refs⟩
    have evaluates : (confined Bool fine).Holds
        (Value.MentionsOnly (n.Image e.setting.library)) fun i ↦ (do
          let env ← Eval.newEnv params'
          readAttr (bif i then s' else s) depth [] env ref' attr) :=
      (confined Bool fine).holds_bind (regime.confined_newEnv among) fun env _ ↦
        reads [] env ref' attr (image source refs)
    have there : Engine.node ⟨s', m', depth⟩ x = .ok ref' := Engine.node_eq_ok_iff.mpr
      (Module.node?_of_isPrefix nodes id name (Engine.node_eq_ok_iff.mp found'))
    have matching := (mirrors.indistinct blind).evaluate x attr hp
    rw [Engine.evaluate_of_node found'] at matching
    rw [Engine.evaluate_of_node there]
    exact Numbering.matches_within evaluates matching

end

/-- A script is accepted, and so is the script with more lines after it that begin a node. Modules
that both import under one name are the same, and so are those that both of the programs have in
which the scripts are compiled. Then each node of the first module is the same in the second one, up
to the numbers of modules, and whatever is evaluated on these nodes does the same in both, for a
host to which the numbers of modules mean nothing and that makes up no nodes. -/
theorem Program.later_lines_change_nothing (p p' : Program) {ρ ρ' : Type}
    {load : String → Loading ρ Module} {load' : String → Loading ρ' Module} {name : String}
    {classes : List ClassSignature} {lines more : List Line} {sc sc' : Scope} {r q : ρ}
    {r' q' : ρ'} (accepted : (Scope.ofLines name classes load lines).run.run r = (.ok sc, q))
    (accepted' : (Scope.ofLines name classes load' (lines ++ more)).run.run r' = (.ok sc', q'))
    (opens : OpensNode more) (imports : sc.ImportsFrom p.library)
    (imports' : sc'.ImportsFrom p'.library) (resolved : sc.Resolves sc')
    (agree : p.library.Agrees p'.library) (whitelist : Option Whitelist) :
    let m := sc.toModule p.library name whitelist
    let m' := sc'.toModule p'.library name whitelist
    let n := Numbering.exchange m.id m'.id
    (∀ (i : Nat) (node : Node), m.nodes[i]? = some node →
      ∃ node', m'.nodes[i]? = some node' ∧ ∀ way, node.Twin (n.number way) node') ∧
    ∀ {σ : Type} (host : Host σ) (blind : host.Blind) (ok : σ → Prop) (policy : Whitelist)
      (depth : Nat),
      let e : Engine σ := ⟨⟨p.library.push m, host, policy, Value.send⟩, m, depth⟩
      let e' : Engine σ := ⟨⟨p'.library.push m', host, policy, Value.send⟩, m', depth⟩
      host.Keeps (Value.MentionsOnly (n.Source e.setting.library)) ok →
        e.Preserves n blind ok e' := by
  intro m m' n
  -- The second script is cut where the first one ends.
  rw [Scope.ofLines, List.foldlM_append] at accepted'
  obtain ⟨sc₁, q₁, first, rest⟩ := run_bind_eq_ok accepted'
  have later := Scope.takesAll_of_run rest
  have imports₁ : sc₁.ImportsFrom p'.library := fun e he ↦ imports' e (later.imports_subset e he)
  have resolved₁ : sc.Resolves sc₁ :=
    fun e he e' he' ↦ resolved e he e' (later.imports_subset e' he')
  let m₁ := sc₁.toModule p'.library name whitelist
  have nodes : m₁.nodes.toList <+: m'.nodes.toList :=
    Scope.nodes_isPrefix (later.drafts_isPrefix opens) _ _ _
  have twin : ∀ way, m.Twin (n.number way) m₁ :=
    agree.twin_toModule (Scope.takesAll_of_run accepted) (Scope.takesAll_of_run first) imports
      imports₁ resolved₁ name whitelist
  constructor
  · intro i node found
    obtain ⟨node', found', -⟩ := (twin true).node found
    refine ⟨node', Module.getElem?_nodes_of_isPrefix nodes found', fun way ↦ ?_⟩
    obtain ⟨_, there, same⟩ := (twin way).node found
    cases found'.symm.trans there
    exact same
  · intro σ host blind ok policy depth e e' keeps
    obtain ⟨o, outlined⟩ := exists_outline first
    have mirrors : Engine.Mirrors n e ⟨⟨p'.library.push m₁, host, policy, Value.send⟩, m₁, depth⟩ :=
      ⟨agree.mirrors twin host policy, twin, rfl⟩
    refine mirrors.preserves (p := p'.push whitelist outlined imports₁) rfl ?_ nodes rfl rfl rfl
      blind keeps
    intro x ref found
    obtain ⟨id, -, -, node, hn, -⟩ := Module.node?_eq_some (Engine.node_eq_ok_iff.mp found)
    refine ⟨node, Option.bind_eq_some_iff.mpr ⟨m, ?_, hn⟩⟩
    rw [id]
    exact Registry.module?_nextId_push _ _

/-! In the script of `Reentry` a function of the host's class `Counter` is called. It may go on with
an import and with a node of that name, which inherits from `A` and replaces `x`. -/

namespace Reentry

def more : List Line :=
  [⟨4, default, .imports "Base"⟩, ⟨5, default, .node "Counter" (some ⟨none, "A"⟩)⟩,
    ⟨6, default, .formula "x" (.literal default (.int 2))⟩]

theorem opens_more : OpensNode more := .imports rfl (.header rfl)

/-- The scope after the import. -/
def imported : Scope :=
  { Scope.having classes "A" [memberX, memberY] with imports := [("Base", Heir.base)] }

/-- The scope in which the later node is open and has these members. -/
def inCounter (visible : Dependencies) (members : List Member) : Scope :=
  { imported with
    closed := imported.drafts
    current := some ⟨"Counter", some (.own 0 "A"), visible, members⟩ }

/-- The names on `A`, which are those on the later node. -/
def names : Dependencies := .of [memberX, memberY]

def memberTwo : Member := ⟨"x", 6, .formula (.const (.int 2)), []⟩

theorem accepted_more :
    (Scope.ofLines "M" classes Heir.load (script.lines ++ more)).run.run () =
      (.ok (inCounter (names.insert "x" []) [memberTwo]), ()) := by
  have before : (script.lines.foldlM (Scope.declareIn "M" Heir.load) { classes }).run.run () =
      (.ok (Scope.having classes "A" [memberX, memberY]), ()) := script.run_ofLines Heir.load ()
  have loaded : ((Scope.having classes "A" [memberX, memberY]).declareIn "M" Heir.load
      ⟨4, default, .imports "Base"⟩).run.run () = (.ok imported, ()) := rfl
  have opened : (imported.declareIn "M" Heir.load
      ⟨5, default, .node "Counter" (some ⟨none, "A"⟩)⟩).run.run () =
        (.ok (inCounter names []), ()) := rfl
  have replaced : ((inCounter names []).declareIn "M" Heir.load
      ⟨6, default, .formula "x" (.literal default (.int 2))⟩).run.run () =
        (.ok (inCounter (names.insert "x" []) [memberTwo]), ()) :=
    Scope.run_declareIn_of_member
      ⟨inCounter names [], 6, "x", .formula (.literal default (.int 2))⟩
      ⟨"Counter", some (.own 0 "A"), names, []⟩ memberTwo rfl rfl rfl rfl
      (Dependencies.isCyclic_insert_nil names "x") "M" Heir.load ()
  change ((script.lines ++ more).foldlM (Scope.declareIn "M" Heir.load) { classes }).run.run () = _
  rw [List.foldlM_append, run_bind, before]
  dsimp only
  rw [more, run_foldlM_cons loaded, run_foldlM_cons opened, run_foldlM_cons replaced]
  rfl

/-- What `x` of `A` is, and which calls are made for it, does not depend on the later lines. -/
theorem unchanged_x :
    let m' := (inCounter (names.insert "x" []) [memberTwo]).toModule Heir.program.library "M" none
    let engine' : Engine Samples.State :=
      ⟨⟨Heir.program.library.push m', Samples.host, {}, Value.send⟩, m', 10⟩
    let n := Numbering.exchange 0 1
    let first := (engine.evaluate "A" "x" []).run.run { host := {}, log := some [] }
    let second := (engine'.evaluate "A" "x" []).run.run { host := {}, log := some [] }
    (Scope.ofLines "M" classes Heir.load (script.lines ++ more)).run.run () =
      (.ok (inCounter (names.insert "x" []) [memberTwo]), ()) ∧ OpensNode more ∧
    Agree (n.ValuesWithin program.library) first.1 second.1 ∧
    n.WorldsWithin program.library Samples.blind (fun _ ↦ True) first.2 second.2 := by
  intro m' engine' n first second
  have imports : (inCounter (names.insert "x" []) [memberTwo]).ImportsFrom
      Heir.program.library := by
    intro e he
    cases List.mem_singleton.mp he
    rfl
  obtain ⟨-, preserves⟩ := Program.later_lines_change_nothing ⟨[], {}, .nothing⟩ Heir.program
    (script.run_ofLines Accepted.noImports ()) accepted_more opens_more (fun e he ↦ by cases he)
    imports (fun e he ↦ by cases he) (fun id m m' found ↦ by simp [Library.module?] at found) none
  have same := preserves Samples.host Samples.blind (fun _ ↦ True) {} 10
    (Samples.keeps (Value.every_leaf Value.mentions_of_ordinary) (Samples.every_record trivial))
  have empty : n.Entries [] [] := fun way ↦ rfl
  exact ⟨accepted_more, opens_more, same.evaluate "x" node_eq empty
    (Value.every_map Value.mentions_of_ordinary (List.forall_mem_nil _)) _ _
    (Numbering.worldsWithin_new _ trivial fun way ↦ rfl)⟩

end Reentry

end Formulary
