import Formulary.Proofs.Accepted
import Formulary.Proofs.AsWritten
import Formulary.Proofs.Bulk
import Formulary.Proofs.Cycles
import Formulary.Proofs.Lowered
import Formulary.Proofs.Remembering
import Mathlib.Data.List.Basic
import Mathlib.Data.Set.Finite.Basic
import Mathlib.Order.Filter.Finite

/-!
# Sharing a memo

Evaluating several attributes in one environment gives what each of them gives in an environment of
its own, and what an evaluator gives that remembers nothing
(`Program.evaluateMany_eq_separately`). This is so for code that makes no node calls and for hosts
whose answers depend on the arguments alone.
-/

namespace Formulary

variable {σ α β : Type}

/-! ### Evaluation without a memo -/

/-- Reads an attribute by computing it, whatever was computed before. -/
def readDirect (s : Setting σ) : (depth : Nat) → Read (Eval σ)
  | 0, _, _, _, _ => throw .exhausted
  | depth + 1, held, env, node, attr =>
    match s.library.slot? node attr with
    | none => Eval.fail (.invalidAttribute attr s!"node {node.name}" "no such attribute")
    | some slot =>
      tryCatch (runBody s (readDirect s depth) ⟨env, held, node, slot.home, slot.homeName⟩
        slot.member.name slot.member.body) fun stop ↦ throw (stop.within slot.frame)

namespace Engine

/-- One attribute of a node, without a memo. -/
def evaluateDirect (e : Engine σ) (depth : Nat) (node attr : String)
    (params : List (Value × Value)) : Eval σ Value := do
  let node ← Eval.ofExcept (e.node node)
  let env ← Eval.newEnv params
  readDirect e.setting depth [] env node attr

/-- Several attributes of a node, without a memo. -/
def evaluateManyDirect (e : Engine σ) (depth : Nat) (node : String) (attrs : List String)
    (params : List (Value × Value)) : Eval σ (List Value) := do
  let node ← Eval.ofExcept (e.node node)
  let env ← Eval.newEnv params
  attrs.mapM fun attr ↦ readDirect e.setting depth [] env node attr

end Engine

/-! ### What evaluation comes to -/

/-- The nodes that an evaluation may come to: the one that it starts on, those that the code of such
nodes names, those in the parameters, and those that the host answers with when it is given only
such nodes. -/
inductive Reaches (s : Setting σ) (params : List (Value × Value)) (start : NodeRef) :
    NodeRef → Prop where
  | start : Reaches s params start start
  | code {ref : NodeRef} {attr : String} {slot : Slot} {code : Code} {target : NodeTarget}
    (reached : Reaches s params start ref) (found : s.library.slot? ref attr = some slot)
    (body : slot.member.body.code? = some code) (names : (Code.node target).Within code) :
    Reaches s params start (target.ref slot.home slot.homeName)
  | param {entry : Value × Value} {ref : NodeRef} (given : entry ∈ params)
    (names : (Value.node ref).Within entry.1 ∨ (Value.node ref).Within entry.2) :
    Reaches s params start ref
  | host {args : List Value} {v : Value} {ref : NodeRef} (gives : s.host.Gives args v)
    (free : ∀ a ∈ args, a.CallFree)
    (known : ∀ a ∈ args, ∀ ref, (Value.node ref).Within a → Reaches s params start ref)
    (names : (Value.node ref).Within v) : Reaches s params start ref

/-- The code makes no node calls, neither on the node that an evaluation starts on nor on any that
it may come to. -/
def CallsNoNodes (s : Setting σ) (params : List (Value × Value)) (start : NodeRef) : Prop :=
  ∀ {ref attr slot code}, Reaches s params start ref → s.library.slot? ref attr = some slot →
    slot.member.body.code? = some code → ∀ target args, ¬(Code.call target args).Within code

/-- What is known of an evaluation that starts on a node. -/
def premises (s : Setting σ) (params : List (Value × Value)) (start : NodeRef) : Premises :=
  ⟨params, Reaches s params start⟩

section

variable {s : Setting σ} {params : List (Value × Value)} {start : NodeRef}

theorem premises_closed (pure : s.host.Pure)
    (free : ∀ entry ∈ params, BothOf Value.CallFree entry) :
    (premises s params start).Closed s.host where
  params entry given :=
    ⟨Value.every_among (free entry given).1 fun _ names ↦ .param given (.inl names),
      Value.every_among (free entry given).2 fun _ names ↦ .param given (.inr names)⟩
  answer gives good := by
    have callFree := pure.callFree gives fun a ha ↦ Value.callFree_of_every (good a ha)
    refine Value.every_among callFree fun ref names ↦ ?_
    exact .host gives (fun a ha ↦ Value.callFree_of_every (good a ha))
      (fun a ha ref within ↦ good a ha _ within) names

theorem good_literal (pr : Premises) (l : Literal) : pr.Good l.value :=
  Value.every_leaf Value.among_of_ordinary (Value.leaf_literal l)

/-- Code on a node that evaluation may come to is admitted. -/
theorem admits_code (calm : CallsNoNodes s params start) {ref : NodeRef} {attr : String}
    {slot : Slot} {code : Code} (reached : Reaches s params start ref)
    (found : s.library.slot? ref attr = some slot) (body : slot.member.body.code? = some code)
    (constants : code.Every Code.Spelled) :
    code.Every ((premises s params start).Admits slot.home slot.homeName) := by
  intro c within
  cases c with
  | call target args => exact calm reached found body target args within
  | node target => exact .code reached found body within
  | const v =>
    obtain ⟨l, rfl⟩ := constants _ within
    exact good_literal _ l
  | _ => trivial

end

/-! ### Evaluation as remembering -/

section

variable {pr : Premises} {env : Nat} {P : α → Prop} {Q : β → Prop}

/-- In a fit environment an evaluation does what is done to that environment alone. -/
def Mirrors (pr : Premises) (env : Nat) (P : α → Prop) (m : Eval σ α) (x : Remembering α) : Prop :=
  ∀ w e, w.envs[env]? = some e → pr.Fits e → ∃ e',
    x.run.run e = ((m.run.run w).1, e') ∧ (m.run.run w).2.envs[env]? = some e' ∧ pr.Fits e' ∧
      ∀ a, (m.run.run w).1 = .ok a → P a

/-- Attributes are read as questions are answered. -/
def Answers (pr : Premises) (env : Nat) (read : Read (Eval σ))
    (answer : NodeRef → String → Remembering Value) : Prop :=
  ∀ {ref}, pr.reached ref → ∀ held attr,
    Mirrors pr env pr.Good (read held env ref attr) (answer ref attr)

theorem mirrors_throw (stop : Stop) : Mirrors pr env P (throw stop : Eval σ α) (throw stop) := by
  intro w e he fits
  exact ⟨e, rfl, he, fits, fun a ha ↦ by cases ha⟩

theorem Mirrors.bind {m : Eval σ α} {x : Remembering α} {f : α → Eval σ β}
    {g : α → Remembering β} (hm : Mirrors pr env P m x)
    (hf : ∀ a, P a → Mirrors pr env Q (f a) (g a)) : Mirrors pr env Q (m >>= f) (x >>= g) := by
  intro w e he fits
  obtain ⟨e₁, ran, he₁, fits₁, hP⟩ := hm w e he fits
  rw [run_bind, run_bind, ran]
  cases here : m.run.run w with
  | mk result w₁ =>
    rw [here] at he₁ hP
    cases result with
    | error stop => exact ⟨e₁, rfl, he₁, fits₁, fun b hb ↦ by cases hb⟩
    | ok a => exact hf a (hP a rfl) w₁ e₁ he₁ fits₁

theorem mirrors_mapM {f : α → Eval σ β} {g : α → Remembering β} (items : List α)
    (h : ∀ a, Mirrors pr env Q (f a) (g a)) :
    Mirrors pr env (fun _ ↦ True) (items.mapM f) (items.mapM g) := by
  induction items with
  | nil =>
    intro w e he fits
    exact ⟨e, rfl, he, fits, fun _ _ ↦ trivial⟩
  | cons a items ih =>
    rw [List.mapM_cons, List.mapM_cons]
    refine (h a).bind fun b _ ↦ ih.bind fun bs _ ↦ ?_
    intro w e he fits
    exact ⟨e, rfl, he, fits, fun _ _ ↦ trivial⟩

variable {read : Read (Eval σ)} {answer : NodeRef → String → Remembering Value}

/-- A way to read attributes that answers questions is sound. -/
theorem Answers.sound (answers : Answers pr env read answer) {node : NodeRef}
    (reached : pr.reached node) (held : List Nat) :
    (⟨read, env, held, node⟩ : Way σ).Sound pr where
  node := reached
  ready {ref w} attr href ready := by
    obtain ⟨e, he, fits⟩ := ready
    obtain ⟨e', -, he', fits', -⟩ := answers href held attr w e he fits
    exact ⟨e', he', fits'⟩
  good {ref w attr v} href ready hv := by
    obtain ⟨e, he, fits⟩ := ready
    obtain ⟨e', -, -, -, good⟩ := answers href held attr w e he fits
    exact good v hv

/-- Following an inquiry is answering its questions. -/
theorem Follows.mirrors (answers : Answers pr env read answer) {node : NodeRef}
    (reached : pr.reached node) {held : List Nat} {t : Inquiry α} {w w' : World σ}
    {result : Except Stop α} (follows : Follows ⟨read, env, held, node⟩ t w result w')
    (proper : t.Proper pr P) {e : Env} (he : w.envs[env]? = some e) (fits : pr.Fits e) : ∃ e',
      (t.interpret fun other ↦ answer (other.getD node)).run.run e = (result, e') ∧
        w'.envs[env]? = some e' ∧ pr.Fits e' := by
  have sound := answers.sound reached held
  induction follows generalizing e with
  | done envs => exact ⟨e, run_interpret_done _ _ _, by rw [envs, he], fits⟩
  | @answered other attr next v result w w₀ w₁ w' envs ran rest ih =>
    have href := sound.reached proper.1
    obtain ⟨e₁, same, he₁, fits₁, good⟩ := answers href held attr w₀ e (by rw [envs, he]) fits
    simp only [Way.ask] at ran
    rw [ran] at same he₁ good
    rw [run_interpret_ask, same]
    exact ih (proper.2 v (good v rfl)) he₁ fits₁
  | @failed other attr next stop w w₀ w' envs ran =>
    have href := sound.reached proper.1
    obtain ⟨e₁, same, he₁, fits₁, -⟩ := answers href held attr w₀ e (by rw [envs, he]) fits
    simp only [Way.ask] at ran
    rw [ran] at same he₁
    rw [run_interpret_ask, same]
    exact ⟨e₁, rfl, he₁, fits₁⟩

end

section

variable {s : Setting σ} {pr : Premises} {tree : Slot → Inquiry Value} {env : Nat}

/-- The members of all nodes that evaluation may come to follow these inquiries. -/
def Describes (pr : Premises) (s : Setting σ) (tree : Slot → Inquiry Value) : Prop :=
  ∀ ref attr slot, pr.reached ref → s.library.slot? ref attr = some slot →
    (tree slot).Proper pr pr.Good ∧ ∀ way : Way σ, way.Sound pr → ∀ w, pr.Ready way.env w →
      let body := runBody s way.read ⟨way.env, way.held, way.node, slot.home, slot.homeName⟩
        slot.member.name slot.member.body
      Follows way (tree slot) w (body.run.run w).1 (body.run.run w).2

theorem exists_describes
    (h : ∀ ref attr slot, pr.reached ref → s.library.slot? ref attr = some slot →
      Inquires pr pr.Good fun way ↦ runBody s way.read
        ⟨way.env, way.held, way.node, slot.home, slot.homeName⟩ slot.member.name slot.member.body) :
    ∃ tree, Describes pr s tree := by
  classical
  let inquired (slot : Slot) : Prop := Inquires pr pr.Good fun way ↦ runBody s way.read
    ⟨way.env, way.held, way.node, slot.home, slot.homeName⟩ slot.member.name slot.member.body
  let tree : Slot → Inquiry Value := fun slot ↦
    if h : inquired slot then h.choose else .done (.error .exhausted)
  refine ⟨tree, fun ref attr slot reached found ↦ ?_⟩
  have here : inquired slot := h ref attr slot reached found
  have chosen : tree slot = here.choose := dif_pos here
  rw [chosen]
  exact here.choose_spec

theorem mirrors_runBody (describes : Describes pr s tree) {read : Read (Eval σ)}
    {answer : NodeRef → String → Remembering Value} (answers : Answers pr env read answer)
    {node : NodeRef} {attr : String} {slot : Slot} (reached : pr.reached node)
    (found : s.library.slot? node attr = some slot) (held : List Nat) :
    Mirrors pr env pr.Good (runBody s read ⟨env, held, node, slot.home, slot.homeName⟩
        slot.member.name slot.member.body)
      ((tree slot).interpret fun other ↦ answer (other.getD node)) := by
  intro w e he fits
  obtain ⟨proper, follows⟩ := describes node attr slot reached found
  have sound := answers.sound reached held
  have here := follows ⟨read, env, held, node⟩ sound w ⟨e, he, fits⟩
  obtain ⟨e', same, he', fits'⟩ := here.mirrors answers reached proper he fits
  exact ⟨e', same, he', fits', (here.keeps sound proper ⟨e, he, fits⟩).2⟩

theorem Premises.Fits.store {e : Env} {v : Value} (fits : pr.Fits e) (good : pr.Good v)
    (key : MemoKey) : pr.Fits (e.store key v) where
  params := fits.params
  memo {key' u} hu := by
    rw [Env.cached?_store] at hu
    split at hu
    · cases hu
      exact good
    · exact fits.memo hu

/-- Reading attributes is remembering answers. -/
theorem answers_readAttr (describes : Describes pr s tree) (depth : Nat) :
    Answers pr env (readAttr s depth) (remember s.library tree depth) := by
  induction depth with
  | zero => exact fun _ _ _ ↦ mirrors_throw .exhausted
  | succ depth ih =>
    intro node reached held attr
    cases found : s.library.slot? node attr with
    | none =>
      rw [readAttr_of_none found]
      simp only [remember, found]
      exact mirrors_throw (noAttribute node attr)
    | some slot =>
      intro w e he fits
      rw [readAttr_of_some found]
      simp only [run_bind, Eval.run_cached?, he, Option.bind_some]
      cases cached : e.cached? (node.key slot) with
      | some v =>
        rw [run_remember_hit found cached]
        exact ⟨e, rfl, he, fits, fun u hu ↦ by cases hu; exact fits.memo cached⟩
      | none =>
        rw [run_remember_miss found cached]
        simp only [run_compute]
        obtain ⟨e₁, same, he₁, fits₁, good⟩ := mirrors_runBody describes ih reached found held
          (w.logged (.entered env (node.key slot) slot.frame)) e he fits
        rw [same]
        cases ran : (runBody s (readAttr s depth) ⟨env, held, node, slot.home, slot.homeName⟩
            slot.member.name slot.member.body).run.run
              (w.logged (.entered env (node.key slot) slot.frame)) with
        | mk result w₁ =>
          rw [ran] at he₁ good
          cases result with
          | error stop => exact ⟨e₁, rfl, he₁, fits₁, fun u hu ↦ by cases hu⟩
          | ok v =>
            refine ⟨e₁.store (node.key slot) v, rfl, ?_, fits₁.store (good v rfl) _,
              fun u hu ↦ by cases hu; exact good v rfl⟩
            simp only [World.logged, Array.getElem?_modify, he₁, if_true]
            rfl

theorem run_ofExcept (x : Except Stop α) (e : Env) :
    (MonadExcept.ofExcept x : Remembering α).run.run e = (x, e) := by
  cases x with
  | ok a => rfl
  | error stop => rfl

/-- Answers that need no memo leave it alone. -/
theorem run_interpret_ofExcept (answer : Option NodeRef → String → Except Stop Value) (e : Env) :
    ∀ t : Inquiry α, (t.interpret fun other attr ↦
      (MonadExcept.ofExcept (answer other attr) : Remembering Value)).run.run e =
        (t.interpret answer, e)
  | .done result => by rw [run_interpret_done, interpret_done]
  | .ask other attr next => by
    rw [run_interpret_ask, run_ofExcept]
    simp only [Inquiry.interpret]
    cases answer other attr with
    | error stop => rfl
    | ok v => exact run_interpret_ofExcept answer e (next v)

/-- Reading attributes without a memo is finding answers without one. -/
theorem answers_readDirect (describes : Describes pr s tree) (depth : Nat) :
    Answers pr env (readDirect s depth) fun ref attr ↦
      MonadExcept.ofExcept (solve s.library tree depth ref attr) := by
  induction depth with
  | zero => exact fun _ _ _ ↦ mirrors_throw .exhausted
  | succ depth ih =>
    intro node reached held attr
    cases found : s.library.slot? node attr with
    | none =>
      simp only [readDirect, solve, found]
      exact mirrors_throw (noAttribute node attr)
    | some slot =>
      intro w e he fits
      simp only [readDirect, solve, found, run_tryCatch, run_ofExcept]
      obtain ⟨e₁, same, he₁, fits₁, good⟩ :=
        mirrors_runBody describes ih reached found held w e he fits
      rw [run_interpret_ofExcept fun other attr ↦ solve s.library tree depth (other.getD node) attr]
        at same
      cases ran : (runBody s (readDirect s depth) ⟨env, held, node, slot.home, slot.homeName⟩
          slot.member.name slot.member.body).run.run w with
      | mk result w₁ =>
        rw [ran] at same he₁ good
        obtain ⟨solved, rfl⟩ := Prod.mk.inj same
        rw [solved]
        cases result with
        | error stop => exact ⟨e, rfl, he₁, fits₁, fun u hu ↦ by cases hu⟩
        | ok v => exact ⟨e, rfl, he₁, fits₁, good⟩

end

/-! ### Results in turn -/

theorem mapM_congr_mem {ε : Type} {f g : α → Except ε β} {items : List α}
    (h : ∀ a ∈ items, f a = g a) : items.mapM f = items.mapM g := by
  induction items with
  | nil => rfl
  | cons a items ih =>
    obtain ⟨here, later⟩ := List.forall_mem_cons.mp h
    rw [List.mapM_cons, List.mapM_cons, here, ih later]

theorem run_mapM_ofExcept (f : α → Except Stop β) (items : List α) (e : Env) :
    (items.mapM fun a ↦ (MonadExcept.ofExcept (f a) : Remembering β)).run.run e =
      (items.mapM f, e) := by
  induction items with
  | nil => rfl
  | cons a items ih =>
    rw [List.mapM_cons, List.mapM_cons, run_bind, run_ofExcept]
    cases f a with
    | error stop => rfl
    | ok b =>
      change ((items.mapM fun a ↦ (MonadExcept.ofExcept (f a) : Remembering β)) >>= fun bs ↦
        (pure (b :: bs) : Remembering (List β))).run.run e = _
      rw [run_bind, ih]
      cases items.mapM f with
      | error stop | ok bs => rfl

/-! ### Engines -/

section

variable {pr : Premises} {P : α → Prop} {w : World σ}

/-- In an environment of its own an evaluation depends on nothing else in the world. -/
theorem Mirrors.fst_run_fresh {m : Eval σ α} {x : Remembering α}
    (mirrors : Mirrors pr w.envs.size P m x) :
    (m.run.run { w with envs := w.envs.push { params := pr.params } }).1 =
      (x.run.run { params := pr.params }).1 := by
  have fits : pr.Fits { params := pr.params } := by
    refine ⟨rfl, fun {key v} h ↦ ?_⟩
    simp [Env.cached?] at h
  obtain ⟨e', same, -⟩ := mirrors { w with envs := w.envs.push { params := pr.params } }
    { params := pr.params } Array.getElem?_push_size fits
  rw [same]

end

namespace Engine

variable {e : Engine σ} {node : String} {ref : NodeRef} {params : List (Value × Value)}
  {tree : Slot → Inquiry Value}

section

variable (found : e.node node = .ok ref)
  (describes : Describes (premises e.setting params ref) e.setting tree)
include found describes

theorem fst_run_evaluate (attr : String) (w : World σ) :
    ((e.evaluate node attr params).run.run w).1 =
      ((remember e.setting.library tree e.depth ref attr).run.run { params }).1 := by
  simp only [evaluate, found]
  exact (answers_readAttr describes e.depth .start [] attr).fst_run_fresh

theorem fst_run_evaluateMany (attrs : List String) (w : World σ) :
    ((e.evaluateMany node attrs params).run.run w).1 =
      ((attrs.mapM (remember e.setting.library tree e.depth ref)).run.run { params }).1 := by
  simp only [evaluateMany, found]
  exact (mirrors_mapM attrs fun attr ↦
    answers_readAttr describes e.depth .start [] attr).fst_run_fresh

theorem fst_run_evaluateDirect (depth : Nat) (attr : String) (w : World σ) :
    ((e.evaluateDirect depth node attr params).run.run w).1 =
      solve e.setting.library tree depth ref attr := by
  simp only [evaluateDirect, found]
  refine (answers_readDirect describes depth .start [] attr).fst_run_fresh.trans ?_
  rw [run_ofExcept]

theorem fst_run_evaluateManyDirect (depth : Nat) (attrs : List String) (w : World σ) :
    ((e.evaluateManyDirect depth node attrs params).run.run w).1 =
      attrs.mapM (solve e.setting.library tree depth ref) := by
  simp only [evaluateManyDirect, found]
  refine (mirrors_mapM attrs fun attr ↦
    answers_readDirect describes depth .start [] attr).fst_run_fresh.trans ?_
  rw [run_mapM_ofExcept]

end

end Engine

theorem Program.numbered (p : Program) : p.library.Numbered := by
  intro node attr attr' slot slot' found found' same
  obtain ⟨l, defined, -⟩ := exists_of_rel_right (p.slot?_rel node attr) found
  rw [p.slot?_id found, p.slot?_id found'] at same
  have named : attr ∈ namesOn (p.lineage node) := by
    rw [mem_namesOn_iff, defined]
    rfl
  exact (List.idxOf_inj named).mp same

/-- The members of a program are described by inquiries. -/
theorem Program.exists_describes (p : Program) {host : Host σ} {whitelist : Whitelist}
    {params : List (Value × Value)} {start : NodeRef} (pure : host.Pure)
    (calm : CallsNoNodes (p.setting host whitelist) params start)
    (free : ∀ entry ∈ params, BothOf Value.CallFree entry) :
    ∃ tree, Describes (premises (p.setting host whitelist) params start)
      (p.setting host whitelist) tree := by
  refine Formulary.exists_describes fun ref attr slot reached found ↦ ?_
  have closed : (premises (p.setting host whitelist) params start).Closed host :=
    premises_closed pure free
  refine inquires_runBody rfl pure closed slot.home slot.homeName slot.member.name
    fun code body ↦ ?_
  exact admits_code calm reached found body (p.constants found body)

/-! ### A small program -/

namespace Sample

/-- What `x` is. -/
def x : Expr := .literal default (.int 2)

/-- What `y` is: `x + 1`. -/
def y : Expr := .binary default .add (.ident default "x") (.literal default (.int 1))

def memberX : Member := ⟨"x", 2, .formula (.const (.int 2)), []⟩

def memberY : Member := ⟨"y", 3, .formula (.binary .add (.attr "x") (.const (.int 1))), ["x"]⟩

def definitionX : Definition := ⟨.having [] "A" [], 2, "x", .formula x⟩

def definitionY : Definition := ⟨.having [] "A" [memberX], 3, "y", .formula y⟩

theorem member_y : definitionY.member = .ok memberY := by
  have sees : (Scope.having [] "A" [memberX]).sees "x" = true := by
    simp [Scope.sees, Scope.having, Dependencies.of, memberX]
  have checked : (Scope.having [] "A" [memberX]).references (some y) = .ok ["x"] := by
    simp only [Scope.references, Scope.mentionsOptional, y, Scope.mentions, sees]
    rfl
  simp only [Definition.member, definitionY, checked]
  rfl

/-- A node with two formulas. -/
def script : Accepted "M" [] (.having [] "A" [memberX, memberY]) :=
  ((Accepted.node "M" [] "A" default).define ⟨2, default, .formula "x" x⟩ memberX rfl rfl rfl
    rfl).define ⟨3, default, .formula "y" y⟩ memberY rfl member_y rfl rfl

/-- The script as a program. -/
def program : Program := script.program rfl

/-- Its engine, on a host that lends nothing. -/
def engine : Engine Unit := program.engine ⟨0, by decide⟩ Host.bare {} 10

def ref : NodeRef := ⟨0, 0, "M", "A"⟩

theorem node_eq : engine.node "A" = .ok ref := by
  simp only [engine, Engine.node, Program.engine, program.node?_eq]
  rfl

theorem slot_x : engine.setting.library.slot? ref "x" = some ⟨0, 0, "M", memberX⟩ :=
  (program.slot?_of_own ref "x" rfl rfl rfl rfl rfl :)

theorem slot_y : engine.setting.library.slot? ref "y" = some ⟨1, 0, "M", memberY⟩ :=
  (program.slot?_of_own ref "y" rfl rfl rfl rfl member_y :)

theorem pure_bare : Host.bare.Pure where
  function h := by cases h
  invoke _ method _ := ⟨.error s!"no object has {method}", fun _ ↦ rfl⟩
  callFree h _ := by
    rcases h with ⟨_, _, _, _, h, _⟩ | ⟨_, _, _, h⟩
    · cases h
    · cases h

theorem callsNoNodes : CallsNoNodes engine.setting [] ref := by
  intro other attr slot code _ found body target args
  obtain ⟨t, ht, n, hn, d, hd, said⟩ := program.exists_mem_of_slot? found
  rw [List.mem_singleton.mp ht] at hn
  rw [List.mem_singleton.mp hn] at hd
  have calm : code.Every (· ≠ .call target args) := by
    rcases List.mem_cons.mp hd with rfl | hd
    · have member : definitionX.member = .ok memberX := rfl
      rw [← Except.ok.inj (member.symm.trans said)] at body
      cases body
      simp [Code.every_iff, Code.parts]
    · cases List.mem_singleton.mp hd
      rw [← Except.ok.inj (member_y.symm.trans said)] at body
      cases body
      simp [Code.every_iff, Code.parts]
  exact fun within ↦ calm _ within rfl

section

variable {env : Nat} {w : World Unit} (h : ∀ key, w.envs[env]?.bind (·.cached? key) = none)
include h

/-- Reading `x` where it was not computed. -/
theorem read_x (depth : Nat) : ∃ w',
    (readAttr engine.setting (depth + 1) [] env ref "x").run.run w = (.ok (.int 2), w') :=
  ⟨_, run_readAttr_of_body slot_x (h _) rfl⟩

/-- Reading `y` where nothing was computed. -/
theorem read_y (depth : Nat) : ∃ w',
    (readAttr engine.setting (depth + 2) [] env ref "y").run.run w = (.ok (.int 3), w') := by
  obtain ⟨w', inner⟩ := read_x (w := w.logged (.entered env ⟨0, 0, 1⟩ ⟨"M", 3, "y"⟩)) h depth
  have body : (runBody engine.setting (readAttr engine.setting (depth + 1)) ⟨env, [], ref, 0, "M"⟩
      "y" memberY.body).run.run (w.logged (.entered env ⟨0, 0, 1⟩ ⟨"M", 3, "y"⟩)) =
        (.ok (.int 3), w') := by
    change (readAttr engine.setting (depth + 1) [] env ref "x" >>= fun v ↦
      applyBinary _ [] .add v (.int 1)).run.run _ = _
    rw [run_bind, inner]
    rfl
  exact ⟨_, run_readAttr_of_body slot_y (h _) body⟩

end

end Sample

/-- Evaluating attributes of a node in one environment succeeds just if each of them does in an
environment of its own, and then gives their values in order; else it fails as the first of them
does that fails. An evaluator without a memo gives the same, if it may go deep enough. The worlds do
not matter, and attributes may be asked for in any order and more than once. All this is for code
and parameters without node calls, for a host whose answers depend on the arguments alone, and for
attributes of which each can be evaluated by itself without nesting too deep. -/
theorem Program.evaluateMany_eq_separately (p : Program) (module : Fin p.library.modules.size)
    (host : Host σ) (whitelist : Whitelist) (depth : Nat) (node : String) (ref : NodeRef)
    (attrs : List String) (params : List (Value × Value))
    (found : (p.engine module host whitelist depth).node node = .ok ref)
    (calm : CallsNoNodes (p.setting host whitelist) params ref) (pure : host.Pure)
    (free : ∀ entry ∈ params, BothOf Value.CallFree entry) (w : World σ) (ws : String → World σ)
    (ends : ∀ attr ∈ attrs, (((p.engine module host whitelist depth).evaluate node attr
      params).run.run (ws attr)).1 ≠ .error .exhausted) :
    let e := p.engine module host whitelist depth
    let alone attr := ((e.evaluate node attr params).run.run (ws attr)).1
    let together := ((e.evaluateMany node attrs params).run.run w).1
    (∀ values, together = .ok values ↔
      List.Forall₂ (fun attr value ↦ alone attr = .ok value) attrs values) ∧
    (∀ stop, together = .error stop ↔ ∃ before attr after, attrs = before ++ attr :: after ∧
      (∀ earlier ∈ before, ∃ value, alone earlier = .ok value) ∧ alone attr = .error stop) ∧
    ∃ least, ∀ deep ≥ least, ∀ w' : World σ,
      (∀ attr ∈ attrs, ((e.evaluateDirect deep node attr params).run.run w').1 = alone attr) ∧
      ((e.evaluateManyDirect deep node attrs params).run.run w').1 = together := by
  intro e alone together
  obtain ⟨tree, describes⟩ := p.exists_describes pure calm free
  let fresh : Env := { params }
  have sound : fresh.Sound p.library tree :=
    Env.sound_of_empty fun key ↦ by simp [fresh, Env.cached?]
  have remembered : ∀ attr,
      alone attr = ((remember p.library tree depth ref attr).run.run fresh).1 :=
    fun attr ↦ Engine.fst_run_evaluate found describes attr (ws attr)
  have joined : together = attrs.mapM alone := by
    have ended : ∀ attr ∈ attrs, Ended ((remember p.library tree depth ref attr).run.run fresh).1 :=
      fun attr ha ↦ remembered attr ▸ ends attr ha
    rw [funext remembered, ← mapM_remember p.numbered attrs sound (fun h ↦ h) ended]
    exact Engine.fst_run_evaluateMany found describes attrs w
  have settled : ∀ᶠ deep in Filter.atTop, ∀ attr ∈ attrs,
      solve p.library tree deep ref attr = alone attr := by
    refine (Filter.eventually_all_finite attrs.finite_toSet).mpr fun attr ha ↦ ?_
    rw [remembered]
    exact (advances_remember p.numbered depth ref attr fresh sound).settles
      (remembered attr ▸ ends attr ha)
  refine ⟨fun values ↦ ?_, fun stop ↦ ?_, ?_⟩
  · rw [joined, mapM_eq_ok_iff]
  · rw [joined, mapM_eq_error_iff]
  · obtain ⟨least, deepEnough⟩ := Filter.eventually_atTop.mp settled
    refine ⟨least, fun deep hd w' ↦ ⟨fun attr ha ↦ ?_, ?_⟩⟩
    · rw [Engine.fst_run_evaluateDirect found describes]
      exact deepEnough deep hd attr ha
    · rw [Engine.fst_run_evaluateManyDirect found describes, joined]
      exact mapM_congr_mem fun attr ha ↦ deepEnough deep hd attr ha

/-- In the small program `y`, `x` and `y` again have the values that they have by themselves. -/
theorem Sample.evaluateMany_eq :
    ((Sample.engine.evaluateMany "A" ["y", "x", "y"] []).run.run { host := () }).1 =
        .ok [.int 3, .int 2, .int 3] ∧
      ∃ least, ∀ deep ≥ least, ∀ w : World Unit,
        ((Sample.engine.evaluateManyDirect deep "A" ["y", "x", "y"] []).run.run w).1 =
          .ok [.int 3, .int 2, .int 3] := by
  have fresh : ∀ key : MemoKey, (#[({ params := [] } : Env)])[0]?.bind (·.cached? key) = none := by
    simp [Env.cached?]
  have x : ((Sample.engine.evaluate "A" "x" []).run.run { host := () }).1 = .ok (.int 2) := by
    obtain ⟨w', ran⟩ := Sample.read_x (w := { envs := #[{ params := [] }], host := () }) fresh 9
    simp only [Engine.evaluate, Sample.node_eq]
    exact congrArg Prod.fst ran
  have y : ((Sample.engine.evaluate "A" "y" []).run.run { host := () }).1 = .ok (.int 3) := by
    obtain ⟨w', ran⟩ := Sample.read_y (w := { envs := #[{ params := [] }], host := () }) fresh 8
    simp only [Engine.evaluate, Sample.node_eq]
    exact congrArg Prod.fst ran
  have ends : ∀ attr ∈ ["y", "x", "y"],
      ((Sample.engine.evaluate "A" attr []).run.run { host := () }).1 ≠ .error .exhausted := by
    simp only [List.forall_mem_cons, x, y]
    simp
  obtain ⟨succeeds, -, direct⟩ := Sample.program.evaluateMany_eq_separately ⟨0, by decide⟩ Host.bare
    {} 10 "A" Sample.ref ["y", "x", "y"] [] Sample.node_eq Sample.callsNoNodes Sample.pure_bare
    (fun _ h ↦ by cases h) { host := () } (fun _ ↦ { host := () })
    ends
  have together := (succeeds [.int 3, .int 2, .int 3]).mpr (.cons y (.cons x (.cons y .nil)))
  obtain ⟨least, deepEnough⟩ := direct
  exact ⟨together, least, fun deep hd w ↦ (deepEnough deep hd w).2.trans together⟩

end Formulary
