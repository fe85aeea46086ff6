import Formulary.Proofs.Accepted
import Formulary.Proofs.Cycles
import Formulary.Proofs.Declared
import Formulary.Proofs.Nearest
import Formulary.Proofs.Sandbox

/-!
# Hidden parameters

A parameter that is given under a key that no script can spell is hidden: scripts look a parameter
up by the name of a member, or take all those with visible keys at once. Two worlds are alike if
they differ in hidden parameters only (`World.Alike`). Evaluation does the same in worlds that are
alike, and leaves worlds that are alike (`blind_readAttr`). So whatever an engine is asked under two
bags of parameters that differ in hidden ones, it answers the same
(`Program.hidden_params_unseen`).
-/

namespace Formulary

variable {σ α β : Type}

theorem Value.eq_str_of_beq {s : String} {v : Value} (h : (Value.str s == v) = true) :
    v = .str s := by
  rw [Value.beq_eq_equal] at h
  cases v with
  | str s' => rw [eq_of_beq h]
  | _ => cases h

namespace Env

/-- Keys that a script could ask for: integers, and texts that are spelled like a member's name. -/
def isNamedKey : Value → Bool
  | .int _ => true
  | .str s => Token.isName s
  | _ => false

/-- The parameters that are not hidden. -/
def named (params : List (Value × Value)) : List (Value × Value) :=
  params.filter fun e ↦ isNamedKey e.1

theorem isNamedKey_of_isVisibleKey {k : Value} (h : isVisibleKey k = true) :
    isNamedKey k = true := by
  cases k with
  | int n => rfl
  | str s =>
    simp only [isVisibleKey, isNamedKey, Token.isName] at h ⊢
    split
    · next empty => simp [empty] at h
    · next c cs chars =>
      rw [chars] at h
      simp only [Bool.and_eq_true, List.all_eq_true] at h
      simp only [Bool.and_eq_true, Bool.or_eq_true, List.all_eq_true]
      exact ⟨.inl h.1, fun d hd ↦ h.2 d hd⟩
  | _ => cases h

/-- Environments that differ in hidden parameters only. -/
structure Alike (e e' : Env) : Prop where
  params : named e.params = named e'.params
  memo : e.memo = e'.memo

/-- Hidden parameters are not among the visible ones. -/
theorem visibleParams_eq (e : Env) :
    e.visibleParams = (named e.params).filter fun p ↦ isVisibleKey p.1 := by
  rw [visibleParams, named, List.filter_filter]
  congr 1
  funext p
  cases visible : isVisibleKey p.1 with
  | false => rfl
  | true => rw [isNamedKey_of_isVisibleKey visible, Bool.and_true]

/-- What is given for a name is not hidden. -/
theorem param?_eq (e : Env) {name : String} (h : Token.isName name = true) :
    e.param? name = Ordered.get? (.str name) (named e.params) := by
  have kept : ∀ k, (Value.str name == k) = true → isNamedKey k = true := by
    intro k same
    rw [Value.eq_str_of_beq same]
    exact h
  rw [param?_eq_get?]
  exact (Ordered.get?_filter isNamedKey kept e.params).symm

namespace Alike

variable {e e' : Env}

theorem refl (e : Env) : e.Alike e := ⟨rfl, rfl⟩

theorem visibleParams (h : e.Alike e') : e.visibleParams = e'.visibleParams := by
  rw [visibleParams_eq, visibleParams_eq, h.params]

theorem param? (h : e.Alike e') {name : String} (named : Token.isName name = true) :
    e.param? name = e'.param? name := by
  rw [param?_eq e named, param?_eq e' named, h.params]

theorem cached? (h : e.Alike e') (key : MemoKey) : e.cached? key = e'.cached? key := by
  rw [Env.cached?, Env.cached?, h.memo]

theorem store (h : e.Alike e') (key : MemoKey) (v : Value) :
    (e.store key v).Alike (e'.store key v) :=
  ⟨h.params, congrArg (·.insert key v) h.memo⟩

end Alike

end Env

/-- Worlds that differ in hidden parameters only. -/
structure World.Alike (w w' : World σ) : Prop where
  size : w.envs.size = w'.envs.size
  envs : ∀ env : Nat, Option.Rel Env.Alike w.envs[env]? w'.envs[env]?
  host : w.host = w'.host
  log : w.log = w'.log

namespace World.Alike

variable {w w' : World σ}

theorem refl (w : World σ) : w.Alike w := by
  refine ⟨rfl, fun env ↦ ?_, rfl, rfl⟩
  cases w.envs[env]? with
  | none => exact .none
  | some e => exact .some (.refl e)

/-- What is taken from an environment is the same if it is the same in all that are alike. -/
theorem take (h : w.Alike w') (env : Nat) (f : Option Env → α)
    (same : ∀ e e' : Env, e.Alike e' → f (some e) = f (some e')) :
    f w.envs[env]? = f w'.envs[env]? := by
  have here := h.envs env
  generalize w.envs[env]? = found at here
  generalize w'.envs[env]? = found' at here
  cases here with
  | none => rfl
  | some alike => exact same _ _ alike

theorem logged (h : w.Alike w') (event : Event) : (w.logged event).Alike (w'.logged event) :=
  ⟨h.size, h.envs, h.host, congrArg (·.map (event :: ·)) h.log⟩

theorem push (h : w.Alike w') {e e' : Env} (alike : e.Alike e') :
    World.Alike { w with envs := w.envs.push e } { w' with envs := w'.envs.push e' } := by
  refine ⟨by simp [h.size], fun env ↦ ?_, h.host, h.log⟩
  simp only [Array.getElem?_push, h.size]
  split
  · exact .some alike
  · exact h.envs env

theorem modify (h : w.Alike w') (env : Nat) {f : Env → Env}
    (keep : ∀ e e' : Env, e.Alike e' → (f e).Alike (f e')) :
    World.Alike { w with envs := w.envs.modify env f }
      { w' with envs := w'.envs.modify env f } := by
  refine ⟨by simp [h.size], fun other ↦ ?_, h.host, h.log⟩
  have here := h.envs other
  simp only [Array.getElem?_modify]
  generalize w.envs[other]? = found at here ⊢
  generalize w'.envs[other]? = found' at here ⊢
  split
  · cases here with
    | none => exact .none
    | some alike => exact .some (keep _ _ alike)
  · exact here

end World.Alike

/-! ### Evaluations -/

/-- Evaluation does the same in worlds that are alike, and leaves worlds that are alike. -/
def Blind (m : Eval σ α) : Prop :=
  ∀ w w' : World σ, w.Alike w' →
    (m.run.run w).1 = (m.run.run w').1 ∧ (m.run.run w).2.Alike (m.run.run w').2

theorem blind_pure (a : α) : Blind (pure a : Eval σ α) := fun _ _ alike ↦ ⟨rfl, alike⟩

theorem blind_throw (stop : Stop) : Blind (throw stop : Eval σ α) := fun _ _ alike ↦ ⟨rfl, alike⟩

/-- Both runs of a blind evaluation. -/
theorem Blind.runs {m : Eval σ α} (h : Blind m) {w w' : World σ} (alike : w.Alike w') :
    ∃ result w₁ w₁', m.run.run w = (result, w₁) ∧ m.run.run w' = (result, w₁') ∧
      w₁.Alike w₁' := by
  have ⟨same, after⟩ := h w w' alike
  exact ⟨(m.run.run w).1, (m.run.run w).2, (m.run.run w').2, rfl, Prod.ext same.symm rfl, after⟩

theorem Blind.bind {m : Eval σ α} {f : α → Eval σ β} (hm : Blind m)
    (hf : ∀ w a w', m.run.run w = (.ok a, w') → Blind (f a)) : Blind (m >>= f) := by
  intro w w' alike
  obtain ⟨result, w₁, w₁', ran, ran', after⟩ := hm.runs alike
  rw [run_bind, run_bind, ran, ran']
  cases result with
  | ok a => exact hf w a w₁ ran w₁ w₁' after
  | error stop => exact ⟨rfl, after⟩

theorem Blind.tryCatch {m : Eval σ α} {handle : Stop → Eval σ α} (hm : Blind m)
    (hh : ∀ stop, Blind (handle stop)) : Blind (tryCatch m handle) := by
  intro w w' alike
  obtain ⟨result, w₁, w₁', ran, ran', after⟩ := hm.runs alike
  rw [run_tryCatch, run_tryCatch, ran, ran']
  cases result with
  | ok a => exact ⟨rfl, after⟩
  | error stop => exact hh stop w₁ w₁' after

/-- Evaluations that do not see hidden parameters can be put together. -/
def blind (σ : Type) : Congruence σ fun _ : Unit ↦ Eval σ where
  Holds P m := Blind (m ()) ∧ ∀ w a w', (m ()).run.run w = (.ok a, w') → P a
  holds_pure ha := ⟨blind_pure _, fun w b w' h ↦ by cases h; exact ha⟩
  holds_fault _ := ⟨blind_throw _, fun w b w' h ↦ by cases h⟩
  holds_bind hm hf := by
    refine ⟨hm.1.bind fun w a w' h ↦ (hf a (hm.2 w a w' h)).1, fun w b w'' h ↦ ?_⟩
    obtain ⟨a, w', first, rest⟩ := run_bind_eq_ok h
    exact (hf a (hm.2 w a w' first)).2 w' b w'' rest

theorem Blind.holds {m : Eval σ α} (h : Blind m) : (blind σ).Holds (fun _ ↦ True) fun _ ↦ m :=
  ⟨h, fun _ _ _ _ ↦ trivial⟩

theorem Blind.safely {m : Eval σ Value} (h : Blind m) : Blind (Eval.safely m) := by
  apply h.tryCatch
  intro stop
  cases stop with
  | fault f => exact blind_pure _
  | disorder | exhausted => exact blind_throw _

/-! ### Looking at the world -/

theorem blind_ofExcept (x : Except Fault α) : Blind (Eval.ofExcept x : Eval σ α) := by
  cases x with
  | ok a => exact blind_pure a
  | error f => exact blind_throw _

theorem blind_ofOutcome (x : Except Stop α) : Blind (Eval.ofOutcome x : Eval σ α) := by
  cases x with
  | ok a => exact blind_pure a
  | error stop => exact blind_throw stop

theorem blind_ofHost (m : HostM σ α) : Blind (Eval.ofHost m) := by
  intro w w' alike
  rw [Eval.run_ofHost, Eval.run_ofHost, alike.host]
  exact ⟨rfl, alike.size, alike.envs, rfl, alike.log⟩

theorem blind_record (event : Event) : Blind (Eval.record event : Eval σ Unit) :=
  fun _ _ alike ↦ ⟨rfl, alike.logged event⟩

/-- Environments made with parameters that differ in hidden ones are alike. -/
theorem World.Alike.newEnv {w w' : World σ} (alike : w.Alike w')
    {params params' : List (Value × Value)} (same : Env.named params = Env.named params') :
    ((Eval.newEnv params).run.run w).1 = ((Eval.newEnv params').run.run w').1 ∧
      ((Eval.newEnv params).run.run w).2.Alike ((Eval.newEnv params').run.run w').2 :=
  ⟨congrArg Except.ok alike.size, alike.push ⟨same, rfl⟩⟩

theorem blind_newEnv (params : List (Value × Value)) : Blind (Eval.newEnv params : Eval σ Nat) :=
  fun _ _ alike ↦ alike.newEnv rfl

theorem blind_create (node : NodeRef) (params : List (Value × Value)) :
    Blind (NodeCall.create node params : Eval σ Value) :=
  (blind_newEnv params).bind fun _ _ _ _ ↦ blind_pure _

theorem blind_visibleParams (env : Nat) :
    Blind (Eval.visibleParams env : Eval σ (List (Value × Value))) := by
  intro w w' alike
  rw [Eval.run_visibleParams, Eval.run_visibleParams]
  have same := alike.take env (fun e ↦ (e.map Env.visibleParams).getD [])
    fun _ _ h ↦ h.visibleParams
  exact ⟨congrArg Except.ok same, alike⟩

theorem blind_param? (env : Nat) {name : String} (named : Token.isName name = true) :
    Blind (Eval.param? env name : Eval σ (Option Value)) := by
  intro w w' alike
  have same := alike.take env (fun e ↦ e.bind (·.param? name)) fun _ _ h ↦ h.param? named
  exact ⟨congrArg Except.ok same, alike⟩

theorem blind_cached? (env : Nat) (key : MemoKey) :
    Blind (Eval.cached? env key : Eval σ (Option Value)) := by
  intro w w' alike
  have same := alike.take env (fun e ↦ e.bind (·.cached? key)) fun _ _ h ↦ h.cached? key
  exact ⟨congrArg Except.ok same, alike⟩

theorem blind_store (env : Nat) (key : MemoKey) (v : Value) :
    Blind (Eval.store env key v : Eval σ Unit) :=
  fun _ _ alike ↦ ⟨rfl, alike.modify env fun _ _ h ↦ h.store key v⟩

/-! ### Code and attributes -/

section

variable {s : Setting σ}

theorem blind_callFunction (hostClass function : String) (args : List Value) :
    Blind (s.callFunction hostClass function args) :=
  Setting.callFunction_of (fun _ _ ↦ blind_throw _) hostClass function fun _ _ _ _ ↦
    (blind_record _).bind fun _ _ _ _ ↦ blind_ofHost _

theorem blind_callMethod (home : Nat) (receiver : Value) (name : String) (args : List Value) :
    Blind (s.callMethod home receiver name args) :=
  Setting.callMethod_of (fun _ _ ↦ blind_throw _) home name (blind_callFunction · name args)
    (fun _ _ ↦ (blind_record _).bind fun _ _ _ _ ↦ blind_ofHost _)
    fun _ ↦ (blind_record _).bind fun _ _ _ _ ↦ blind_ofOutcome _

/-- Reading an attribute of a call is blind if reading attributes is. -/
theorem blind_attr {read : Read (Eval σ)} {node : NodeRef} {name : String}
    (reads : ∀ held env, Blind (read held env node name)) (held : List Nat) (env : Nat)
    (params : List (Value × Value)) : Blind (NodeCall.attr read held env node params name) :=
  ((blind σ).holds_attr (fun _ _ h ↦ h) (blind_newEnv params).holds
    (fun env ↦ (reads held env).holds) (reads (env :: held) env).holds).1

/-- What code does is blind if reading attributes is. -/
theorem blind_core {v : Views fun _ : Unit ↦ Eval σ}
    (reads : ∀ held env node attr, Blind (v.read () held env node attr)) :
    (blind σ).Core (fun _ ↦ True) (fun _ ↦ s) (fun _ _ ↦ True) v where
  part _ _ := trivial
  const _ := trivial
  node _ := trivial
  attr _ := (reads _ _ _ _).holds
  unbound _ _ := Blind.holds (blind_throw _)
  readNode _ _ := (reads _ _ _ _).holds
  readCall _ _ := (blind_attr (fun held env ↦ reads held env _ _) _ _ _).holds
  safely _ _ := (blind_attr (fun held env ↦ reads held env _ _) _ _ _).safely.holds
  amend _ _ := (blind_create _ _).holds
  call {_ target args value entries} _ _ _ := by
    apply Blind.holds
    cases value with
    | call env node params | node ref | nil => exact blind_create _ _
    | _ => exact blind_ofExcept _
  params := (blind_visibleParams _).holds
  method _ _ _ := (blind_callMethod _ _ _ _).holds
  attrMethod _ _ := ((blind_callMethod _ _ _ _).tryCatch fun _ ↦ blind_throw _).holds
  function _ _ _ := (blind_callFunction _ _ _).holds

/-- Computing an attribute is blind if running its body is. -/
theorem blind_compute {env : Nat} {key : MemoKey} {frame : Fault.Frame} {body : Eval σ Value}
    (h : Blind body) : Blind (Eval.compute env key frame body) := by
  unfold Eval.compute
  apply (blind_record _).bind
  intro _ _ _ _
  have attempt := h.tryCatch fun stop ↦
    (blind_record (.left env key none)).bind fun _ _ _ _ ↦ blind_throw (stop.within frame)
  apply attempt.bind
  intro _ v _ _
  apply (blind_store _ _ v).bind
  intro _ _ _ _
  apply (blind_record _).bind
  intro _ _ _ _
  exact blind_pure v

end

/-- Reading an attribute of a program that was read from texts is blind, however deep attributes may
nest. -/
theorem blind_readAttr {p : Program} (texts : ∀ t ∈ p.texts, t.FromText) {s : Setting σ}
    (library : s.library = p.library) (depth : Nat) (held : List Nat) (env : Nat) (node : NodeRef)
    (attr : String) : Blind (readAttr s depth held env node attr) := by
  induction depth generalizing held env node attr with
  | zero => exact blind_throw _
  | succ depth ih =>
    cases found : s.library.slot? node attr with
    | none =>
      rw [readAttr_of_none found]
      exact blind_throw _
    | some slot =>
      rw [readAttr_of_some found]
      apply (blind_cached? _ _).bind
      intro _ cached _ _
      cases cached with
      | some v => exact blind_pure v
      | none =>
        rw [library] at found
        let view : Views fun _ : Unit ↦ Eval σ :=
          .ofContext ⟨env, held, node, slot.home, slot.homeName⟩ fun _ ↦ readAttr s depth
        have core : (blind σ).Core (fun _ ↦ True) (fun _ ↦ s) (fun _ _ ↦ True) view :=
          blind_core ih
        -- the only name that a parameter is looked up by is that of a declared member
        have given : (blind σ).Holds (fun given ↦ ∀ value, given = some value → True)
            fun i ↦ Eval.param? (view.env i) slot.member.name :=
          ⟨blind_param? env (Program.isName_of_slot? texts found), fun _ _ _ _ _ _ ↦ trivial⟩
        have body := core.runBody operationsKeep_true given slot.member.body fun _ _ ↦ trivial
        exact blind_compute body.1

/-! ### Requests -/

/-- Hidden parameters do not influence a script.

Let the scripts of a program be read from texts, and let two bags of parameters have the same
entries in the same order once every key is dropped that is neither an integer nor a text of the
form `[a-z_][A-Za-z0-9_]*`. Whatever attribute of whatever node an engine of the program is asked
for, on any host and in any world, under both bags it gives the same value or fails with the same
fault, it leaves the host in the same state, and the same events are logged, calls of the host among
them. What is read afterwards through a node call that the answer contains is the same, too. -/
theorem Program.hidden_params_unseen (p : Program) (texts : ∀ t ∈ p.texts, t.FromText)
    (module : Fin p.library.modules.size) (host : Host σ) (whitelist : Whitelist) (depth : Nat)
    (node attr : String) {params params' : List (Value × Value)}
    (same : Env.named params = Env.named params') (w : World σ) :
    let e := p.engine module host whitelist depth
    let ran := (e.evaluate node attr params).run.run w
    let ran' := (e.evaluate node attr params').run.run w
    ran.1 = ran'.1 ∧ ran.2.host = ran'.2.host ∧ ran.2.log = ran'.2.log ∧
      ∀ held env ref name, ((e.read held env ref name).run.run ran.2).1 =
        ((e.read held env ref name).run.run ran'.2).1 := by
  intro e ran ran'
  have read : ∀ held env ref name, Blind (e.read held env ref name) :=
    blind_readAttr texts rfl depth
  have alike : ran.1 = ran'.1 ∧ ran.2.Alike ran'.2 := by
    simp only [ran, ran', Engine.evaluate]
    cases e.node node with
    | error f => exact ⟨rfl, .refl w⟩
    | ok ref =>
      rw [Eval.ofExcept_ok, pure_bind, pure_bind]
      exact read [] w.envs.size ref attr _ _ ((World.Alike.refl w).newEnv same).2
  exact ⟨alike.1, alike.2.host, alike.2.log,
    fun held env ref name ↦ (read held env ref name _ _ alike.2).1⟩

/-! A node that shows its parameters, `all = _`, and passes them on, `copy = N(**_)`. -/

namespace Mirror

def source : String := "N:\n    x =?\n    all = _\n    copy = N(**_)\n"

/-- The expression `N(**_)`. -/
def copied : Expr := .call ⟨35, 41⟩ (.path ⟨35, 36⟩ ⟨none, "N"⟩) [.spread (.params ⟨39, 40⟩)]

def tokens : List Token :=
  [⟨.const "N", 0, 1⟩, ⟨.colon, 1, 2⟩, ⟨.newline, 2, 3⟩,
    ⟨.ident "x", 7, 8⟩, ⟨.assign, 9, 10⟩, ⟨.question, 10, 11⟩, ⟨.newline, 11, 12⟩,
    ⟨.ident "all", 16, 19⟩, ⟨.assign, 20, 21⟩, ⟨.underscore, 22, 23⟩, ⟨.newline, 23, 24⟩,
    ⟨.ident "copy", 28, 32⟩, ⟨.assign, 33, 34⟩, ⟨.const "N", 35, 36⟩, ⟨.lparen, 36, 37⟩,
    ⟨.doubleStar, 37, 39⟩, ⟨.underscore, 39, 40⟩, ⟨.rparen, 40, 41⟩, ⟨.newline, 41, 42⟩,
    ⟨.eof, 42, 42⟩]

def memberX : Member := ⟨"x", 2, .param none, []⟩

def memberAll : Member := ⟨"all", 3, .formula .params, []⟩

def memberCopy : Member := ⟨"copy", 4, .formula (.call (.node (.own 0 "N")) [.spread .params]), []⟩

def script : Accepted "M" [] (.having [] "N" [memberX, memberAll, memberCopy]) :=
  (((Accepted.node "M" [] "N" ⟨0, 2⟩).define ⟨2, ⟨7, 11⟩, .param "x" none⟩ memberX rfl rfl rfl
    rfl).define ⟨3, ⟨16, 23⟩, .formula "all" (.params ⟨22, 23⟩)⟩ memberAll rfl rfl rfl rfl).define
    ⟨4, ⟨28, 41⟩, .formula "copy" copied⟩ memberCopy rfl rfl rfl rfl

theorem parsed : parse source "M" = .ok script.lines := by
  have lexed : Token.tokens source = .ok tokens := by decide +kernel
  have read : (Reader.script (Lines.ofText source)).run' (Cursor.ofTokens tokens) =
      .ok script.lines := rfl
  simp only [parse, lexed, read]

/-- The script as a program. -/
def program : Program := script.program rfl

theorem fromText : ∀ t ∈ program.texts, t.FromText := by
  intro t ht
  rw [List.mem_singleton.mp ht]
  exact .read parsed (script.accepted Accepted.noImports ())

/-- Parameters with a key that no script can spell. -/
def given : List (Value × Value) := [(.str "x", .int 1), (.str "Secret", .int 7)]

/-- The same parameters with another such key, and in another place. -/
def other : List (Value × Value) := [(.symbol "x", .nil), (.str "x", .int 1)]

/-- What `all` is when it is read from the copy. -/
def allOfCopy (w : World Unit) : Except Stop Value :=
  ((readAttr (program.setting Host.bare {}) 2 [1] 1 ⟨0, 0, "M", "N"⟩ "all").run.run w).1

/-- What `copy` is, and what is left after it. -/
def copy (params : List (Value × Value)) : Except Stop Value × World Unit :=
  ((program.engine ⟨0, Nat.zero_lt_one⟩ Host.bare {} 2).evaluate "N" "copy" params).run.run
    { host := (), log := some [] }

/-- The copy is the same, and so is `all` when it is read from the copy. -/
theorem copied_unseen : (∀ t ∈ program.texts, t.FromText) ∧ Env.named given = Env.named other ∧
    (copy given).1 = (copy other).1 ∧ (copy given).2.log = (copy other).2.log ∧
    allOfCopy (copy given).2 = allOfCopy (copy other).2 := by
  have same : Env.named given = Env.named other := rfl
  obtain ⟨answer, -, log, later⟩ := program.hidden_params_unseen fromText ⟨0, Nat.zero_lt_one⟩
    Host.bare {} 2 "N" "copy" same { host := (), log := some [] }
  exact ⟨fromText, same, answer, log, later [1] 1 ⟨0, 0, "M", "N"⟩ "all"⟩

end Mirror

end Formulary
