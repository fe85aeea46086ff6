import Formulary.Proofs.MadeOf
import Formulary.Proofs.Permission

/-!
# What code asks for

Code that makes no node calls, on a host whose answers depend on the arguments alone, does nothing
but ask for attributes and compute with the answers. It can be seen as a tree of questions
(`Inquiry`), the same one whichever way the attributes are read (`inquires_runBody`).
-/

namespace Formulary

variable {σ α β : Type}

/-- Questions for attributes, each depending on the answers before, and what comes of them. -/
inductive Inquiry (α : Type) where
  | done (result : Except Stop α)
  /-- Asks for an attribute of a node, or if none is given of the node that the code runs on. -/
  | ask (node : Option NodeRef) (attr : String) (next : Value → Inquiry α)

namespace Inquiry

/-- Goes on with further questions. -/
def bind : Inquiry α → (α → Inquiry β) → Inquiry β
  | done (.ok a), f => f a
  | done (.error stop), _ => done (.error stop)
  | ask node attr next, f => ask node attr fun v ↦ (next v).bind f

/-- What comes of the questions if they are answered in some way. -/
def interpret {M : Type → Type} [Monad M] [MonadExceptOf Stop M]
    (answer : Option NodeRef → String → M Value) : Inquiry α → M α
  | done result => MonadExcept.ofExcept result
  | ask node attr next => do
    let v ← answer node attr
    (next v).interpret answer

end Inquiry

/-! ### Nodes and values that evaluation comes to -/

/-- A value that is neither a node call nor a node other than these. -/
def Value.Among (reached : NodeRef → Prop) : Value → Prop
  | .call _ _ _ => False
  | .node ref => reached ref
  | _ => True

/-- A value without node calls in it. -/
def Value.CallFree : Value → Prop := Every (Among fun _ ↦ True)

theorem Value.among_of_ordinary {reached : NodeRef → Prop} (v : Value) (h : v.Ordinary) :
    v.Among reached := by
  cases v <;> first | exact trivial | exact h.elim

/-- A value without node calls, in which every node is one of these. -/
theorem Value.every_among {reached : NodeRef → Prop} {v : Value} (free : v.CallFree)
    (known : ∀ ref, (node ref).Within v → reached ref) : v.Every (Among reached) := by
  intro u hu
  cases u with
  | call env ref params => exact free _ hu
  | node ref => exact known ref hu
  | _ => trivial

theorem Value.callFree_of_every {reached : NodeRef → Prop} {v : Value}
    (h : v.Every (Among reached)) : v.CallFree := by
  intro u hu
  have here := h u hu
  cases u with
  | call env ref params => exact here
  | _ => trivial

/-- The host can answer some arguments with a value. -/
def Host.Gives (host : Host σ) (args : List Value) (v : Value) : Prop :=
  (∃ name c function state, host.class? name = some c ∧
    ((c.call function args).run.run state).1 = .ok v) ∨
  ∃ handle method state, ((host.invoke handle method args).run.run state).1 = .ok v

/-- What the host answers depends on the arguments alone. A node call has an environment of its own,
so making one is not a matter of the arguments alone. -/
structure Host.Pure (host : Host σ) : Prop where
  function : ∀ {name c}, host.class? name = some c → ∀ function args,
    ∃ result, ∀ state, ((c.call function args).run.run state).1 = result
  invoke : ∀ handle method args,
    ∃ result, ∀ state, ((host.invoke handle method args).run.run state).1 = result
  callFree : ∀ {args v}, host.Gives args v → (∀ a ∈ args, a.CallFree) → v.CallFree

/-- What is known of an evaluation: its parameters, and the nodes that it may come to. -/
structure Premises where
  params : List (Value × Value)
  reached : NodeRef → Prop

namespace Premises

/-- The values that may come up. -/
def Good (pr : Premises) : Value → Prop := Value.Every (Value.Among pr.reached)

/-- The parameters are good, and the answers of a host to good values are. -/
structure Closed (pr : Premises) (host : Host σ) : Prop where
  params : ∀ e ∈ pr.params, BothOf pr.Good e
  answer : ∀ {args v}, host.Gives args v → (∀ a ∈ args, pr.Good a) → pr.Good v

/-- An environment with the parameters in question, in which only good values are kept. -/
structure Fits (pr : Premises) (e : Env) : Prop where
  params : e.params = pr.params
  memo : ∀ {key v}, e.cached? key = some v → pr.Good v

/-- A world in which an environment fits. -/
def Ready (pr : Premises) (env : Nat) (w : World σ) : Prop :=
  ∃ e, w.envs[env]? = some e ∧ pr.Fits e

theorem operationsKeep (pr : Premises) : OperationsKeep pr.Good :=
  Value.operationsKeep_every Value.among_of_ordinary

end Premises

/-! ### Following an inquiry -/

/-- A way to run code: how attributes are read, and in which environment and on which node. -/
structure Way (σ : Type) where
  read : Read (Eval σ)
  env : Nat
  held : List Nat
  node : NodeRef

/-- Reads an attribute of a node in one of the ways. -/
def Way.ask (way : Way σ) (ref : NodeRef) (attr : String) : Eval σ Value :=
  way.read way.held way.env ref attr

/-- A way to run code on one of the nodes in question, that is given good answers and keeps the
environment fit. -/
structure Way.Sound (way : Way σ) (pr : Premises) : Prop where
  node : pr.reached way.node
  ready : ∀ {ref w} attr, pr.reached ref → pr.Ready way.env w →
    pr.Ready way.env ((way.ask ref attr).run.run w).2
  good : ∀ {ref w attr v}, pr.reached ref → pr.Ready way.env w →
    ((way.ask ref attr).run.run w).1 = .ok v → pr.Good v

/-- Asking the questions in turn leads from one world to a result in another. In between only the
log and the state of the host may change. -/
inductive Follows (way : Way σ) : Inquiry α → World σ → Except Stop α → World σ → Prop where
  | done {result : Except Stop α} {w w' : World σ} (envs : w'.envs = w.envs) :
    Follows way (.done result) w result w'
  | answered {node : Option NodeRef} {attr : String} {next : Value → Inquiry α} {v : Value}
    {result : Except Stop α} {w w₀ w₁ w' : World σ} (envs : w₀.envs = w.envs)
    (read : (way.ask (node.getD way.node) attr).run.run w₀ = (.ok v, w₁))
    (rest : Follows way (next v) w₁ result w') : Follows way (.ask node attr next) w result w'
  | failed {node : Option NodeRef} {attr : String} {next : Value → Inquiry α} {stop : Stop}
    {w w₀ w' : World σ} (envs : w₀.envs = w.envs)
    (read : (way.ask (node.getD way.node) attr).run.run w₀ = (.error stop, w')) :
    Follows way (.ask node attr next) w (.error stop) w'

/-- The questions are about nodes that may be come to, and if the answers are good so is the
result. -/
def Inquiry.Proper (pr : Premises) (P : α → Prop) : Inquiry α → Prop
  | .done result => ∀ a, result = .ok a → P a
  | .ask node _ next =>
    (∀ ref, node = some ref → pr.reached ref) ∧ ∀ v, pr.Good v → (next v).Proper pr P

theorem Inquiry.Proper.bind {pr : Premises} {P : α → Prop} {Q : β → Prop} {t : Inquiry α}
    {f : α → Inquiry β} (ht : t.Proper pr P) (hf : ∀ a, P a → (f a).Proper pr Q) :
    (t.bind f).Proper pr Q := by
  induction t with
  | done result =>
    cases result with
    | ok a => exact hf a (ht a rfl)
    | error stop => exact fun b hb ↦ by cases hb
  | ask node attr next ih => exact ⟨ht.1, fun v hv ↦ ih v (ht.2 v hv)⟩

private theorem Premises.Ready.of_envs_eq {pr : Premises} {env : Nat} {w w' : World σ}
    (h : pr.Ready env w) (envs : w'.envs = w.envs) : pr.Ready env w' := by
  obtain ⟨e, he, fits⟩ := h
  exact ⟨e, by rw [envs, he], fits⟩

/-- A question that names no node, or one that may be come to, is about one that may. -/
theorem Way.Sound.reached {way : Way σ} {pr : Premises} (sound : way.Sound pr)
    {node : Option NodeRef} (h : ∀ ref, node = some ref → pr.reached ref) :
    pr.reached (node.getD way.node) := by
  cases node with
  | none => exact sound.node
  | some ref => exact h ref rfl

namespace Follows

variable {way : Way σ} {pr : Premises} {t : Inquiry α} {w w₁ w' : World σ} {result : Except Stop α}

/-- Only the environments of the first world matter. -/
theorem of_envs_eq (h : Follows way t w₁ result w') (envs : w₁.envs = w.envs) :
    Follows way t w result w' := by
  cases h with
  | done after => exact .done (after.trans envs)
  | answered before read rest => exact .answered (before.trans envs) read rest
  | failed before read => exact .failed (before.trans envs) read

private theorem bind_ok {f : α → Inquiry β} {a : α} {result : Except Stop β}
    (h : Follows way t w (.ok a) w₁) (rest : Follows way (f a) w₁ result w') :
    Follows way (t.bind f) w result w' := by
  generalize given : Except.ok a = first at h
  induction h with
  | done envs =>
    subst given
    exact rest.of_envs_eq envs
  | answered envs read _ ih => exact .answered envs read (ih rest given)
  | failed envs read => cases given

theorem bind_error {f : α → Inquiry β} {stop : Stop} (h : Follows way t w (.error stop) w') :
    Follows way (t.bind f) w (.error stop) w' := by
  generalize given : Except.error stop = first at h
  induction h with
  | done envs =>
    subst given
    exact .done envs
  | answered envs read _ ih => exact .answered envs read (ih given)
  | failed envs read =>
    cases given
    exact .failed envs read

/-- Proper questions keep the environment fit and lead to proper results. -/
theorem keeps {P : α → Prop} (sound : way.Sound pr) (h : Follows way t w result w')
    (proper : t.Proper pr P) (ready : pr.Ready way.env w) :
    pr.Ready way.env w' ∧ ∀ a, result = .ok a → P a := by
  induction h with
  | done envs => exact ⟨ready.of_envs_eq envs, proper⟩
  | @answered node attr next v result w w₀ w₁ w' envs read rest ih =>
    have reached := sound.reached proper.1
    have before := ready.of_envs_eq envs
    have good : pr.Good v := sound.good reached before (congrArg Prod.fst read)
    have after : pr.Ready way.env w₁ := by
      have := sound.ready attr reached before
      rwa [read] at this
    exact ih (proper.2 v good) after
  | @failed node attr next stop w w₀ w' envs read =>
    have after := sound.ready attr (sound.reached proper.1) (ready.of_envs_eq envs)
    rw [read] at after
    exact ⟨after, fun a ha ↦ by cases ha⟩

end Follows

/-! ### Code as an inquiry -/

/-- In every sound way, these evaluations follow one inquiry. -/
def Inquires (pr : Premises) (P : α → Prop) (m : Way σ → Eval σ α) : Prop :=
  ∃ t : Inquiry α, t.Proper pr P ∧ ∀ way, way.Sound pr → ∀ w, pr.Ready way.env w →
    Follows way t w ((m way).run.run w).1 ((m way).run.run w).2

section

variable {pr : Premises} {P : α → Prop} {Q : β → Prop}

/-- Evaluations that ask nothing, with the same result in every way. -/
theorem inquires_of_steady {m : Way σ → Eval σ α} (result : Except Stop α)
    (h : ∀ way w, pr.Ready way.env w →
      ((m way).run.run w).1 = result ∧ ((m way).run.run w).2.envs = w.envs)
    (hP : ∀ a, result = .ok a → P a) : Inquires pr P m := by
  refine ⟨.done result, hP, fun way _ w ready ↦ ?_⟩
  obtain ⟨same, envs⟩ := h way w ready
  rw [same]
  exact .done envs

theorem Inquires.bind {m : Way σ → Eval σ α} {f : Way σ → α → Eval σ β} (hm : Inquires pr P m)
    (hf : ∀ a, P a → Inquires pr Q fun way ↦ f way a) :
    Inquires pr Q fun way ↦ m way >>= f way := by
  classical
  obtain ⟨t, proper, follows⟩ := hm
  -- After a result that cannot come up it does not matter what is asked.
  let next : α → Inquiry β := fun a ↦ if h : P a then (hf a h).choose else .done (.error .exhausted)
  have chosen : ∀ a (h : P a), next a = (hf a h).choose := fun a h ↦ dif_pos h
  refine ⟨t.bind next, proper.bind fun a ha ↦ ?_, fun way sound w ready ↦ ?_⟩
  · rw [chosen a ha]
    exact (hf a ha).choose_spec.1
  · have first := follows way sound w ready
    rw [run_bind]
    cases ran : (m way).run.run w with
    | mk result w₁ =>
      rw [ran] at first
      cases result with
      | error stop => exact first.bind_error
      | ok a =>
        obtain ⟨ready₁, hP⟩ := first.keeps sound proper ready
        refine first.bind_ok ?_
        rw [chosen a (hP a rfl)]
        exact (hf a (hP a rfl)).choose_spec.2 way sound w₁ ready₁

theorem inquires_throw (stop : Stop) : Inquires pr P fun _ : Way σ ↦ (throw stop : Eval σ α) :=
  inquires_of_steady (.error stop) (fun _ _ _ ↦ ⟨rfl, rfl⟩) fun b hb ↦ by cases hb

variable (σ pr) in
/-- Evaluations that follow inquiries can be put together. -/
def inquiring : Congruence σ fun _ : Way σ ↦ Eval σ where
  Holds P m := Inquires pr P m
  holds_pure {_ _ a} ha :=
    inquires_of_steady (.ok a) (fun _ _ _ ↦ ⟨rfl, rfl⟩) fun b hb ↦ by cases hb; exact ha
  holds_fault _ := inquires_throw _
  holds_bind hm hf := hm.bind hf

/-- Reading an attribute is one question. -/
theorem inquires_read (node : Option NodeRef) (attr : String)
    (h : ∀ ref, node = some ref → pr.reached ref) :
    Inquires pr pr.Good fun way : Way σ ↦ way.ask (node.getD way.node) attr := by
  refine ⟨.ask node attr fun v ↦ .done (.ok v), ⟨h, fun v hv a ha ↦ ?_⟩, fun way _ w _ ↦ ?_⟩
  · cases ha
    exact hv
  · cases ran : (way.ask (node.getD way.node) attr).run.run w with
    | mk result w' =>
      cases result with
      | ok v => exact .answered rfl ran (.done rfl)
      | error stop => exact .failed rfl ran

end

/-! ### Calls -/

/-- The result is the same in every world, and environments are left alone. -/
def Steady (P : α → Prop) (m : Eval σ α) : Prop :=
  ∃ result, (∀ a, result = .ok a → P a) ∧
    ∀ w, (m.run.run w).1 = result ∧ (m.run.run w).2.envs = w.envs

section

variable {P : α → Prop} {m : Eval σ α}

private theorem Steady.inquires {pr : Premises} (h : Steady P m) : Inquires pr P fun _ ↦ m := by
  obtain ⟨result, hP, same⟩ := h
  exact inquires_of_steady result (fun _ w _ ↦ same w) hP

private theorem steady_throw (stop : Stop) : Steady P (throw stop : Eval σ α) :=
  ⟨.error stop, fun a ha ↦ (by cases ha), fun w ↦ ⟨rfl, rfl⟩⟩

private theorem steady_ofOutcome {x : Except Stop α} (h : ∀ a, x = .ok a → P a) :
    Steady P (Eval.ofOutcome x : Eval σ α) := by
  cases x with
  | error stop => exact steady_throw stop
  | ok a => exact ⟨.ok a, fun b hb ↦ (by cases hb; exact h a rfl), fun w ↦ ⟨rfl, rfl⟩⟩

theorem Steady.record (h : Steady P m) (event : Event) : Steady P (do Eval.record event; m) := by
  obtain ⟨result, hP, same⟩ := h
  exact ⟨result, hP, fun w ↦ same (w.logged event)⟩

/-- Failing in another way is as steady. -/
theorem Steady.rethrow (h : Steady P m) (f : Stop → Stop) :
    Steady P (tryCatch m fun stop ↦ throw (f stop)) := by
  obtain ⟨result, hP, same⟩ := h
  refine ⟨result.mapError f, fun a ha ↦ hP a ?_, fun w ↦ ?_⟩
  · cases result with
    | ok b => exact ha
    | error stop => cases ha
  · obtain ⟨here, envs⟩ := same w
    rw [run_tryCatch]
    cases ran : m.run.run w with
    | mk r w' =>
      rw [ran] at here envs
      subst here
      cases r with
      | ok a | error stop => exact ⟨rfl, envs⟩

/-- Host code that always has the same result. -/
theorem steady_ofHost {m : HostM σ α} (h : ∃ result, ∀ state, (m.run.run state).1 = result)
    (hP : ∀ a state, (m.run.run state).1 = .ok a → P a) : Steady P (Eval.ofHost m) := by
  obtain ⟨result, same⟩ := h
  by_cases inhabited : Nonempty σ
  · obtain ⟨state⟩ := inhabited
    refine ⟨result.mapError fun message ↦ .fault ⟨.host message, []⟩, fun a ha ↦ ?_, fun w ↦ ?_⟩
    · refine hP a state ((same state).trans ?_)
      cases result with
      | ok b => exact Except.ok.inj ha ▸ rfl
      | error message => cases ha
    · rw [Eval.run_ofHost, same]
      exact ⟨rfl, rfl⟩
  · exact ⟨.error .exhausted, fun a ha ↦ (by cases ha), fun w ↦ (inhabited ⟨w.host⟩).elim⟩

end

section

variable {pr : Premises} {s : Setting σ}

private theorem steady_callFunction (pure : s.host.Pure) (closed : pr.Closed s.host)
    (hostClass function : String) {args : List Value} (ha : ∀ a ∈ args, pr.Good a) :
    Steady pr.Good (s.callFunction hostClass function args) :=
  Setting.callFunction_of (fun _ _ ↦ steady_throw _) hostClass function fun c _ hc _ ↦
    (steady_ofHost (pure.function hc function args) fun _ state hv ↦
      closed.answer (.inl ⟨hostClass, c, function, state, hc, hv⟩) ha).record _

private theorem steady_callMethod (methods : s.builtIns = Value.send) (pure : s.host.Pure)
    (closed : pr.Closed s.host) (home : Nat) {receiver : Value} (name : String)
    {args : List Value} (hr : pr.Good receiver) (ha : ∀ a ∈ args, pr.Good a) :
    Steady pr.Good (s.callMethod home receiver name args) := by
  refine Setting.callMethod_of (fun _ _ ↦ steady_throw _) home name
    (steady_callFunction pure closed · name ha)
    (fun handle target ↦ (steady_ofHost (pure.invoke handle target args) fun _ state hv ↦
      closed.answer (.inr ⟨handle, target, state, hv⟩) ha).record _)
    fun target ↦ Steady.record ?_ _
  rw [methods]
  exact steady_ofOutcome fun v hv ↦ Value.every_send Value.among_of_ordinary hr ha hv

/-! ### Members -/

/-- Code that makes no node calls, and in which all nodes and constants are good. -/
def Premises.Admits (pr : Premises) (home : Nat) (homeName : String) : Code → Prop
  | .call _ _ => False
  | .node target => pr.reached (target.ref home homeName)
  | .const v => pr.Good v
  | _ => True

/-- The views of code that is written in a module, one for each way to run it. -/
def waysIn (σ : Type) (home : Nat) (homeName : String) : Views fun _ : Way σ ↦ Eval σ :=
  ⟨Way.env, Way.held, Way.node, Way.read, home, homeName⟩

private theorem good_node {ref : NodeRef} (h : pr.reached ref) : pr.Good (.node ref) :=
  Value.every_iff.mpr ⟨h, fun v hv ↦ by cases hv⟩

private theorem inquiring_base (methods : s.builtIns = Value.send) (pure : s.host.Pure)
    (closed : pr.Closed s.host) (home : Nat) (homeName : String) :
    (inquiring σ pr).Base pr.Good (fun _ ↦ s) (fun _ ↦ Code.Every (pr.Admits home homeName))
      (waysIn σ home homeName) where
  part h hc := h.boundPart hc
  const h := h.self
  node h := good_node h.self
  unbound _ _ := inquires_throw _
  attr {_ name} _ := inquires_read none name fun ref h ↦ by cases h
  readNode {ref} name h := inquires_read (some ref) name fun r hr ↦ by
    cases hr
    exact h.self
  readCall _ h := h.self.elim
  safely _ h := h.self.elim
  amend h _ := h.self.elim
  call h _ _ := h.self.elim
  params := by
    have visible : pr.Good (.map (pr.params.filter fun e ↦ Env.isVisibleKey e.1)) :=
      Value.every_map Value.among_of_ordinary fun e he ↦ closed.params e (List.mem_filter.mp he).1
    refine inquires_of_steady (.ok (pr.params.filter fun e ↦ Env.isVisibleKey e.1))
      (fun way w ready ↦ ?_) fun entries h ↦ by cases h; exact visible
    obtain ⟨e, he, fits⟩ := ready
    rw [Machine.step_eq, Eval.run_visibleParams]
    refine ⟨?_, rfl⟩
    change Except.ok ((w.envs[way.env]?.map Env.visibleParams).getD []) = _
    rw [he, Option.map_some, Option.getD_some, Env.visibleParams, fits.params]
  param name := by
    refine inquires_of_steady (.ok (Ordered.get? (.str name) pr.params)) (fun way w ready ↦ ?_)
      fun given h v hv ↦ ?_
    · obtain ⟨e, he, fits⟩ := ready
      refine ⟨?_, rfl⟩
      change Except.ok (w.envs[way.env]?.bind (·.param? name)) = _
      rw [he, Option.bind_some, Env.param?_eq_get?, fits.params]
    · cases h
      obtain ⟨e, he, rfl⟩ := Ordered.mem_of_get?_eq_some hv
      exact (closed.params e he).2
  method name hr ha := (steady_callMethod methods pure closed home name hr ha).inquires
  attrMethod {receiver} name hr :=
    ((steady_callMethod methods pure closed home name hr fun a ha ↦ by cases ha).rethrow
      (Access.asAttribute receiver name)).inquires
  function _ _ ha := (steady_callFunction pure closed _ _ ha).inquires

/-- Computing a member is an inquiry if its code makes no node calls. -/
theorem inquires_runBody (methods : s.builtIns = Value.send) (pure : s.host.Pure)
    (closed : pr.Closed s.host) (home : Nat) (homeName name : String) {body : Body}
    (h : ∀ c ∈ body.code?, c.Every (pr.Admits home homeName)) :
    Inquires pr pr.Good fun way ↦
      runBody s way.read ⟨way.env, way.held, way.node, home, homeName⟩ name body :=
  (inquiring_base methods pure closed home homeName).runBody pr.operationsKeep name body h

end

end Formulary
