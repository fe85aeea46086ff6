import Formulary.Proofs.AsWritten
import Formulary.Proofs.Permission
import Formulary.Proofs.Requests

/-!
# The sandbox

Whatever a program is asked to evaluate, every method that runs is one that the whitelist of the
module where the running code is written permits, and every function of a host class is run as its
class declares it (`Program.calls_permitted`). The running code is that of the innermost attribute
being computed; where it is written is read off the scripts. The log misses no call. The host's
state after an evaluation is what the logged calls make of its state before, and built-in methods
are used in logged calls only: an evaluation does not change if they do something else elsewhere.
-/

namespace Formulary

variable {σ : Type}

/-! ### Traces -/

/-- An attribute that is being computed. -/
structure Running where
  key : MemoKey
  frame : Fault.Frame

/-- The attributes being computed after an event, innermost first. -/
def Event.after (running : List Running) : Event → List Running
  | .entered _ key frame => ⟨key, frame⟩ :: running
  | .left _ _ _ => running.tail
  | .method _ _ _ _ | .function _ _ _ => running

/-- The innermost attribute being computed is defined in the given module: that is where the nearest
definition on its node's line of descent is written. -/
def Program.RunsCodeOf (p : Program) (running : List Running) (home : Nat) : Prop :=
  ∃ a ∈ running.head?, ∃ l,
    definition? a.frame.attr (Formulary.lineage p.texts a.key.module a.key.node) = some l ∧
      l.frame = a.frame ∧ l.home = home

/-- An event is as it should be while these attributes are being computed. -/
def Event.Allowed (p : Program) (s : Setting σ) (running : List Running) : Event → Prop
  | .entered _ _ _ | .left _ _ _ => True
  | .method home receiver name args =>
    p.RunsCodeOf running home ∧ (s.whitelistOf home).Permits receiver name args
  | .function hostClass name args => s.HasFunction hostClass name args

namespace Setting

/-- What an event does to the host's state. -/
def effect (s : Setting σ) (event : Event) (host : σ) : σ :=
  match event with
  | .method _ (.foreign handle _) name args => ((s.host.invoke handle name args).run.run host).2
  | .function hostClass name args =>
    match s.host.class? hostClass with
    | some c => ((c.call name args).run.run host).2
    | none => host
  | _ => host

/-- What events do to the host's state, one after the other. -/
def replay (s : Setting σ) (events : List Event) (host : σ) : σ :=
  events.foldl (fun host event ↦ s.effect event host) host

end Setting

/-- These events lead from one world to another: they are all that is logged, they are all that
happens to the host, and each is as it should be. Before them the attributes `running` are being
computed, and after them `running'`. -/
structure Trace (p : Program) (s : Setting σ) (running : List Running) (w : World σ)
    (events : List Event) (running' : List Running) (w' : World σ) : Prop where
  log : w'.log = w.log.map (events.reverse ++ ·)
  host : w'.host = s.replay events w.host
  allowed : ∀ earlier event later, events = earlier ++ event :: later →
    event.Allowed p s (earlier.foldl Event.after running)
  running : events.foldl Event.after running = running'

namespace Trace

variable {p : Program} {s : Setting σ} {running running' running'' : List Running}
  {w w' w'' : World σ} {events events' : List Event} {event : Event}

/-- Nothing is logged, and nothing happens to the host. -/
theorem quiet (log : w'.log = w.log) (host : w'.host = w.host) :
    Trace p s running w [] running w' where
  log := by simp [log]
  host := host
  allowed earlier event later h := by simp at h
  running := rfl

/-- A single event. -/
theorem single (log : w'.log = w.log.map (event :: ·)) (host : w'.host = s.effect event w.host)
    (allowed : event.Allowed p s running) :
    Trace p s running w [event] (event.after running) w' where
  log := by simp [log]
  host := host
  allowed earlier e later h := by
    cases earlier with
    | nil =>
      cases h
      exact allowed
    | cons first rest => simp at h
  running := rfl

theorem trans (h : Trace p s running w events running' w')
    (h' : Trace p s running' w' events' running'' w'') :
    Trace p s running w (events ++ events') running'' w'' where
  log := by
    rw [h'.log, h.log, Option.map_map]
    congr 1
    funext log
    simp
  host := by
    rw [h'.host, h.host, Setting.replay, Setting.replay, Setting.replay, List.foldl_append]
  allowed earlier event later split := by
    rcases List.append_eq_append_iff.mp split with ⟨middle, rfl, rest⟩ | ⟨middle, here, rest⟩
    · rw [List.foldl_append, h.running]
      exact h'.allowed middle event later rest
    · cases middle with
      | nil =>
        rw [List.append_nil] at here
        rw [← here, h.running]
        exact h'.allowed [] event later rest.symm
      | cons first middle =>
        cases rest
        exact h.allowed earlier event middle here
  running := by rw [List.foldl_append, h.running, h'.running]

end Trace

/-- Two sets of built-in methods do the same in the calls among some events. -/
def BuiltIns.AgreeOn (events : List Event) (methods methods' : BuiltIns) : Prop :=
  ∀ home receiver name args, .method home receiver name args ∈ events →
    methods' receiver name args = methods receiver name args

/-! ### Policed evaluations -/

section

variable (p : Program) (s : Setting σ) (running : List Running)

/-- Evaluations by built-in methods that leave a trace from every world, and that end all
computations of attributes that they start. Methods that agree in the calls on the trace make no
difference. -/
def Policed {α : Type} (m : BuiltIns → Eval σ α) : Prop :=
  ∀ methods w, ∃ events, Trace p s running w events running ((m methods).run.run w).2 ∧
    ∀ methods', methods.AgreeOn events methods' → (m methods').run.run w = (m methods).run.run w

end

section

variable {p : Program} {s : Setting σ} {running : List Running} {α β : Type}

private theorem policed_of_quiet {m : Eval σ α}
    (h : ∀ w, (m.run.run w).2.log = w.log ∧ (m.run.run w).2.host = w.host) :
    Policed p s running fun _ ↦ m :=
  fun _ w ↦ ⟨[], .quiet (h w).1 (h w).2, fun _ _ ↦ rfl⟩

theorem BuiltIns.AgreeOn.of_append {events events' : List Event} {methods methods' : BuiltIns}
    (h : methods.AgreeOn (events ++ events') methods') :
    methods.AgreeOn events methods' ∧ methods.AgreeOn events' methods' :=
  ⟨fun _ _ _ _ called ↦ h _ _ _ _ (List.mem_append_left _ called),
    fun _ _ _ _ called ↦ h _ _ _ _ (List.mem_append_right _ called)⟩

theorem Policed.bind {m : BuiltIns → Eval σ α} {f : BuiltIns → α → Eval σ β}
    (hm : Policed p s running m) (hf : ∀ methods w a w', (m methods).run.run w = (.ok a, w') →
      Policed p s running fun methods ↦ f methods a) :
    Policed p s running fun methods ↦ m methods >>= f methods := by
  intro methods w
  obtain ⟨events, first, same⟩ := hm methods w
  simp only [run_bind]
  cases here : (m methods).run.run w with
  | mk result w' =>
    rw [here] at first same
    cases result with
    | error stop =>
      refine ⟨events, first, fun methods' agree ↦ ?_⟩
      rw [same methods' agree]
    | ok a =>
      obtain ⟨events', rest, same'⟩ := hf methods w a w' here methods w'
      refine ⟨events ++ events', first.trans rest, fun methods' agree ↦ ?_⟩
      rw [same methods' agree.of_append.1]
      exact same' methods' agree.of_append.2

theorem Policed.tryCatch {m : BuiltIns → Eval σ α} {handle : Stop → Eval σ α}
    (hm : Policed p s running m) (hh : ∀ stop, Policed p s running fun _ ↦ handle stop) :
    Policed p s running fun methods ↦ tryCatch (m methods) handle := by
  intro methods w
  obtain ⟨events, first, same⟩ := hm methods w
  simp only [run_tryCatch]
  cases here : (m methods).run.run w with
  | mk result w' =>
    rw [here] at first same
    cases result with
    | ok a =>
      refine ⟨events, first, fun methods' agree ↦ ?_⟩
      rw [same methods' agree]
    | error stop =>
      obtain ⟨events', rest, -⟩ := hh stop methods w'
      refine ⟨events ++ events', first.trans rest, fun methods' agree ↦ ?_⟩
      rw [same methods' agree.of_append.1]

private theorem policed_pure (a : α) : Policed p s running fun _ ↦ pure a :=
  policed_of_quiet fun _ ↦ ⟨rfl, rfl⟩

private theorem policed_throw (stop : Stop) : Policed p s running fun _ ↦ (throw stop : Eval σ α) :=
  policed_of_quiet fun _ ↦ ⟨rfl, rfl⟩

variable (p s running) in
/-- Policed evaluations can be put together. -/
def policed : Congruence σ fun _ : BuiltIns ↦ Eval σ where
  Holds P m := Policed p s running m ∧
    ∀ methods w a w', (m methods).run.run w = (.ok a, w') → P a
  holds_pure ha := ⟨policed_pure _, fun _ w b w' h ↦ by cases h; exact ha⟩
  holds_fault _ := ⟨policed_throw _, fun _ w b w' h ↦ by cases h⟩
  holds_bind hm hf := by
    refine ⟨hm.1.bind fun methods w a w' h ↦ (hf a (hm.2 methods w a w' h)).1,
      fun methods w b w'' h ↦ ?_⟩
    obtain ⟨a, w', first, rest⟩ := run_bind_eq_ok h
    exact (hf a (hm.2 methods w a w' first)).2 methods w' b w'' rest

theorem Policed.holds {m : BuiltIns → Eval σ α} (h : Policed p s running m) :
    (policed p s running).Holds (fun _ ↦ True) m :=
  ⟨h, fun _ _ _ _ _ ↦ trivial⟩

theorem Policed.safely {m : BuiltIns → Eval σ Value} (h : Policed p s running m) :
    Policed p s running fun methods ↦ Eval.safely (m methods) := by
  refine h.tryCatch fun stop ↦ ?_
  cases stop with
  | fault f => exact policed_pure _
  | _ => exact policed_throw _

/-! ### Calls -/

/-- An allowed event, and the code that it stands for. -/
theorem policed_record {event : Event} {m : BuiltIns → Eval σ α}
    (allowed : event.Allowed p s running) (same : event.after running = running)
    (effect : ∀ methods w, ((m methods).run.run w).2 = { w with host := s.effect event w.host })
    (agree : ∀ methods methods', methods.AgreeOn [event] methods' → m methods' = m methods) :
    Policed p s running fun methods ↦ (do Eval.record event; m methods) := by
  intro methods w
  have whole : ((do Eval.record event; m methods : Eval σ α).run.run w).2 =
      ((m methods).run.run (w.logged event)).2 := rfl
  have one : Trace p s running w [event] (event.after running)
      ((m methods).run.run (w.logged event)).2 := by
    rw [effect]
    exact .single rfl rfl allowed
  rw [same, ← whole] at one
  refine ⟨[event], one, fun methods' h ↦ ?_⟩
  dsimp only
  rw [agree methods methods' h]

private theorem policed_callFunction (hostClass function : String) (args : List Value) :
    Policed p s running fun _ ↦ s.callFunction hostClass function args := by
  rcases s.callFunction_cases hostClass function args with ⟨has, same⟩ | ⟨f, same⟩
  · rw [same]
    refine policed_record has rfl (fun _ w ↦ ?_) fun _ _ _ ↦ rfl
    obtain ⟨c, arity, hc, -⟩ := has
    simp only [Setting.runFunction, Setting.effect, hc, Eval.run_ofHost]
  · rw [same]
    exact policed_throw _

private theorem run_runMethod (s : Setting σ) (home : Nat) (receiver : Value) (name : String)
    (args : List Value) (w : World σ) :
    ((s.runMethod receiver name args).run.run w).2 =
      { w with host := s.effect (.method home receiver name args) w.host } := by
  cases receiver with
  | foreign handle types => exact congrArg Prod.snd (Eval.run_ofHost _ w)
  | _ => exact congrArg Prod.snd (Eval.run_ofOutcome _ w)

/-- A method that code calls is policed if the code is that of the innermost attribute. -/
theorem policed_callMethod {home : Nat} (writes : p.RunsCodeOf running home) (receiver : Value)
    (name : String) (args : List Value) :
    Policed p s running fun methods ↦
      (s.withMethods methods).callMethod home receiver name args := by
  rcases s.callMethod_withMethods_cases home receiver name args with
    ⟨target, -, permits, same⟩ | ⟨c, -, same⟩ | ⟨f, same⟩
  · simp only [same]
    refine policed_record ⟨writes, permits⟩ rfl
      (fun methods ↦ run_runMethod (s.withMethods methods) home receiver target args)
      fun methods methods' agree ↦ ?_
    have here := agree home receiver target args List.mem_cons_self
    cases receiver with
    | foreign handle types => rfl
    | _ => exact congrArg Eval.ofOutcome here
  · simp only [same]
    exact policed_callFunction c name args
  · simp only [same]
    exact policed_throw _

/-! ### Code and attributes -/

private theorem policed_newEnv (params : List (Value × Value)) :
    Policed p s running fun _ ↦ Eval.newEnv params :=
  policed_of_quiet fun _ ↦ ⟨rfl, rfl⟩

private theorem policed_attr {read : BuiltIns → Read (Eval σ)} {ref : NodeRef} {name : String}
    (reads : ∀ held env, Policed p s running fun i ↦ read i held env ref name)
    (held : List Nat) (env : Nat) (params : List (Value × Value)) :
    Policed p s running fun i ↦ NodeCall.attr (read i) held env ref params name :=
  ((policed p s running).holds_attr (fun _ _ h ↦ h) (policed_newEnv params).holds
    (fun env ↦ (reads held env).holds) (reads (env :: held) env).holds).1

/-- What code does is policed if reading attributes is. -/
theorem policed_base {read : BuiltIns → Read (Eval σ)} (cx : Context)
    (writes : p.RunsCodeOf running cx.home)
    (reads : ∀ held env node attr, Policed p s running fun i ↦ read i held env node attr) :
    (policed p s running).Base (fun _ ↦ True) s.withMethods (fun _ _ ↦ True)
      (Views.ofContext cx read) where
  part _ _ := trivial
  const _ := trivial
  node _ := trivial
  attr _ := (reads _ _ _ _).holds
  unbound _ _ := Policed.holds (policed_throw _)
  readNode _ _ := (reads _ _ _ _).holds
  readCall _ _ := (policed_attr (fun held env ↦ reads held env _ _) _ _ _).holds
  safely _ _ := (policed_attr (fun held env ↦ reads held env _ _) _ _ _).safely.holds
  amend _ _ := Policed.holds (policed_of_quiet fun _ ↦ ⟨rfl, rfl⟩)
  call {_ target args value entries} _ _ _ := by
    refine Policed.holds (policed_of_quiet (m := NodeCall.apply cx.node value _) fun w ↦ ?_)
    cases value <;> exact ⟨rfl, rfl⟩
  params := by
    refine Policed.holds (policed_of_quiet (m := Eval.visibleParams cx.env) fun w ↦ ?_)
    rw [Eval.run_visibleParams]
    exact ⟨rfl, rfl⟩
  param name :=
    ⟨policed_of_quiet (m := Eval.param? cx.env name) fun _ ↦ ⟨rfl, rfl⟩,
      fun _ _ _ _ _ _ _ ↦ trivial⟩
  method _ _ _ := (policed_callMethod writes _ _ _).holds
  attrMethod _ _ :=
    Policed.holds ((policed_callMethod writes _ _ _).tryCatch fun _ ↦ policed_throw _)
  function _ _ _ := (policed_callFunction _ _ _).holds

/-- While a slot is computed, the code that runs is written in the slot's home. -/
theorem runsCodeOf_slot (running : List Running) {node : NodeRef} {attr : String} {slot : Slot}
    (h : p.library.slot? node attr = some slot) :
    p.RunsCodeOf (⟨node.key slot, slot.frame⟩ :: running) slot.home := by
  obtain ⟨l, found, holds⟩ := exists_of_rel_right (p.slot?_rel node attr) h
  have name : slot.member.name = attr := by
    rw [Definition.name_of_member holds.member, name_of_definition? found]
  have frame : l.frame = slot.frame := by
    rw [Slot.frame, Located.frame, holds.homeName, Definition.name_of_member holds.member,
      Definition.line_of_member holds.member]
  refine ⟨_, rfl, l, ?_, frame, holds.home.symm⟩
  change definition? slot.member.name _ = _
  rw [name]
  exact found

/-- Computing an attribute is policed if running its body is while it is being computed. -/
theorem policed_compute {env : Nat} {key : MemoKey} {frame : Fault.Frame}
    {body : BuiltIns → Eval σ Value} (inside : Policed p s (⟨key, frame⟩ :: running) body) :
    Policed p s running fun methods ↦ Eval.compute env key frame (body methods) := by
  intro methods w
  have entered : Trace p s running w [.entered env key frame] (⟨key, frame⟩ :: running)
      (w.logged (.entered env key frame)) := .single rfl rfl trivial
  obtain ⟨events, inner, same⟩ := inside methods (w.logged (.entered env key frame))
  -- The events of the body stand between those that enter and leave the attribute.
  simp only [Eval.run_compute]
  cases ran : (body methods).run.run (w.logged (.entered env key frame)) with
  | mk result w' =>
    rw [ran] at inner same
    cases result with
    | ok v =>
      have left : Trace p s (⟨key, frame⟩ :: running) w' [.left env key (some v)] running
          ({ w' with envs := w'.envs.modify env (·.store key v) }.logged
            (.left env key (some v))) := .single rfl rfl trivial
      refine ⟨_, (entered.trans inner).trans left, fun methods' agree ↦ ?_⟩
      rw [same methods' agree.of_append.1.of_append.2]
    | error stop =>
      have left : Trace p s (⟨key, frame⟩ :: running) w' [.left env key none] running
          (w'.logged (.left env key none)) := .single rfl rfl trivial
      refine ⟨_, (entered.trans inner).trans left, fun methods' agree ↦ ?_⟩
      rw [same methods' agree.of_append.1.of_append.2]

/-- Reading an attribute is policed, however deep attributes may nest. -/
theorem policed_readAttr (library : s.library = p.library) (depth : Nat) :
    ∀ (running : List Running) (held : List Nat) (env : Nat) (node : NodeRef) (attr : String),
      Policed p s running fun methods ↦
        readAttr (s.withMethods methods) depth held env node attr := by
  induction depth with
  | zero => exact fun running held env node attr ↦ policed_throw _
  | succ depth ih =>
    intro running held env node attr
    cases found : s.library.slot? node attr with
    | none =>
      simp only [fun methods ↦ readAttr_of_none (s := s.withMethods methods) found]
      exact policed_throw _
    | some slot =>
      simp only [fun methods ↦ readAttr_of_some (s := s.withMethods methods) found]
      have looked : Policed p s running fun _ ↦
          (Eval.cached? env (node.key slot) : Eval σ (Option Value)) :=
        policed_of_quiet fun w ↦ ⟨rfl, rfl⟩
      refine looked.bind fun _ w cached w' _ ↦ ?_
      cases cached with
      | some v => exact policed_pure v
      | none =>
        rw [library] at found
        have base := policed_base ⟨env, held, node, slot.home, slot.homeName⟩
          (runsCodeOf_slot running found) (ih _)
        exact policed_compute (base.runBody operationsKeep_true _ _ fun _ _ ↦ trivial).1

end

/-! ### Requests -/

/-- An engine with other built-in methods. -/
def Engine.withMethods (e : Engine σ) (methods : BuiltIns) : Engine σ :=
  { e with setting := e.setting.withMethods methods }

section

variable {p : Program} {s : Setting σ} {running : List Running}

/-- Whatever an engine of a program is asked, its evaluation is policed. -/
theorem policed_answer (e : Engine σ) (library : e.setting.library = p.library)
    (request : Request) :
    Policed p e.setting running fun methods ↦ request.answer (e.withMethods methods) := by
  have asked := (policed p e.setting running).holds_answer operationsKeep_true
    (fun _ ↦ trivial) (e := e.withMethods) (fun _ ↦ rfl) e.fresh_node
    (fun _ ↦ trivial) (fun _ ↦ (policed_newEnv _).holds) (fun held env ref attr _ ↦
      (policed_readAttr library e.depth running held env ref attr).holds)
    (fun reads ↦ reads.1.safely.holds) request.among_true
  simp only [Request.answerIn_eval] at asked
  exact asked.1

end

namespace Program

/-- Every call that an evaluation makes is permitted, and a call that is not does nothing.

Whatever the engine of a module is asked, whatever built-in methods do, and in whichever world, the
evaluation leaves a list of events, which is what it adds to the log. No call is missing there: the
host's state afterwards is what the calls among the events make of its state before, and with other
built-in methods that do the same in the calls among the events, the evaluation has the same result
in the same world. A method among them is permitted by the whitelist of the module where the code of
the innermost attribute being computed is written, and a function of a host class takes that many
arguments. A call by code logs and runs a method that the whitelist of its module permits, or a
function that its class has; any other call fails and leaves the world as it was. -/
theorem calls_permitted (p : Program) (module : Fin p.library.modules.size) (host : Host σ)
    (whitelist : Whitelist) (depth : Nat) :
    (∀ (methods : BuiltIns) (request : Request) (w : World σ), ∃ events : List Event,
      let answered (methods : BuiltIns) :=
        (request.answer ((p.engine module host whitelist depth).withMethods methods)).run.run w
      (answered methods).2.log = w.log.map (events.reverse ++ ·) ∧
      (answered methods).2.host = (p.setting host whitelist).replay events w.host ∧
      (∀ earlier event later, events = earlier ++ event :: later →
        event.Allowed p (p.setting host whitelist) (earlier.foldl Event.after [])) ∧
      ∀ methods', methods.AgreeOn events methods' → answered methods' = answered methods) ∧
    (∀ (home : Nat) (receiver : Value) (name : String) (args : List Value),
      (∃ target, ((p.setting host whitelist).whitelistOf home).LeadsTo name target ∧
        ((p.setting host whitelist).whitelistOf home).Permits receiver target args ∧
        (p.setting host whitelist).callMethod home receiver name args = (do
          Eval.record (.method home receiver target args)
          (p.setting host whitelist).runMethod receiver target args)) ∨
      (∃ c, receiver = .hostClass c ∧
        (p.setting host whitelist).callMethod home receiver name args =
          (p.setting host whitelist).callFunction c name args) ∨
      ∃ f, ∀ w, ((p.setting host whitelist).callMethod home receiver name args).run.run w =
        (.error (.fault f), w)) ∧
    ∀ (hostClass function : String) (args : List Value),
      ((p.setting host whitelist).HasFunction hostClass function args ∧
        (p.setting host whitelist).callFunction hostClass function args = (do
          Eval.record (.function hostClass function args)
          (p.setting host whitelist).runFunction hostClass function args)) ∨
      ∃ f, ∀ w, ((p.setting host whitelist).callFunction hostClass function args).run.run w =
        (.error (.fault f), w) := by
  refine ⟨fun methods request w ↦ ?_, fun home receiver name args ↦ ?_,
    fun hostClass function args ↦ ?_⟩
  · have whole : Policed p (p.setting host whitelist) [] fun methods ↦
        request.answer ((p.engine module host whitelist depth).withMethods methods) :=
      policed_answer (p.engine module host whitelist depth) rfl request
    obtain ⟨events, trace, same⟩ := whole methods w
    exact ⟨events, trace.log, trace.host, trace.allowed, same⟩
  · rcases (p.setting host whitelist).callMethod_cases home receiver name args with
      permitted | onClass | ⟨f, failed⟩
    · exact .inl permitted
    · exact .inr (.inl onClass)
    · refine .inr (.inr ⟨f, fun w ↦ ?_⟩)
      rw [failed]
      rfl
  · rcases (p.setting host whitelist).callFunction_cases hostClass function args with
      has | ⟨f, failed⟩
    · exact .inl has
    · refine .inr ⟨f, fun w ↦ ?_⟩
      rw [failed]
      rfl

end Program

end Formulary
