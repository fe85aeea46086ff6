import Formulary.Proofs.Account
import Formulary.Proofs.Fresh
import Formulary.Proofs.Lowered

/-!
# What a watcher sees

A watcher has no influence: whatever is asked, a watched evaluation gives the result of the plain
one, a fault with the frames of the attributes around it in front, and leaves the same world
(`watches_answer`). Its notes give a true account of what is kept (`Account`), and if names are used
as they may be there are no slips among them.
-/

namespace Formulary

variable {σ α β : Type}

/-! ### Elementary steps -/

/-- Steps that compute no attribute: a fault made by one is new, and nothing is kept. -/
structure Elementary (m : Eval σ α) : Prop where
  fresh : ∀ w f w', m.run.run w = (.error (.fault f), w') → f.New
  memo : ∀ w env key, (m.run.run w).2.memo? env key = w.memo? env key

private theorem elementary_pure (a : α) : Elementary (pure a : Eval σ α) :=
  ⟨fun w f w' h ↦ (by cases h), fun w env key ↦ rfl⟩

private theorem elementary_ofExcept {x : Except Fault α} (h : Fresh x) :
    Elementary (Eval.ofExcept x : Eval σ α) := by
  cases x with
  | ok a => exact elementary_pure a
  | error f =>
    refine ⟨fun w f' w' same ↦ ?_, fun w env key ↦ rfl⟩
    cases same
    exact h f rfl

private theorem elementary_ofOutcome {x : Except Stop α} (h : StopsOnly Fault.New x) :
    Elementary (Eval.ofOutcome x : Eval σ α) := by
  cases x with
  | ok a => exact elementary_pure a
  | error stop =>
    refine ⟨fun w f w' same ↦ ?_, fun w env key ↦ rfl⟩
    cases same
    obtain broken | ⟨_, same, new⟩ := h _ rfl
    · cases broken
    · cases same
      exact new

theorem Elementary.bind {m : Eval σ α} {f : α → Eval σ β} (hm : Elementary m)
    (hf : ∀ a, Elementary (f a)) : Elementary (m >>= f) := by
  constructor
  · intro w fault w' h
    rw [run_bind] at h
    split at h
    · next a w₁ first => exact (hf a).fresh w₁ fault w' h
    · next first =>
      cases h
      exact hm.fresh w fault w' first
  · intro w env key
    have first := hm.memo w env key
    rw [run_bind]
    split
    · next a w₁ here =>
      rw [here] at first
      rw [(hf a).memo, first]
    · next here =>
      rw [here] at first
      exact first

/-- A step of which the fault is taken for another one. -/
theorem Elementary.rethrow {m : Eval σ α} (hm : Elementary m) {handle : Stop → Stop}
    (fresh : ∀ stop f, handle stop = .fault f → f.New) :
    Elementary (tryCatch m fun stop ↦ throw (handle stop)) := by
  constructor
  · intro w fault w' h
    rw [run_tryCatch] at h
    split at h
    · cases h
    · next stop _ _ => exact fresh stop fault (by injection h with h; exact Except.error.inj h)
  · intro w env key
    have first := hm.memo w env key
    rw [run_tryCatch]
    split
    · next here =>
      rw [here] at first
      exact first
    · next here =>
      rw [here] at first
      exact first

/-- A step that changes nothing about environments and cannot fail. -/
theorem elementary_of_envs {m : Eval σ α} (h : ∀ w, ∃ a w', m.run.run w = (.ok a, w') ∧
    ∀ env key, w'.memo? env key = w.memo? env key) : Elementary m := by
  constructor
  · intro w f w' failed
    obtain ⟨a, w₁, here, -⟩ := h w
    rw [here] at failed
    cases failed
  · intro w env key
    obtain ⟨a, w₁, here, memo⟩ := h w
    rw [here]
    exact memo env key

private theorem elementary_record (event : Event) : Elementary (Eval.record event : Eval σ Unit) :=
  elementary_of_envs fun w ↦ ⟨(), w.logged event, rfl, fun _ _ ↦ rfl⟩

private theorem elementary_param? (env : Nat) (name : String) :
    Elementary (Eval.param? env name : Eval σ (Option Value)) :=
  elementary_of_envs fun w ↦ ⟨_, w, rfl, fun _ _ ↦ rfl⟩

private theorem elementary_visibleParams (env : Nat) :
    Elementary (Eval.visibleParams env : Eval σ (List (Value × Value))) :=
  elementary_of_envs fun w ↦ ⟨_, w, Eval.run_visibleParams env w, fun _ _ ↦ rfl⟩

/-- A new environment keeps nothing yet. -/
theorem elementary_newEnv (params : List (Value × Value)) :
    Elementary (Eval.newEnv params : Eval σ Nat) :=
  elementary_of_envs fun w ↦ ⟨w.envs.size, { w with envs := w.envs.push { params } }, rfl,
    w.memo?_newEnv params⟩

private theorem elementary_create (node : NodeRef) (params : List (Value × Value)) :
    Elementary (NodeCall.create node params : Eval σ Value) :=
  (elementary_newEnv params).bind fun _ ↦ elementary_pure _

theorem elementary_apply (current : NodeRef) (target : Value) (params : List (Value × Value)) :
    Elementary (NodeCall.apply current target params : Eval σ Value) := by
  unfold NodeCall.apply
  split
  case h_4 => exact elementary_ofExcept (operational_mismatch _ _ _).fresh
  all_goals exact elementary_create _ _

private theorem elementary_ofHost (m : HostM σ α) : Elementary (Eval.ofHost m) := by
  constructor
  · intro w f w' h
    rw [Eval.run_ofHost] at h
    cases result : (m.run.run w.host).1 with
    | ok a =>
      rw [result] at h
      cases h
    | error message =>
      rw [result] at h
      cases h
      exact ⟨rfl, rfl⟩
  · intro w env key
    rw [Eval.run_ofHost]
    rfl

theorem elementary_fault {f : Fault} (new : f.New) : Elementary (throw (.fault f) : Eval σ α) :=
  elementary_ofExcept (x := .error f) fun f h ↦ by cases h; exact new

theorem elementary_callFunction (s : Setting σ) (hostClass function : String) (args : List Value) :
    Elementary (s.callFunction hostClass function args) :=
  Setting.callFunction_of (fun _ ↦ elementary_fault) hostClass function fun _ _ _ _ ↦
    (elementary_record _).bind fun _ ↦ elementary_ofHost _

theorem elementary_callMethod {s : Setting σ} (methods : s.builtIns = Value.send) (home : Nat)
    (receiver : Value) (method : String) (args : List Value) :
    Elementary (s.callMethod home receiver method args) := by
  refine Setting.callMethod_of (fun _ ↦ elementary_fault) home method
    (fun c ↦ elementary_callFunction s c method args)
    (fun _ _ ↦ (elementary_record _).bind fun _ ↦ elementary_ofHost _)
    fun target ↦ (elementary_record _).bind fun _ ↦ ?_
  rw [methods]
  exact elementary_ofOutcome (receiver.new_of_send target args)

theorem elementary_attrMethod {s : Setting σ} (methods : s.builtIns = Value.send) (home : Nat)
    (receiver : Value) (attr : String) :
    Elementary (tryCatch (s.callMethod home receiver attr []) fun stop ↦
      throw (Access.asAttribute receiver attr stop)) := by
  refine (elementary_callMethod methods home receiver attr []).rethrow fun stop f h ↦ ?_
  cases stop with
  | fault f =>
    cases h
    exact ⟨rfl, rfl⟩
  | disorder | exhausted => cases h

/-! ### Watched evaluations -/

/-- A stop with the frames of attributes around it. -/
def Stop.beneath (frames : List Fault.Frame) : Stop → Stop :=
  Stop.mapFault fun f ↦ ⟨f.cause, frames ++ f.frames⟩

@[simp] theorem Stop.beneath_nil (stop : Stop) : stop.beneath [] = stop := by
  cases stop <;> rfl

/-- The frame of an attribute comes last among the frames around what it computes. -/
theorem Stop.beneath_append (stop : Stop) (frames : List Fault.Frame) (frame : Fault.Frame) :
    stop.beneath (frames ++ [frame]) = (stop.within frame).beneath frames := by
  cases stop with
  | fault f => simp [Stop.beneath, Stop.within, Stop.mapFault, Fault.within]
  | disorder | exhausted => rfl

private theorem Stop.isBadCall_beneath (stop : Stop) (frames : List Fault.Frame) :
    (stop.beneath frames).isBadCall = stop.isBadCall := by
  cases stop with
  | fault f => cases f with | mk cause frames => cases cause <;> rfl
  | disorder | exhausted => rfl

/-- Where names are used as they may be, the evaluator is not to blame for a fault. -/
def Sane (named : Prop) (result : Except Stop α) : Prop :=
  named → ∀ f, result = .error (.fault f) → f.cause.isInternal = false

private theorem sane_ok {named : Prop} (a : α) : Sane named (.ok a) := fun _ _ h ↦ (by cases h)

private theorem sane_of_not_fault {named : Prop} {stop : Stop} (h : ∀ f, stop ≠ .fault f) :
    Sane named (.error stop : Except Stop α) :=
  fun _ f failed ↦ (h f (Except.error.inj failed)).elim

theorem Sane.within {named : Prop} {stop : Stop} (h : Sane named (.error stop : Except Stop α))
    (frame : Fault.Frame) : Sane named (.error (stop.within frame) : Except Stop α) := by
  intro hn f failed
  cases stop with
  | fault f' =>
    cases failed
    exact h hn f' rfl
  | disorder | exhausted => cases failed

/-- A watched evaluation does here what a plain one does, and the notes are a true account of it. -/
def WatchesAt (named : Prop) (m : Eval σ α) (m' : Watched σ α) (x : Watch σ) : Prop :=
  Sane named (m.run.run x.world).1 ∧ ∃ notes,
    m'.run.run x = ((m.run.run x.world).1.mapError (Stop.beneath x.frames),
      ⟨(m.run.run x.world).2, x.stack, x.notes ++ notes⟩) ∧
    Account named x.stack x.world notes (m.run.run x.world).2

/-- A watched evaluation does everywhere what a plain one does. -/
def Watches (named : Prop) (m : Eval σ α) (m' : Watched σ α) : Prop :=
  ∀ x : Watch σ, WatchesAt named m m' x

/-- Where no attribute is being computed, no frames are added. -/
theorem Watches.whole {named : Prop} {m : Eval σ α} {m' : Watched σ α} (h : Watches named m m')
    (w : World σ) :
    Sane named (m.run.run w).1 ∧ ∃ notes,
      m'.run.run { world := w } = ((m.run.run w).1, ⟨(m.run.run w).2, [], notes⟩) ∧
      Account named [] w notes (m.run.run w).2 := by
  obtain ⟨sane, notes, ran, account⟩ := h { world := w }
  refine ⟨sane, notes, ran.trans ?_, account⟩
  have unchanged : Stop.beneath [] = id := funext Stop.beneath_nil
  simp only [Watch.frames, List.map_nil, List.reverse_nil, unchanged, List.nil_append]
  cases (m.run.run w).1 <;> rfl

namespace Watch

private theorem run_step (m : Eval σ α) (x : Watch σ) :
    (step m).run.run x =
      match m.run.run x.world with
      | (.ok a, w) => (.ok a, { x with world := w })
      | (.error (.fault f), w) => (.error (.fault ⟨f.cause, x.frames⟩), { x with world := w })
      | (.error stop, w) => (.error stop, { x with world := w }) := by
  rw [step, run_bind, run_modifyGet]
  cases m.run.run x.world with
  | mk result w =>
    cases result with
    | ok a => rfl
    | error stop => cases stop <;> rfl

private theorem length_frames (x : Watch σ) : x.frames.length = x.stack.length := by simp [frames]

instance : LawfulMachine σ (Watched σ) where
  step_pure _ := rfl
  safely_fault {f} new := by
    refine ExceptT.ext (StateT.ext fun x ↦ ?_)
    change (tryCatch (step (throw (.fault f))) fun
      | .fault f => pure (Fault.toValue ⟨f.cause, f.frames.drop x.stack.length⟩)
      | stop => throw stop : Watched σ Value).run.run x = _
    have bare : f = ⟨f.cause, x.frames.drop x.stack.length⟩ := by
      rw [← x.length_frames, List.drop_length, ← new.frames]
    nth_rewrite 2 [bare]
    rw [run_tryCatch, run_step]
    rfl

end Watch

section

variable {named : Prop}

private theorem watches_pure (a : α) : Watches named (pure a : Eval σ α) (pure a) := by
  refine fun x ↦ ⟨sane_ok a, [], ?_, .quiet fun _ _ ↦ rfl⟩
  rw [List.append_nil]
  rfl

theorem watches_step {m : Eval σ α} (h : Elementary m) : Watches named m (Watch.step m) := by
  intro x
  refine ⟨fun _ f failed ↦ (h.fresh x.world f _ (Prod.ext failed rfl)).external, [], ?_,
    .quiet (h.memo x.world)⟩
  rw [Watch.run_step, List.append_nil]
  cases ran : m.run.run x.world with
  | mk result w =>
    cases result with
    | ok a => rfl
    | error stop =>
      cases stop with
      | fault f =>
        simp [Except.mapError, Stop.beneath, Stop.mapFault, (h.fresh x.world f w ran).frames]
      | disorder | exhausted => rfl

private theorem watches_exhausted :
    Watches named (throw .exhausted : Eval σ α) (Watch.step (throw .exhausted)) :=
  watches_step ⟨fun _ _ _ h ↦ (by cases h), fun _ _ _ ↦ rfl⟩

private theorem watches_fail {cause : Fault.Cause} (external : named → cause.isInternal = false) :
    Watches named (Eval.fail cause : Eval σ α) (Watch.step (Eval.fail cause)) := by
  intro x
  refine ⟨fun hn f failed ↦ ?_, [], ?_, .quiet fun _ _ ↦ rfl⟩
  · cases failed
    exact external hn
  · have whole : (Stop.fault ⟨cause, []⟩).beneath x.frames = .fault ⟨cause, x.frames⟩ := by
      simp [Stop.beneath, Stop.mapFault]
    change ((.error (.fault ⟨cause, x.frames⟩) : Except Stop α), x) =
      (.error ((Stop.fault ⟨cause, []⟩).beneath x.frames), ⟨x.world, x.stack, x.notes ++ []⟩)
    rw [whole, List.append_nil]

theorem Watches.bind {m : Eval σ α} {m' : Watched σ α} {f : α → Eval σ β} {f' : α → Watched σ β}
    (hm : Watches named m m')
    (hf : ∀ w a w', m.run.run w = (.ok a, w') → Watches named (f a) (f' a)) :
    Watches named (m >>= f) (m' >>= f') := by
  intro x
  obtain ⟨sane, notes, ran, account⟩ := hm x
  unfold WatchesAt
  rw [run_bind, run_bind, ran]
  cases here : m.run.run x.world with
  | mk result w =>
    rw [here] at sane account
    cases result with
    | error stop => exact ⟨fun hn f failed ↦ sane hn f (by cases failed; rfl), notes, rfl, account⟩
    | ok a =>
      obtain ⟨sane', notes', ran', account'⟩ :=
        hf x.world a w here ⟨w, x.stack, x.notes ++ notes⟩
      refine ⟨sane', notes ++ notes', ?_, account.trans account'⟩
      simp only [Except.mapError, ran', List.append_assoc]
      rfl

/-- A fault that is taken as a value has the frames of the attributes within. -/
theorem Watches.safely {m : Eval σ Value} {m' : Watched σ Value} (h : Watches named m m') :
    Watches named (Eval.safely m) (Watch.safely m') := by
  intro x
  obtain ⟨sane, notes, ran, account⟩ := h x
  unfold WatchesAt Eval.safely
  rw [run_tryCatch]
  change _ ∧ ∃ notes, (tryCatch m' fun
    | .fault f => pure (Fault.toValue ⟨f.cause, f.frames.drop x.stack.length⟩)
    | stop => throw stop : Watched σ Value).run.run x = _ ∧ _
  rw [run_tryCatch, ran]
  cases here : m.run.run x.world with
  | mk result w =>
    rw [here] at account
    cases result with
    | ok v => exact ⟨sane_ok v, notes, rfl, account⟩
    | error stop =>
      cases stop with
      | fault f =>
        refine ⟨sane_ok _, notes, ?_, account⟩
        simp only [Except.mapError, Stop.beneath, Stop.mapFault, ← x.length_frames,
          List.drop_left]
        rfl
      | disorder | exhausted => exact ⟨sane_of_not_fault (by simp), notes, rfl, account⟩

/-- A slip is noted where names are not used as they may be. -/
theorem Watches.slip {m : Eval σ α} {m' : Watched σ α} (h : Watches named m m')
    (unnamed : ¬named) (slip : Slip) : Watches named m (do Watch.note (.slip slip); m') := by
  intro x
  obtain ⟨sane, notes, ran, account⟩ := h { x with notes := x.notes ++ [.slip slip] }
  refine ⟨sane, .slip slip :: notes, ?_, (Account.slip unnamed slip).trans account⟩
  change m'.run.run { x with notes := x.notes ++ [.slip slip] } = _
  rw [ran, List.append_assoc]
  rfl

section

variable {s : Setting σ} {read : Read (Eval σ)} {read' : Read (Watched σ)}

/-! ### Names -/

/-- A code finds what it names, on a node and where `n` variables are bound: the attributes are
there, and the functions are. -/
def Code.Found (s : Setting σ) (node : NodeRef) (n : Nat) : Code → Prop
  | attr name => (s.library.slot? node name).isSome
  | var i => i < n
  | function owner name args => ∀ values : List Value, values.length = args.length →
      s.HasFunction owner name values
  | _ => True

/-- A function that a class has is not refused. -/
theorem not_isBadCall {hostClass function : String} {args : List Value} {w w' : World σ}
    {stop : Stop} (has : s.HasFunction hostClass function args)
    (failed : (s.callFunction hostClass function args).run.run w = (.error stop, w')) :
    stop.isBadCall = false := by
  obtain ⟨c, arity, hc, ha, accepts⟩ := has
  rw [c.arity?_signature] at ha
  obtain ⟨f, hf, rfl⟩ := Option.map_eq_some_iff.mp ha
  simp only [Setting.callFunction, hc, Option.bind_some, hf, accepts, if_true] at failed
  rw [run_bind, Eval.run_record] at failed
  simp only [Eval.run_ofHost] at failed
  cases result : (((f.run args).run.run (w.logged (.function hostClass function args)).host).1) with
  | ok v =>
    rw [result] at failed
    cases failed
  | error message =>
    rw [result] at failed
    cases failed
    rfl

private theorem watches_function {hostClass function : String} {args : List Value}
    (has : named → s.HasFunction hostClass function args) :
    Watches named (s.callFunction hostClass function args)
      (tryCatch (Watch.step (s.callFunction hostClass function args)) fun stop ↦ do
        if stop.isBadCall then Watch.note (.slip (.function hostClass function args))
        throw stop) := by
  intro x
  have stepped : Watches named (s.callFunction hostClass function args) _ :=
    watches_step (elementary_callFunction s hostClass function args)
  obtain ⟨sane, notes, ran, account⟩ := stepped x
  unfold WatchesAt
  rw [run_tryCatch, ran]
  cases here : (s.callFunction hostClass function args).run.run x.world with
  | mk result w =>
    rw [here] at sane account
    refine ⟨sane, ?_⟩
    cases result with
    | ok v => exact ⟨notes, rfl, account⟩
    | error stop =>
      simp only [Except.mapError]
      cases refused : stop.isBadCall with
      | false =>
        refine ⟨notes, ?_, account⟩
        rw [Stop.isBadCall_beneath, refused]
        rfl
      | true =>
        have unnamed : ¬named := by
          intro hn
          rw [not_isBadCall (has hn) here] at refused
          cases refused
        refine ⟨notes ++ [.slip (.function hostClass function args)], ?_,
          account.trans (.slip unnamed _)⟩
        rw [Stop.isBadCall_beneath, refused, ← List.append_assoc]
        rfl

/-! ### Code -/

/-- Evaluations, and evaluations with a watcher. -/
def Beside (σ : Type) : (watched : Bool) → Type → Type
  | false => Eval σ
  | true => Watched σ

instance : ∀ watched, Monad (Beside σ watched)
  | false => inferInstanceAs (Monad (Eval σ))
  | true => inferInstanceAs (Monad (Watched σ))

instance : ∀ watched, Machine σ (Beside σ watched)
  | false => inferInstanceAs (Machine σ (Eval σ))
  | true => inferInstanceAs (Machine σ (Watched σ))

instance : ∀ watched, LawfulMachine σ (Beside σ watched)
  | false => inferInstanceAs (LawfulMachine σ (Eval σ))
  | true => inferInstanceAs (LawfulMachine σ (Watched σ))

/-- Evaluations that are watched can be put together. -/
def watching (named : Prop) : Congruence σ (Beside σ) where
  Holds P x := Watches named (x false) (x true) ∧
    ∀ w a w', StateT.run (ExceptT.run (x false)) w = (.ok a, w') → P a
  holds_pure ha := ⟨watches_pure _, fun w b w' h ↦ by cases h; exact ha⟩
  holds_fault new := ⟨watches_step (elementary_fault new), fun w b w' h ↦ by cases h⟩
  holds_bind hm hf := by
    refine ⟨hm.1.bind fun w a w' h ↦ (hf a (hm.2 w a w' h)).1, fun w b w'' h ↦ ?_⟩
    obtain ⟨a, w', first, rest⟩ := run_bind_eq_ok h
    exact (hf a (hm.2 w a w' first)).2 w' b w'' rest

theorem Watches.holds {x : (watched : Bool) → Beside σ watched α}
    (h : Watches named (x false) (x true)) : (watching named).Holds (fun _ ↦ True) x :=
  ⟨h, fun _ _ _ _ ↦ trivial⟩

/-- Every reading of an attribute is watched. -/
abbrev WatchesReads (named : Prop) (read : Read (Eval σ)) (read' : Read (Watched σ)) : Prop :=
  ∀ held env node attr, Watches named (read held env node attr) (read' held env node attr)

/-- Reading attributes, and reading them with a watcher. -/
def readsBeside (read : Read (Eval σ)) (read' : Read (Watched σ)) :
    (watched : Bool) → Read (Beside σ watched)
  | false => read
  | true => read'

/-- Reading an attribute of a call is watched, whether it is being read already or not. -/
theorem watches_attr (reads : WatchesReads named read read') (held : List Nat) (env : Nat)
    (node : NodeRef) (params : List (Value × Value)) (name : String) :
    Watches named (NodeCall.attr read held env node params name)
      (NodeCall.attr read' held env node params name) := by
  unfold NodeCall.attr
  split
  · exact (watches_step (elementary_newEnv params)).bind fun _ env _ _ ↦ reads held env node name
  · exact reads (env :: held) env node name

/-- What code does is watched if reading attributes is. -/
theorem watches_base (cx : Context) (methods : s.builtIns = Value.send)
    (reads : WatchesReads named read read') :
    (watching named).Base (fun _ ↦ True) (fun _ ↦ s)
      (fun n code ↦ named → code.Scoped (Code.Found s cx.node) n)
      (Views.ofContext cx (readsBeside read read')) where
  part h hc hn := (h hn).part hc
  const _ := trivial
  node _ := trivial
  attr {n name} h := by
    refine Watches.holds ?_
    change Watches named (read cx.held cx.env cx.node name) (do
      if (s.library.slot? cx.node name).isNone then Watch.note (.slip (.attribute cx.node name))
      read' cx.held cx.env cx.node name)
    cases here : s.library.slot? cx.node name with
    | some slot => exact reads _ _ _ _
    | none =>
      have unnamed : ¬named := fun hn ↦ by
        have found : (s.library.slot? cx.node name).isSome := (h hn).self
        simp [here] at found
      exact (reads _ _ _ _).slip unnamed _
  unbound {n index} h outside := by
    have unnamed : ¬named := fun hn ↦ absurd outside (Nat.not_le.mpr (h hn).self)
    exact Watches.holds ((watches_fail fun hn ↦ absurd hn unnamed).slip unnamed _)
  readNode _ _ := Watches.holds (reads _ _ _ _)
  readCall _ _ := Watches.holds (watches_attr reads _ _ _ _ _)
  safely _ _ := Watches.holds (watches_attr reads _ _ _ _ _).safely
  amend _ _ := Watches.holds (watches_step (elementary_create _ _))
  call _ _ _ := Watches.holds (watches_step (elementary_apply _ _ _))
  params := Watches.holds (watches_step (elementary_visibleParams _))
  param name := ⟨watches_step (elementary_param? _ name), fun _ _ _ _ _ _ ↦ trivial⟩
  method _ _ _ := Watches.holds (watches_step (elementary_callMethod methods _ _ _ _))
  attrMethod _ _ := Watches.holds (watches_step (elementary_attrMethod methods _ _ _))
  function h length _ := Watches.holds (watches_function fun hn ↦ (h hn).self _ length)

/-! ### Attributes -/

/-- What it takes to keep the value of an attribute. -/
theorem Watch.run_keep (env : Nat) (key : MemoKey) (v : Value) (x : Watch σ) :
    (keep env key v).run.run x =
      (.ok (), { x with
        world := { x.world with envs := x.world.envs.modify env (·.store key v) }
        notes := x.notes ++ if env < x.world.envs.size then [.kept env key v] else [] }) := by
  have stored : (step (Eval.store env key v)).run.run x =
      (.ok (), { x with
        world := { x.world with envs := x.world.envs.modify env (·.store key v) } }) := by
    rw [run_step]
    rfl
  unfold keep
  rw [run_bind, stored]
  change ((if env < (x.world.envs.modify env (·.store key v)).size then note (.kept env key v)
    else pure () : Watched σ Unit).run.run _) = _
  rw [Array.size_modify]
  split
  · rfl
  · rw [List.append_nil]
    rfl

/-- What computing an attribute does with a watcher: the body is run with the attribute on the
stack. -/
theorem Watch.run_compute (env : Nat) (key : MemoKey) (frame : Fault.Frame)
    (body : Watched σ Value) (x : Watch σ) :
    (compute env key frame body).run.run x =
      match body.run.run ⟨x.world.logged (.entered env key frame), ⟨env, key, frame⟩ :: x.stack,
          x.notes ++ [.entered env key (x.isUnderway env key)]⟩ with
      | (.ok v, y) =>
        (.ok v, ⟨{ y.world with envs := y.world.envs.modify env (·.store key v) }.logged
            (.left env key (some v)), y.stack.tail,
          y.notes ++ if env < y.world.envs.size then [.kept env key v] else []⟩)
      | (.error stop, y) =>
        (.error stop, ⟨y.world.logged (.left env key none), y.stack.tail, y.notes⟩) := by
  have recorded : ∀ (event : Event) (x : Watch σ), (step (Eval.record event)).run.run x =
      (.ok (), { x with world := x.world.logged event }) := by
    intro event x
    rw [run_step]
    rfl
  have enters : ∀ (u : Underway) (x : Watch σ), (enter u).run.run x = (.ok (), { x with
      stack := u :: x.stack
      notes := x.notes ++ [.entered u.env u.key (x.isUnderway u.env u.key)] }) :=
    fun u x ↦ rfl
  unfold compute
  simp only [run_bind, run_tryCatch, recorded, enters]
  cases ran : body.run.run ⟨x.world.logged (.entered env key frame), ⟨env, key, frame⟩ :: x.stack,
      x.notes ++ [.entered env key (x.isUnderway env key)]⟩ with
  | mk result y =>
    simp only [Watch.isUnderway] at ran ⊢
    rw [ran]
    cases result with
    | ok v =>
      simp only [run_keep]
      rfl
    | error stop => rfl

private theorem Watch.isUnderway_of_mem {x : Watch σ} {u : Underway} (h : u ∈ x.stack) :
    x.isUnderway u.env u.key = true := by
  unfold isUnderway
  exact List.any_eq_true.mpr ⟨u, h, by simp⟩

/-- An attribute that is not kept yet is computed with a watcher as it is without, if its body is
run so. -/
theorem watches_compute {env : Nat} {key : MemoKey} {frame : Fault.Frame} {plain : Eval σ Value}
    {watched : Watched σ Value} (body : Watches named plain watched) {x : Watch σ}
    (new : x.world.memo? env key = none) :
    WatchesAt named (Eval.compute env key frame plain) (Watch.compute env key frame watched) x := by
  unfold WatchesAt
  rw [Watch.run_compute, Eval.run_compute]
  obtain ⟨sane, notes, ran, account⟩ := body ⟨x.world.logged (.entered env key frame),
    ⟨env, key, frame⟩ :: x.stack, x.notes ++ [.entered env key (x.isUnderway env key)]⟩
  have told : (∃ u ∈ x.stack, u.env = env ∧ u.key = key) → x.isUnderway env key = true := by
    rintro ⟨u, hu, rfl, rfl⟩
    exact Watch.isUnderway_of_mem hu
  rw [ran]
  cases here : plain.run.run (x.world.logged (.entered env key frame)) with
  | mk result w =>
    dsimp only at sane account
    rw [here] at sane account
    have before : Account named x.stack x.world []
        (x.world.logged (.entered env key frame)) := .quiet fun _ _ ↦ rfl
    have entered := before.trans (account.enter new told)
    cases result with
    | error stop =>
      refine ⟨sane.within frame, _, ?_, entered.trans (.quiet fun _ _ ↦ rfl)⟩
      simp [Except.mapError, Watch.frames, Stop.beneath_append]
    | ok v =>
      by_cases there : env < w.envs.size
      · have stored : ∀ env' key', (w.storing env key v).memo? env' key' =
            if env = env' ∧ key = key' then some v else w.memo? env' key' := by
          intro env' key'
          simp only [World.memo?_storing, there, and_true]
        refine ⟨sane_ok v, _, ?_, before.trans (account.keep new told stored)⟩
        simp [Except.mapError, there]
      · refine ⟨sane_ok v, _, ?_, entered.trans (.quiet fun env' key' ↦ ?_)⟩
        · simp [Except.mapError, there]
        · exact (w.memo?_storing env env' key key' v).trans (by simp [there])

/-- What reading an attribute does: the value that is kept, or else what computing it does. -/
theorem run_readAttr {held : List Nat} {env : Nat} {node : NodeRef} {attr : String} {slot : Slot}
    {depth : Nat} (found : s.library.slot? node attr = some slot) (w : World σ) :
    (readAttr s (depth + 1) held env node attr).run.run w =
      match w.memo? env (node.key slot) with
      | some v => (.ok v, w)
      | none => (compute s (readAttr s depth) held env node slot).run.run w := by
  rw [readAttr_of_some found, run_bind, Eval.run_cached?, ← World.memo?]
  cases w.memo? env (node.key slot) <;> rfl

theorem Watch.run_readAttr {held : List Nat} {env : Nat} {node : NodeRef} {attr : String}
    {slot : Slot} {depth : Nat} (found : s.library.slot? node attr = some slot) (x : Watch σ) :
    (Watch.readAttr s (depth + 1) held env node attr).run.run x =
      match x.world.memo? env (node.key slot) with
      | some v => (.ok v, x)
      | none => (Formulary.compute s (Watch.readAttr s depth) held env node slot).run.run x := by
  simp only [readAttr, readAttrIn, found]
  change (step (Eval.cached? env (node.key slot)) >>= _ :
    Watched σ Value).run.run x = _
  rw [run_bind, run_step, Eval.run_cached?, ← World.memo?]
  cases x.world.memo? env (node.key slot) <;> rfl

/-- Watched attributes are read as the attributes are, if what their code names is found. -/
theorem watches_readAttr (methods : s.builtIns = Value.send)
    (found : named → ∀ node attr slot code, s.library.slot? node attr = some slot →
      slot.member.body.code? = some code → code.Scoped (Code.Found s node) 0) :
    ∀ depth, WatchesReads named (readAttr s depth) (Watch.readAttr s depth)
  | 0, _, _, _, _ => watches_exhausted
  | depth + 1, held, env, node, attr => by
    cases here : s.library.slot? node attr with
    | none =>
      simp only [readAttr, Watch.readAttr, readAttrIn, here]
      exact watches_fail fun _ ↦ rfl
    | some slot =>
      let cx : Context := ⟨env, held, node, slot.home, slot.homeName⟩
      have body : Watches named (runBody s (readAttr s depth) cx slot.member.name slot.member.body)
          (runBody s (Watch.readAttr s depth) cx slot.member.name slot.member.body) :=
        ((watches_base cx methods (watches_readAttr methods found depth)).runBody
          operationsKeep_true slot.member.name slot.member.body
          fun code hc hn ↦ found hn node attr slot code here hc).1
      intro x
      rw [WatchesAt, Watch.run_readAttr here, run_readAttr here]
      cases new : x.world.memo? env (node.key slot) with
      | some v => exact watches_pure v x
      | none => exact watches_compute body new

end

/-! ### Requests -/

/-- Watched answers to requests are the answers, if what code names is found. -/
theorem watches_answer {e : Engine σ} (methods : e.setting.builtIns = Value.send)
    (found : named → ∀ node attr slot code, e.setting.library.slot? node attr = some slot →
      slot.member.body.code? = some code → code.Scoped (Code.Found e.setting node) 0)
    (request : Request) :
    Watches named (request.answer e) (request.watch e) := by
  rw [← Request.answerIn_eval]
  exact ((watching named).holds_answer operationsKeep_true (fun _ ↦ trivial) (e := fun _ ↦ e)
    (fun _ ↦ rfl) e.fresh_node (fun _ ↦ trivial)
    (fun _ ↦ Watches.holds (watches_step (elementary_newEnv _))) (fun held env ref attr _ ↦
      Watches.holds (watches_readAttr methods found e.depth held env ref attr))
    (fun reads ↦ Watches.holds (Watches.safely reads.1)) request.among_true).1

end

end Formulary
