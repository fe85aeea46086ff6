import Formulary.Host.Samples
import Formulary.Proofs.Bulk
import Formulary.Proofs.MadeOf
import Formulary.Proofs.Watching

/-!
# What evaluation keeps

A kind of worlds is kept by evaluation if the steps of evaluation keep it: making an environment,
logging an event, running host code and keeping the value of an attribute (`Regime`). The values in
such worlds are of some kind as well, which the operations on values do not leave (`ValuesKeep`).
Then whatever is read of nodes of that kind leads from such worlds to such worlds and gives values
of that kind (`Regime.readAttr`), and so does whatever is asked (`Regime.answer`). Settings that
treat these nodes in the same way give the same results in the same worlds.
-/

namespace Formulary

variable {σ ι : Type}

/-! ### Kinds of values and kinds of worlds -/

/-- What is done with values, node calls and their parameters included, leads from values of some
kind to values of that kind. -/
structure ValuesKeep (good : Value → Prop) : Prop extends OperationsKeep good where
  str : ∀ s, good (.str s)
  send : ∀ {receiver name args v}, good receiver → (∀ a ∈ args, good a) →
    receiver.send name args = .ok v → good v
  called : ∀ {env ref params}, good (.call env ref params) → good (.node ref) ∧ good (.map params)
  merge : ∀ {params extra}, good (.map params) → good (.map extra) →
    good (.map (Indexed.merge params extra))
  visible : ∀ {e : Env}, good (.map e.params) → good (.map e.visibleParams)
  given : ∀ {e : Env} {name v}, good (.map e.params) → e.param? name = some v → good v

theorem valuesKeep_true : ValuesKeep fun _ ↦ True where
  toOperationsKeep := operationsKeep_true
  str _ := trivial
  send _ _ _ := trivial
  called _ := ⟨trivial, trivial⟩
  merge _ _ := trivial
  visible _ := trivial
  given _ _ := trivial

/-- No operation leads to values with something new in them, if only nodes and node calls can be
something new. -/
theorem Value.valuesKeep_every {P : Value → Prop} (free : ∀ v : Value, v.Ordinary → P v)
    (called : ∀ {env ref params}, P (.call env ref params) → P (.node ref)) :
    ValuesKeep (Every P) where
  toOperationsKeep := operationsKeep_every free
  str s := every_leaf free ⟨trivial, rfl⟩
  send hr ha h := every_send free hr ha h
  called h := ⟨every_iff.mpr ⟨called h.self, fun _ hv ↦ by cases hv⟩,
    every_map free (bothOf_of_parts fun _ hw ↦ h.part hw)⟩
  merge hp he := (formed_of_free free).every_merge hp he.entry
  visible {e} h := every_map free fun entry he ↦ h.entry entry (List.mem_filter.mp he).1
  given {e name v} h found := by
    obtain ⟨entry, he, rfl⟩ := Env.exists_of_param?_eq_some found
    exact (h.entry entry he).2

/-- The constants and the nodes that stand in a code are of some kind; the code is written in the
module `home`. -/
def Code.Among (good : Value → Prop) (home : Nat) (homeName : String) : Code → Prop
  | const v => good v
  | node target => good (.node (target.ref home homeName))
  | _ => True

/-- The values in an event are of some kind. -/
def Event.Among (good : Value → Prop) : Event → Prop
  | .entered _ _ _ | .left _ _ none => True
  | .left _ _ (some v) => good v
  | .method _ receiver _ args => good receiver ∧ ∀ a ∈ args, good a
  | .function _ _ args => ∀ a ∈ args, good a

/-- Host code that is run with these arguments: a function of a class, or a method of an object. -/
inductive Host.Runs (h : Host σ) (args : List Value) : HostM σ Value → Prop where
  | function {c : HostClass σ} {f : HostFunction σ} (hc : c ∈ h.classes) (hf : f ∈ c.functions) :
    Runs h args (f.run args)
  | method (handle : Nat) (name : String) : Runs h args (h.invoke handle name args)

theorem World.memo?_of_env {w : World σ} {i : Nat} {e : Env} (h : w.envs[i]? = some e)
    (key : MemoKey) : w.memo? i key = e.cached? key := by
  rw [memo?, h, Option.bind_some]

/-- Worlds of the kind `fine` have values of the kind `good` in them, and evaluation does not leave
them. -/
structure Regime (s : Setting σ) (good : Value → Prop) (fine : World σ → Prop) : Prop where
  methods : s.builtIns = Value.send
  params : ∀ {w : World σ} {env : Nat} {e : Env}, fine w → w.envs[env]? = some e →
    good (.map e.params)
  kept : ∀ {w env key v}, fine w → w.memo? env key = some v → good v
  /-- The code of nodes of that kind has such values in it. -/
  code : ∀ {ref attr slot code}, good (.node ref) → s.library.slot? ref attr = some slot →
    slot.member.body.code? = some code → code.Every (Code.Among good slot.home slot.homeName)
  newEnv : ∀ {w params}, fine w → good (.map params) →
    fine { w with envs := w.envs.push { params } }
  /-- A new call is of that kind, with an environment that is not there yet. -/
  made : ∀ {w ref params}, fine w → good (.node ref) → good (.map params) →
    good (.call w.envs.size ref params)
  logged : ∀ {w event}, fine w → event.Among good → fine (w.logged event)
  host : ∀ {w args m}, fine w → (∀ a ∈ args, good a) → s.host.Runs args m →
    (∀ v, (m.run.run w.host).1 = .ok v → good v) ∧
      fine { w with host := (m.run.run w.host).2 }
  /-- A value that was computed is kept. -/
  store : ∀ {depth held w w' env ref attr slot v}, good (.node ref) →
    s.library.slot? ref attr = some slot → fine w →
    w.memo? env (ref.key slot) = none → fine w' → good v →
    (compute s (readAttr s depth) held env ref slot).run.run w =
      (.ok v, w'.storing env (ref.key slot) v) →
    fine (w'.storing env (ref.key slot) v)

/-- Host code leads from values and states of some kind to such values and states. -/
def Host.Keeps (h : Host σ) (good : Value → Prop) (ok : σ → Prop) : Prop :=
  ∀ ⦃args m state⦄, h.Runs args m → (∀ a ∈ args, good a) → ok state →
    (∀ v, (m.run.run state).1 = .ok v → good v) ∧ ok (m.run.run state).2

/-- The values in a world are of some kind, and so is the host's state: the parameters in
environments, the values that are kept there, and the values in the log if there is one. -/
structure World.Among (good : Value → Prop) (ok : σ → Prop) (w : World σ) : Prop where
  params : ∀ {env : Nat} {e : Env}, w.envs[env]? = some e → good (.map e.params)
  kept : ∀ {env key v}, w.memo? env key = some v → good v
  logged : ∀ {events}, w.log = some events → ∀ event ∈ events, event.Among good
  host : ok w.host

namespace World.Among

variable {good : Value → Prop} {ok : σ → Prop} {w : World σ}

/-- There is nothing in a new world. -/
theorem new {state : σ} (h : ok state) :
    ({ host := state, log := some [] } : World σ).Among good ok where
  params found := by simp at found
  kept memo := by simp [memo?] at memo
  logged {events} log := by
    cases log
    exact List.forall_mem_nil _
  host := h

theorem record (h : w.Among good ok) {event : Event} (he : event.Among good) :
    (w.logged event).Among good ok where
  params := h.params
  kept := h.kept
  logged {events} log := by
    obtain ⟨before, earlier, rfl⟩ := Option.map_eq_some_iff.mp log
    exact List.forall_mem_cons.mpr ⟨he, h.logged earlier⟩
  host := h.host

theorem newEnv (h : w.Among good ok) {params : List (Value × Value)} (hp : good (.map params)) :
    { w with envs := w.envs.push { params } }.Among good ok where
  params {env e} found := by
    rw [Array.getElem?_push] at found
    split at found
    · cases found
      exact hp
    · exact h.params found
  kept {env key v} memo := by
    rw [memo?_newEnv] at memo
    exact h.kept memo
  logged := h.logged
  host := h.host

theorem storing (h : w.Among good ok) (env : Nat) (key : MemoKey) {v : Value} (hv : good v) :
    (w.storing env key v).Among good ok := by
  have event : (Event.left env key (some v)).Among good := hv
  constructor
  case logged => exact (h.record event).logged
  case host => exact h.host
  case params =>
    intro env' e found
    change (w.envs.modify env (·.store key v))[env']? = some e at found
    rw [Array.getElem?_modify] at found
    split at found
    · obtain ⟨before, there, rfl⟩ := Option.map_eq_some_iff.mp found
      exact (h.params there : good (.map before.params))
    · exact h.params found
  case kept =>
    intro env' key' u memo
    rw [memo?_storing] at memo
    split at memo
    · cases memo
      exact hv
    · exact h.kept memo

end World.Among

/-- Worlds with values of some kind in them are not left if the code of nodes and the host keep to
that kind. -/
theorem regime_among {s : Setting σ} {good : Value → Prop} {ok : σ → Prop}
    (methods : s.builtIns = Value.send)
    (call : ∀ {ref params} env, good (.node ref) → good (.map params) →
      good (.call env ref params))
    (code : ∀ {ref attr slot code}, good (.node ref) → s.library.slot? ref attr = some slot →
      slot.member.body.code? = some code → code.Every (Code.Among good slot.home slot.homeName))
    (keeps : s.host.Keeps good ok) : Regime s good (World.Among good ok) where
  methods := methods
  params h found := h.params found
  kept h memo := h.kept memo
  code := code
  newEnv h hp := h.newEnv hp
  made _ hr hp := call _ hr hp
  logged h he := h.record he
  host h ha runs := by
    obtain ⟨result, after⟩ := keeps runs ha h.host
    exact ⟨result, h.params, h.kept, h.logged, after⟩
  store _ _ _ _ h hv _ := h.storing _ _ hv

/-! ### Evaluations that are confined -/

/-- From every world of some kind, several evaluations lead to one and the same world of that kind,
and to the same result, which satisfies `P` if it is one. -/
def confined (ι : Type) (fine : World σ → Prop) : Congruence σ fun _ : ι ↦ Eval σ where
  Holds P m := ∀ w, fine w → ∃ result w', (∀ i, (m i).run.run w = (result, w')) ∧ fine w' ∧
    ∀ a, result = .ok a → P a
  holds_pure ha w hw := ⟨_, w, fun _ ↦ rfl, hw, fun b hb ↦ by cases hb; exact ha⟩
  holds_fault _ w hw := ⟨_, w, fun _ ↦ rfl, hw, fun b hb ↦ by cases hb⟩
  holds_bind {_ _ _ _ m f} hm hf w hw := by
    obtain ⟨result, w', first, hw', hP⟩ := hm w hw
    cases result with
    | error stop =>
      refine ⟨.error stop, w', fun i ↦ ?_, hw', fun b hb ↦ by cases hb⟩
      rw [run_bind, first i]
    | ok a =>
      obtain ⟨result', w'', rest, hw'', hQ⟩ := hf a (hP a rfl) w' hw'
      refine ⟨result', w'', fun i ↦ ?_, hw'', hQ⟩
      rw [run_bind, first i]
      exact rest i

section

variable {fine : World σ → Prop} {α : Type} {P : α → Prop}

/-- A single evaluation is confined if its results and the worlds after it are of the right kind. -/
theorem confined_of_run {m : Eval σ α} (h : ∀ w, fine w → fine (m.run.run w).2 ∧
    ∀ a, (m.run.run w).1 = .ok a → P a) : (confined ι fine).Holds P fun _ ↦ m :=
  fun w hw ↦ ⟨_, _, fun _ ↦ rfl, (h w hw).1, (h w hw).2⟩

private theorem confined_throw (stop : Stop) : (confined ι fine).Holds P fun _ ↦ throw stop :=
  fun w hw ↦ ⟨_, w, fun _ ↦ rfl, hw, fun b hb ↦ by cases hb⟩

private theorem confined_ofOutcome {x : Except Stop α} (h : ∀ a, x = .ok a → P a) :
    (confined ι fine).Holds P fun _ ↦ Eval.ofOutcome x := by
  cases x with
  | ok a => exact (confined ι fine).holds_pure (h a rfl)
  | error stop => exact confined_throw stop

private theorem confined_tryCatch {m : ι → Eval σ α} {handle : Stop → Eval σ α}
    (hm : (confined ι fine).Holds P m)
    (hh : ∀ stop, (confined ι fine).Holds P fun _ ↦ handle stop) :
    (confined ι fine).Holds P fun i ↦ tryCatch (m i) handle := by
  intro w hw
  obtain ⟨result, w', first, hw', hP⟩ := hm w hw
  cases result with
  | ok a =>
    refine ⟨.ok a, w', fun i ↦ ?_, hw', hP⟩
    rw [run_tryCatch, first i]
  | error stop =>
    obtain ⟨result', w'', rest, hw'', hQ⟩ := hh stop w' hw'
    refine ⟨result', w'', fun i ↦ ?_, hw'', hQ⟩
    rw [run_tryCatch, first i]
    exact rest i

theorem confined_safely {good : Value → Prop} (keep : OperationsKeep good) {m : ι → Eval σ Value}
    (hm : (confined ι fine).Holds good m) :
    (confined ι fine).Holds good fun i ↦ Eval.safely (m i) := by
  refine confined_tryCatch hm fun stop ↦ ?_
  cases stop with
  | fault f => exact (confined ι fine).holds_pure (keep.fault f)
  | disorder | exhausted => exact confined_throw _

end

namespace Regime

variable {s : Setting σ} {good : Value → Prop} {fine : World σ → Prop}

/-! ### Steps -/

theorem confined_newEnv (h : Regime s good fine) {params : List (Value × Value)}
    (hp : good (.map params)) :
    (confined ι fine).Holds (fun _ ↦ True) fun _ ↦ Eval.newEnv params :=
  confined_of_run fun _ hw ↦ ⟨h.newEnv hw hp, fun _ _ ↦ trivial⟩

theorem confined_create (h : Regime s good fine) {ref : NodeRef} {params : List (Value × Value)}
    (hr : good (.node ref)) (hp : good (.map params)) :
    (confined ι fine).Holds good fun _ ↦ NodeCall.create ref params :=
  confined_of_run fun _ hw ↦ ⟨h.newEnv hw hp, fun v hv ↦ by cases hv; exact h.made hw hr hp⟩

/-- An event, and the host code that it stands for. -/
theorem confined_ofHost (h : Regime s good fine) (event : Event) {args : List Value}
    {m : HostM σ Value} (he : event.Among good) (ha : ∀ a ∈ args, good a)
    (runs : s.host.Runs args m) :
    (confined ι fine).Holds good fun _ ↦ (do Eval.record event; Eval.ofHost m) := by
  refine confined_of_run fun w hw ↦ ?_
  have ran : (do Eval.record event; Eval.ofHost m : Eval σ Value).run.run w =
      (Eval.ofHost m).run.run (w.logged event) := rfl
  obtain ⟨result, after⟩ := h.host (h.logged hw he) ha runs
  rw [ran, Eval.run_ofHost]
  refine ⟨after, fun v hv ↦ ?_⟩
  cases here : (m.run.run (w.logged event).host).1 with
  | ok u =>
    rw [here] at hv
    cases hv
    exact result v here
  | error message =>
    rw [here] at hv
    cases hv

theorem confined_callFunction (h : Regime s good fine) {args : List Value} (hostClass name : String)
    (ha : ∀ a ∈ args, good a) :
    (confined ι fine).Holds good fun _ ↦ s.callFunction hostClass name args := by
  refine Setting.callFunction_of (Q := fun m ↦ (confined ι fine).Holds good fun _ ↦ m)
    (fun _ _ ↦ confined_throw _) hostClass name fun c f hc hf ↦ ?_
  have runs : s.host.Runs args (f.run args) :=
    .function (List.mem_of_find?_eq_some hc) (List.mem_of_find?_eq_some hf)
  rw [HostClass.call, hf]
  exact h.confined_ofHost (.function hostClass name args) ha ha runs

theorem confined_callMethod (h : Regime s good fine) (keep : ValuesKeep good) {receiver : Value}
    {args : List Value} (home : Nat) (name : String) (hr : good receiver)
    (ha : ∀ a ∈ args, good a) :
    (confined ι fine).Holds good fun _ ↦ s.callMethod home receiver name args := by
  have among (target : String) : (Event.method home receiver target args).Among good := ⟨hr, ha⟩
  refine Setting.callMethod_of (Q := fun m ↦ (confined ι fine).Holds good fun _ ↦ m)
    (fun _ _ ↦ confined_throw _) home name (h.confined_callFunction · name ha)
    (fun handle target ↦ h.confined_ofHost _ (among target) ha (.method handle target))
    fun target ↦ ?_
  have logs : (confined ι fine).Holds (fun _ ↦ True)
      fun _ ↦ Eval.record (.method home receiver target args) :=
    confined_of_run fun w hw ↦ ⟨h.logged hw (among target), fun _ _ ↦ trivial⟩
  rw [h.methods]
  exact (confined ι fine).holds_bind logs fun _ _ ↦ confined_ofOutcome fun v hv ↦
    keep.send hr ha hv

/-! ### Code and attributes -/

/-- Ways to hold environments that are the same for calls of some kind. -/
def HeldAlike (good : Value → Prop) (held : ι → List Nat) : Prop :=
  ∀ ⦃env ref params⦄, good (.call env ref params) → ∀ i j, env ∈ held i → env ∈ held j

theorem heldAlike_const (held : List Nat) : HeldAlike good fun _ : ι ↦ held :=
  fun _ _ _ _ _ _ h ↦ h

theorem HeldAlike.cons {held : ι → List Nat} (h : HeldAlike good held) (env : Nat) :
    HeldAlike good fun i ↦ env :: held i := by
  intro env' ref params hc i j inside
  rcases List.mem_cons.mp inside with rfl | inside
  · exact List.mem_cons_self
  · exact List.mem_cons_of_mem _ (h hc i j inside)

/-- Reading an attribute of a call of the right kind is confined if reading nodes is. -/
theorem confined_attr (h : Regime s good fine) (keep : ValuesKeep good) {held : ι → List Nat}
    (alike : HeldAlike good held) {read : ι → Read (Eval σ)}
    (reads : ∀ held : ι → List Nat, HeldAlike good held → ∀ env ref attr, good (.node ref) →
      (confined ι fine).Holds good fun i ↦ read i (held i) env ref attr)
    {env : Nat} {ref : NodeRef} {params : List (Value × Value)} {name : String}
    (hc : good (.call env ref params)) :
    (confined ι fine).Holds good fun i ↦ NodeCall.attr (read i) (held i) env ref params name := by
  obtain ⟨hr, hp⟩ := keep.called hc
  exact (confined ι fine).holds_attr (alike hc) (h.confined_newEnv hp)
    (fun env ↦ reads held alike env ref name hr) (reads _ (alike.cons env) env ref name hr)

/-- What code does, in settings that police calls in the same way, is confined if reading nodes of
the right kind is. -/
theorem base (h : Regime s good fine) (keep : ValuesKeep good) (cx : Context)
    {held : ι → List Nat} (alike : HeldAlike good held) {t : ι → Setting σ}
    (method : ∀ i, (t i).callMethod cx.home = s.callMethod cx.home)
    (function : ∀ i, (t i).callFunction = s.callFunction) {read : ι → Read (Eval σ)}
    (current : good (.node cx.node))
    (reads : ∀ held : ι → List Nat, HeldAlike good held → ∀ env ref attr, good (.node ref) →
      (confined ι fine).Holds good fun i ↦ read i (held i) env ref attr) :
    (confined ι fine).Base good t (fun _ ↦ Code.Every (Code.Among good cx.home cx.homeName))
      { Views.ofContext cx read with held } where
  part h hc := h.boundPart hc
  const h := h.self
  node h := h.self
  attr _ := reads held alike _ _ _ current
  unbound _ _ := confined_throw _
  readNode _ hr := reads held alike _ _ _ hr
  readCall _ hc := h.confined_attr keep alike reads hc
  safely _ hc := confined_safely keep.toOperationsKeep (h.confined_attr keep alike reads hc)
  amend hc he := by
    obtain ⟨hr, hp⟩ := keep.called hc
    exact h.confined_create hr (keep.merge hp he)
  call {_ target args value entries} _ hv he := by
    have hm := keep.map he
    cases value with
    | nil => exact h.confined_create current hm
    | node ref => exact h.confined_create hv hm
    | call env ref params =>
      obtain ⟨hr, hp⟩ := keep.called hv
      exact h.confined_create hr (keep.merge hp hm)
    | _ => exact confined_throw _
  params := by
    refine confined_of_run (m := Eval.visibleParams cx.env) fun w hw ↦ ?_
    rw [Eval.run_visibleParams]
    refine ⟨hw, fun entries he ↦ ?_⟩
    cases he
    cases found : w.envs[cx.env]? with
    | none => exact keep.map fun e (he : e ∈ []) ↦ by cases he
    | some e => exact keep.visible (h.params hw found)
  param name := by
    refine confined_of_run (m := Eval.param? cx.env name) fun w hw ↦
      ⟨hw, fun given hg value hv ↦ ?_⟩
    cases hg
    obtain ⟨e, found, hv⟩ := Option.bind_eq_some_iff.mp hv
    exact keep.given (h.params hw found) hv
  method {receiver args} name hr ha := by
    change (confined ι fine).Holds good fun i ↦ (t i).callMethod cx.home receiver name args
    simp only [method]
    exact h.confined_callMethod keep cx.home name hr ha
  attrMethod {receiver} name hr := by
    change (confined ι fine).Holds good fun i ↦
      tryCatch ((t i).callMethod cx.home receiver name []) _
    simp only [method]
    refine confined_tryCatch (h.confined_callMethod keep cx.home name hr fun a ha ↦ ?_) fun stop ↦
      confined_throw _
    cases ha
  function {_ hostClass name codes args} _ _ ha := by
    change (confined ι fine).Holds good fun i ↦ (t i).callFunction hostClass name args
    simp only [function]
    exact h.confined_callFunction hostClass name ha

end Regime

/-- A setting treats the nodes of some kind as another one does: they have the same members, and the
calls in their code are policed in the same way. -/
structure Setting.Alike (s t : Setting σ) (good : Value → Prop) : Prop where
  slot : ∀ {ref}, good (.node ref) → ∀ attr,
    t.library.slot? ref attr = s.library.slot? ref attr
  method : ∀ {ref attr slot}, good (.node ref) → s.library.slot? ref attr = some slot →
    t.callMethod slot.home = s.callMethod slot.home
  function : t.callFunction = s.callFunction

theorem Setting.Alike.refl (s : Setting σ) (good : Value → Prop) : s.Alike s good :=
  ⟨fun _ _ ↦ rfl, fun _ _ ↦ rfl, rfl⟩

namespace Regime

variable {s : Setting σ} {good : Value → Prop} {fine : World σ → Prop} {t : ι → Setting σ}

/-- Reading attributes of nodes of the right kind is confined, however deep attributes may nest, and
goes in the same way in all settings that treat these nodes alike. -/
theorem readAttr (i₀ : ι) (h : Regime (t i₀) good fine) (keep : ValuesKeep good)
    (alike : ∀ i, (t i₀).Alike (t i) good) (depth : Nat) :
    ∀ held : ι → List Nat, HeldAlike good held → ∀ env ref attr, good (.node ref) →
      (confined ι fine).Holds good fun i ↦
        Formulary.readAttr (t i) depth (held i) env ref attr := by
  induction depth with
  | zero => exact fun held _ env ref attr _ ↦ confined_throw _
  | succ depth ih =>
    intro held holds env ref attr hr
    cases found : (t i₀).library.slot? ref attr with
    | none =>
      have missing : ∀ i, (t i).library.slot? ref attr = none :=
        fun i ↦ ((alike i).slot hr attr).trans found
      simp only [fun i ↦ readAttr_of_none (missing i) depth (held i) env]
      exact confined_throw _
    | some slot =>
      have here : ∀ i, (t i).library.slot? ref attr = some slot :=
        fun i ↦ ((alike i).slot hr attr).trans found
      intro w hw
      have read : ∀ i, (Formulary.readAttr (t i) (depth + 1) (held i) env ref attr).run.run
          w = _ :=
        fun i ↦ run_readAttr (here i) w
      simp only [read]
      cases memo : w.memo? env (ref.key slot) with
      | some v =>
        refine ⟨.ok v, w, fun _ ↦ rfl, hw, fun u hu ↦ ?_⟩
        cases hu
        exact h.kept hw memo
      | none =>
        have entered : fine (w.logged
            (.entered env (ref.key slot) slot.frame)) := h.logged hw trivial
        have base := h.base keep ⟨env, held i₀, ref, slot.home, slot.homeName⟩ holds
          (fun i ↦ (alike i).method hr found) (fun i ↦ (alike i).function) hr ih
        obtain ⟨result, w', ran, hw', hgood⟩ := base.runBody keep.toOperationsKeep
          slot.member.name slot.member.body (fun code hc ↦ h.code hr found hc) _ entered
        have bodies : ∀ i, (runBody (t i) (Formulary.readAttr (t i) depth)
            ⟨env, held i, ref, slot.home, slot.homeName⟩ slot.member.name
              slot.member.body).run.run
                (w.logged (.entered env (ref.key slot) slot.frame)) =
            (result, w') := ran
        cases result with
        | ok v =>
          have computed := fun i ↦ run_compute_of_ok (bodies i)
          exact ⟨_, _, computed, h.store hr found hw memo hw' (hgood v rfl) (computed i₀),
            fun u hu ↦ by cases hu; exact hgood v rfl⟩
        | error stop =>
          have left : fine (w'.logged (.left env (ref.key slot) none)) :=
            h.logged hw' trivial
          exact ⟨_, _, fun i ↦ run_compute_of_error (bodies i), left, fun u hu ↦ by cases hu⟩

end Regime

/-- Whatever an engine is asked about nodes and values of the right kind, its evaluation keeps to
worlds and values of that kind. -/
theorem Regime.answer {e : Engine σ} {good : Value → Prop} {fine : World σ → Prop}
    (h : Regime e.setting good fine) (keep : ValuesKeep good)
    (own : ∀ {name ref}, e.node name = .ok ref → good (.node ref)) {request : Request}
    (among : request.Among good) :
    (confined Unit fine).Holds (request.AnswersAmong good) fun _ ↦ request.answer e := by
  have asked := (confined Unit fine).holds_answer keep.toOperationsKeep keep.str (e := fun _ ↦ e)
    (fun _ ↦ rfl) e.fresh_node own (fun hp ↦ h.confined_newEnv hp)
    (fun held ↦ h.readAttr (t := fun _ ↦ e.setting) () keep (fun _ ↦ .refl _ _) e.depth _
      (heldAlike_const held))
    (fun reads ↦ confined_safely keep.toOperationsKeep reads) among
  simp only [Request.answerIn_eval] at asked
  exact asked

/-! ### The sample host -/

namespace Samples

/-- The code gives values of some kind for values of that kind. -/
def Gives (good : Value → Prop) (code : List Value → HostM State Value) : Prop :=
  ∀ {args state v}, (∀ a ∈ args, good a) → ((code args).run.run state).1 = .ok v → good v

variable {good : Value → Prop} (leaf : ∀ {v : Value}, v.Leaf → good v)
include leaf

theorem gives_counter : ∀ fn ∈ counter.functions, Gives good fn.run := by
  simp only [counter, List.forall_mem_cons]
  refine ⟨?_, ?_, List.forall_mem_nil _⟩ <;> intro args state v _ given
  · cases given
    exact leaf ⟨trivial, rfl⟩
  · dsimp only at given
    rw [run_bind] at given
    split at given
    · next counted =>
      cases counted
      split at given <;> cases given
      all_goals exact leaf ⟨trivial, rfl⟩
    · cases given

private theorem gives_stats : ∀ fn ∈ stats.functions, Gives good fn.run := by
  simp only [stats, List.forall_mem_cons]
  refine ⟨?_, List.forall_mem_nil _⟩
  intro args state v _ given
  dsimp only at given
  cases found : largest args with
  | error message =>
    rw [found] at given
    cases given
  | ok n =>
    rw [found] at given
    cases given
    exact leaf ⟨trivial, rfl⟩

private theorem gives_make (record : ∀ {type : String} {entries : List (Value × Value)},
      good (.map entries) →
        good (.record type (Indexed.ofEntries (entries.map (Prod.map Value.text id))))) :
    ∀ fn ∈ make.functions, Gives good fn.run := by
  simp only [make, List.forall_mem_cons]
  refine ⟨?_, ?_, ?_, ?_, ?_, List.forall_mem_nil _⟩ <;> intro args state v ha given
  · dsimp only at given
    split at given <;> cases given
    exact leaf ⟨trivial, rfl⟩
  · cases given
    cases args with
    | nil => exact leaf ⟨trivial, rfl⟩
    | cons a rest => exact ha a List.mem_cons_self
  · cases given
  · dsimp only at given
    split at given <;> cases given
    exact record (ha _ (by simp))
  · dsimp only at given
    split at given <;> cases given
    exact leaf ⟨trivial, rfl⟩

theorem gives_invoke (handle : Nat) (method : String) : Gives good (invoke handle method) := by
  intro args state v _ given
  have start : (get : HostM State State).run.run state = (.ok state, state) := rfl
  simp only [invoke, run_bind, start] at given
  split at given <;> cases given
  all_goals exact leaf ⟨trivial, rfl⟩

omit leaf in
/-- A record that is made of a map has nothing in it but what the map has. -/
theorem every_record {p : Value → Prop} {type : String} {entries : List (Value × Value)}
    (self : p (.record type (Indexed.ofEntries (entries.map (Prod.map Value.text id)))))
    (h : (Value.map entries).Every p) :
    (Value.record type (Indexed.ofEntries (entries.map (Prod.map Value.text id)))).Every p := by
  refine Value.every_iff.mpr ⟨self, fun w hw ↦ ?_⟩
  rw [Indexed.ofEntries_eq] at hw
  obtain ⟨field, hf, rfl⟩ := List.mem_map.mp hw
  have values : ∀ e ∈ entries.map (Prod.map Value.text id), True ∧ e.2.Every p := by
    intro e he
    obtain ⟨entry, hentry, rfl⟩ := List.mem_map.mp he
    exact ⟨trivial, (h.entry entry hentry).2⟩
  exact (Ordered.forall_merge (P := fun _ ↦ True) (List.forall_mem_nil _) values field hf).2

/-- The sample host keeps to values of any kind that records made of maps are of, and values with
nothing in them. -/
theorem keeps (record : ∀ {type : String} {entries : List (Value × Value)}, good (.map entries) →
      good (.record type (Indexed.ofEntries (entries.map (Prod.map Value.text id))))) :
    host.Keeps good fun _ ↦ True := by
  intro args m state runs ha _
  refine ⟨fun v hv ↦ ?_, trivial⟩
  cases runs with
  | method handle name => exact gives_invoke leaf handle name ha hv
  | function hc hf =>
    simp only [host, classes, List.mem_cons, List.not_mem_nil, or_false] at hc
    rcases hc with rfl | rfl | rfl
    · exact gives_counter leaf _ hf ha hv
    · exact gives_stats leaf _ hf ha hv
    · exact gives_make leaf record _ hf ha hv

end Samples

end Formulary
