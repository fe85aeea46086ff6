import Formulary.Proofs.Inquiry
import Formulary.Proofs.NamesFound
import Formulary.Proofs.Regime
import Formulary.Whitelist.Standard
import Mathlib.Data.Finset.Card
import Mathlib.Data.Finset.Filter

/-!
# Evaluation without nodes comes to an end

If neither code nor parameters nor the host bring in a node or a node call, an evaluation never
leaves its node and its environment. A member then reads only members that it refers to, and these
references do not lead back (`Dependencies.Acyclic`), so attributes nest no deeper than there are
members on the node, and every evaluation ends (`Program.evaluate_ends`). To end does not depend on
how deep attributes may nest beyond that. But an evaluation need not end with a value or a fault: a
sort of items without an order may break it off (`Unsorted.evaluate_breaks_off`).
-/

namespace Formulary

variable {σ α β : Type}

/-- Neither nodes nor node calls are in a value, at any depth. -/
def Value.NodeFree : Value → Prop := Every Ordinary

/-- A code that is neither a node nor a node call. -/
def Code.NodeFree : Code → Prop
  | node _ | call _ _ => False
  | _ => True

/-- A host that makes no nodes and no node calls out of other values. -/
def Host.NodeFree (host : Host σ) : Prop :=
  ∀ args v, host.Gives args v → (∀ a ∈ args, a.NodeFree) → v.NodeFree

/-- There are no nodes and no node calls in an environment. -/
structure Env.NodeFree (e : Env) : Prop where
  params : ∀ entry ∈ e.params, BothOf Value.NodeFree entry
  memo : ∀ {key v}, e.cached? key = some v → v.NodeFree

/-- The environment is there, and has no nodes and no node calls in it. -/
def World.NodeFreeIn (w : World σ) (env : Nat) : Prop := ∃ e, w.envs[env]? = some e ∧ e.NodeFree

private theorem Value.operationsKeep_nodeFree : OperationsKeep NodeFree :=
  operationsKeep_every fun _ h ↦ h

private theorem Literal.nodeFree_value (l : Literal) : l.value.NodeFree :=
  Value.every_leaf (fun _ h ↦ h) (Value.leaf_literal l)

/-! ### Ranks -/

namespace Dependencies

open Relation

variable {graph : Dependencies} {x y : String}

open Classical in
/-- The names that a name depends on, directly or not. -/
noncomputable def below (graph : Dependencies) (x : String) : Finset String :=
  graph.keys.toFinset.filter (TransGen graph.Refers x)

private theorem mem_below_iff : y ∈ graph.below x ↔ y ∈ graph ∧ TransGen graph.Refers x y := by
  simp [below]

/-- A name that is referred to has fewer names below it. -/
theorem below_ssubset (acyclic : graph.Acyclic) (closed : graph.Closed) (h : graph.Refers x y) :
    graph.below y ⊂ graph.below x := by
  refine Finset.ssubset_iff_subset_ne.mpr ⟨fun z hz ↦ ?_, fun same ↦ ?_⟩
  · obtain ⟨key, path⟩ := mem_below_iff.mp hz
    exact mem_below_iff.mpr ⟨key, .head h path⟩
  · have here : y ∈ graph.below y := same ▸ mem_below_iff.mpr ⟨closed x y h, .single h⟩
    exact acyclic y (mem_below_iff.mp here).2

theorem card_below_le (graph : Dependencies) (x : String) : (graph.below x).card ≤ graph.size := by
  classical
  calc
    _ ≤ graph.keys.toFinset.card :=
      Finset.card_le_card fun y hy ↦ by simpa using (mem_below_iff.mp hy).1
    _ ≤ graph.keys.length := List.toFinset_card_le _
    _ = graph.size := Std.HashMap.length_keys

end Dependencies

/-! ### Evaluations that end -/

/-- If a log is kept, it has a call of a built-in method that breaks off. -/
def World.HasBrokenOff (w : World σ) : Prop :=
  ∃ home receiver name args, Value.send receiver name args = .error .disorder ∧
    ∀ events, w.log = some events → .method home receiver name args ∈ events

theorem World.HasBrokenOff.logged {w : World σ} (h : w.HasBrokenOff) (event : Event) :
    (w.logged event).HasBrokenOff := by
  obtain ⟨home, receiver, name, args, broken, called⟩ := h
  refine ⟨home, receiver, name, args, broken, fun events log ↦ ?_⟩
  obtain ⟨before, earlier, rfl⟩ := Option.map_eq_some_iff.mp log
  exact List.mem_cons_of_mem _ (called before earlier)

/-- A value of some kind, a fault, or a method that broke off, in a world where the environment is
free of nodes. -/
inductive Outcome (env : Nat) (P : α → Prop) : Except Stop α → World σ → Prop where
  | ok {a w} (free : w.NodeFreeIn env) (h : P a) : Outcome env P (.ok a) w
  | fault {w} (f : Fault) (free : w.NodeFreeIn env) : Outcome env P (.error (.fault f)) w
  | disorder {w} (free : w.NodeFreeIn env) (h : w.HasBrokenOff) :
    Outcome env P (.error .disorder) w

/-- Evaluations in an environment that is free of nodes all end in the same way, and leave it so.
They may differ in how deep attributes may nest. -/
def Ends (env : Nat) (P : α → Prop) (m : Nat → Eval σ α) : Prop :=
  ∀ w, w.NodeFreeIn env → ∃ result w', (∀ more, (m more).run.run w = (result, w')) ∧
    Outcome env P result w'

section

variable {env : Nat} {P : α → Prop} {Q : β → Prop}

/-- A step that leaves environments alone. -/
theorem ends_of_envs {m : Eval σ α} (envs : ∀ w, (m.run.run w).2.envs = w.envs)
    (outcome : ∀ w w' : World σ, w.NodeFreeIn env → w'.NodeFreeIn env →
      Outcome env P (m.run.run w).1 w') : Ends env P fun _ ↦ m := by
  rintro w ⟨e, he, free⟩
  have after : (m.run.run w).2.NodeFreeIn env := ⟨e, by rw [envs, he], free⟩
  exact ⟨_, _, fun _ ↦ rfl, outcome w _ ⟨e, he, free⟩ after⟩

private theorem ends_pure {a : α} (h : P a) : Ends env P fun _ ↦ (pure a : Eval σ α) :=
  ends_of_envs (fun _ ↦ rfl) fun _ _ _ free ↦ .ok free h

private theorem ends_fault (f : Fault) : Ends env P fun _ ↦ (throw (.fault f) : Eval σ α) :=
  ends_of_envs (fun _ ↦ rfl) fun _ _ _ free ↦ .fault f free

theorem Ends.bind {m : Nat → Eval σ α} {f : Nat → α → Eval σ β} (hm : Ends env P m)
    (hf : ∀ a, P a → Ends env Q fun more ↦ f more a) : Ends env Q fun more ↦ m more >>= f more := by
  intro w hw
  obtain ⟨result, w', ran, outcome⟩ := hm w hw
  simp only [run_bind, ran]
  cases outcome with
  | ok free h => exact hf _ h w' free
  | fault f free => exact ⟨_, w', fun _ ↦ rfl, .fault f free⟩
  | disorder free broken => exact ⟨_, w', fun _ ↦ rfl, .disorder free broken⟩

/-- Evaluations that end can be put together. -/
def ending (σ : Type) (env : Nat) : Congruence σ fun _ : Nat ↦ Eval σ where
  Holds P m := Ends env P m
  holds_pure := ends_pure
  holds_fault _ := ends_fault _
  holds_bind := Ends.bind

/-! ### Calls -/

theorem Ends.record {m : Nat → Eval σ α} (h : Ends env P m) (event : Event) :
    Ends env P fun more ↦ (do Eval.record event; m more) := by
  rintro w ⟨e, he, free⟩
  exact h (w.logged event) ⟨e, he, free⟩

private theorem ends_ofHost {m : HostM σ α} (h : ∀ a state, (m.run.run state).1 = .ok a → P a) :
    Ends env P fun _ ↦ Eval.ofHost m := by
  refine ends_of_envs (fun w ↦ by rw [Eval.run_ofHost]) fun w w' _ free ↦ ?_
  rw [Eval.run_ofHost]
  cases result : (m.run.run w.host).1 with
  | ok a => exact .ok free (h a w.host result)
  | error message => exact .fault _ free

theorem Ends.mapFault {m : Nat → Eval σ α} (h : Ends env P m) (g : Fault → Fault) :
    Ends env P fun more ↦ tryCatch (m more) fun stop ↦ throw (stop.mapFault g) := by
  intro w hw
  obtain ⟨result, w', ran, outcome⟩ := h w hw
  simp only [run_tryCatch, ran]
  cases outcome with
  | ok free h => exact ⟨_, w', fun _ ↦ rfl, .ok free h⟩
  | fault f free => exact ⟨_, w', fun _ ↦ rfl, .fault (g f) free⟩
  | disorder free broken => exact ⟨_, w', fun _ ↦ rfl, .disorder free broken⟩

end

section

variable {env : Nat} {s : Setting σ}

private theorem ends_callFunction (free : s.host.NodeFree) (hostClass function : String)
    {args : List Value} (ha : ∀ a ∈ args, a.NodeFree) :
    Ends env Value.NodeFree fun _ ↦ s.callFunction hostClass function args :=
  Setting.callFunction_of (Q := fun m ↦ Ends env Value.NodeFree fun _ ↦ m) (fun f _ ↦ ends_fault f)
    hostClass function fun c _ hc _ ↦ (ends_ofHost fun v state hv ↦
      free args v (.inl ⟨hostClass, c, function, state, hc, hv⟩) ha).record _

theorem ends_callMethod (methods : s.builtIns = Value.send) (free : s.host.NodeFree) (home : Nat)
    {receiver : Value} (name : String) {args : List Value} (hr : receiver.NodeFree)
    (ha : ∀ a ∈ args, a.NodeFree) :
    Ends env Value.NodeFree fun _ ↦ s.callMethod home receiver name args := by
  refine Setting.callMethod_of (Q := fun m ↦ Ends env Value.NodeFree fun _ ↦ m)
    (fun f _ ↦ ends_fault f) home name (ends_callFunction free · name ha)
    (fun handle target ↦ (ends_ofHost fun v state hv ↦
      free args v (.inr ⟨handle, target, state, hv⟩) ha).record _) fun target ↦ ?_
  rintro w ⟨e, he, fits⟩
  have free : (w.logged (.method home receiver target args)).NodeFreeIn env := ⟨e, he, fits⟩
  refine ⟨receiver.send target args, w.logged (.method home receiver target args), fun _ ↦ ?_, ?_⟩
  · rw [methods]
    exact Eval.run_ofOutcome _ _
  cases sent : receiver.send target args with
  | ok v => exact .ok free (Value.every_send (fun _ h ↦ h) hr ha sent)
  | error stop =>
    obtain rfl | ⟨f, rfl, -⟩ := receiver.new_of_send target args stop sent
    · refine .disorder free ⟨home, receiver, target, args, sent, fun events log ↦ ?_⟩
      obtain ⟨before, -, rfl⟩ := Option.map_eq_some_iff.mp log
      exact List.mem_cons_self
    · exact .fault f free

/-! ### Attributes -/

/-- Code without nodes that reads attributes under given names only. -/
def Code.Confined (names : List String) : Code → Prop
  | const v => v.NodeFree
  | attr name => name ∈ names
  | node _ | call _ _ => False
  | _ => True

/-- What code does comes to an end if the attributes do that it reads. -/
theorem ending_base {names : List String} {v : Views fun _ : Nat ↦ Eval σ}
    (methods : s.builtIns = Value.send) (free : s.host.NodeFree) (here : ∀ more, v.env more = env)
    (reads : ∀ name ∈ names, Ends env Value.NodeFree fun more ↦
      v.read more (v.held more) (v.env more) (v.node more) name) :
    (ending σ env).Base Value.NodeFree (fun _ ↦ s) (fun _ ↦ Code.Every (Code.Confined names))
      v where
  part h hc := h.boundPart hc
  const h := h.self
  node h := h.self.elim
  attr {_ name} h := reads name h.self
  unbound _ _ := ends_fault _
  readNode _ h := h.self.elim
  readCall _ h := h.self.elim
  safely _ h := h.self.elim
  amend h _ := h.self.elim
  call h _ _ := h.self.elim
  params := by
    simp only [here]
    refine ends_of_envs (m := Eval.visibleParams env) (fun w ↦ by rw [Eval.run_visibleParams])
      fun w w' before free ↦ ?_
    obtain ⟨e, he, fits⟩ := before
    rw [Eval.run_visibleParams, he]
    exact .ok free (Value.every_map (fun _ h ↦ h) fun entry hentry ↦
      fits.params entry (List.mem_filter.mp hentry).1)
  param name := by
    simp only [here]
    refine ends_of_envs (fun w ↦ rfl) fun w w' before free ↦ ?_
    obtain ⟨e, he, fits⟩ := before
    change Outcome env _ (.ok (w.envs[env]?.bind (·.param? name))) w'
    rw [he, Option.bind_some]
    refine .ok free fun v hv ↦ ?_
    obtain ⟨entry, hentry, rfl⟩ := Env.exists_of_param?_eq_some hv
    exact (fits.params entry hentry).2
  method name hr ha := ends_callMethod methods free _ name hr ha
  attrMethod name hr :=
    (ends_callMethod methods free _ name hr fun a ha ↦ by cases ha).mapFault _
  function _ _ ha := ends_callFunction free _ _ ha

/-- Keeping a value without nodes keeps an environment so. -/
theorem World.NodeFreeIn.store {w : World σ} (h : w.NodeFreeIn env) (key : MemoKey) {v : Value}
    (free : v.NodeFree) :
    World.NodeFreeIn { w with envs := w.envs.modify env (·.store key v) } env := by
  obtain ⟨e, he, fits⟩ := h
  refine ⟨e.store key v, ?_, fits.params, fun {key' v'} kept ↦ ?_⟩
  · rw [Array.getElem?_modify, if_pos rfl, he, Option.map_some]
  · rw [Env.cached?_store] at kept
    split at kept
    · cases kept
      exact free
    · exact fits.memo kept

/-- Computing an attribute ends if its body does. -/
theorem ends_compute {key : MemoKey} {frame : Fault.Frame} {body : Nat → Eval σ Value}
    (h : Ends env Value.NodeFree body) :
    Ends env Value.NodeFree fun more ↦ Eval.compute env key frame (body more) := by
  rintro w ⟨e, he, fits⟩
  obtain ⟨result, w', ran, outcome⟩ := h (w.logged (.entered env key frame)) ⟨e, he, fits⟩
  simp only [Eval.run_compute, ran]
  cases outcome with
  | ok free hv => exact ⟨_, _, fun _ ↦ rfl, .ok (free.store _ hv) hv⟩
  | fault f free => exact ⟨_, _, fun _ ↦ rfl, .fault _ free⟩
  | disorder free broken => exact ⟨_, _, fun _ ↦ rfl, .disorder free (broken.logged _)⟩

end

namespace Program

/-- No member of a module's nodes, inherited or not, mentions a node or makes a node call. -/
def NodeFreeIn (p : Program) (module : Nat) : Prop :=
  ∀ ref attr slot code, ref.module = module → p.library.slot? ref attr = some slot →
    slot.member.body.code? = some code → code.Every Code.NodeFree

variable {p : Program} {host : Host σ} {whitelist : Whitelist} {ref : NodeRef}

/-- The code of a member reads only the attributes that the member refers to. -/
theorem confined_code (code : p.NodeFreeIn ref.module) {attr : String} {slot : Slot}
    (found : p.library.slot? ref attr = some slot) {c : Code}
    (hc : slot.member.body.code? = some c) : c.Every (Code.Confined slot.member.deps) := by
  obtain ⟨l, -, named⟩ := p.scoped_code found hc
  have named : c.Every fun d ↦ ∃ n, d.Named l.definition.scope (· ∈ slot.member.deps) n :=
    named.every fun n d hd ↦ ⟨n, hd⟩
  intro d within
  obtain ⟨n, hd⟩ := named d within
  have free := code ref attr slot c rfl found hc d within
  cases d with
  | const v =>
    obtain ⟨l, rfl⟩ := hd
    exact l.nodeFree_value
  | attr name => exact hd
  | node target | call target args => exact free
  | _ => trivial

/-- Reading an attribute ends if attributes may nest deeper than there are names below it. -/
theorem ends_readAttr (free : host.NodeFree) (code : p.NodeFreeIn ref.module) {n : Node}
    (hn : p.library.node? ref = some n) {env : Nat} {held : List Nat} : ∀ depth attr,
    (n.dependencies.below attr).card < depth → Ends env Value.NodeFree fun more ↦
      readAttr (p.setting host whitelist) (depth + more) held env ref attr
  | 0, _, h => absurd h (Nat.not_lt_zero _)
  | depth + 1, attr, h => by
    simp only [Nat.add_right_comm depth 1]
    cases found : p.library.slot? ref attr with
    | none =>
      simp only [readAttr_of_none (s := p.setting host whitelist) found]
      exact ends_fault _
    | some slot =>
      simp only [readAttr_of_some (s := p.setting host whitelist) found]
      have looked : Ends env (fun kept ↦ ∀ v, kept = some v → v.NodeFree) fun _ ↦
          (Eval.cached? env (ref.key slot) : Eval σ (Option Value)) := by
        refine ends_of_envs (fun w ↦ rfl) fun w w' before after ↦ ?_
        obtain ⟨e, he, fits⟩ := before
        rw [Eval.run_cached?, he, Option.bind_some]
        exact .ok after fun v kept ↦ fits.memo kept
      -- A name that the member refers to has fewer names below it than the member's own.
      have reads : ∀ name ∈ slot.member.deps, Ends env Value.NodeFree fun more ↦
          readAttr (p.setting host whitelist) (depth + more) held env ref name := by
        intro name hname
        refine ends_readAttr free code hn depth name ?_
        have refers : n.dependencies.Refers attr name := by
          rw [Library.slot?, hn, Option.bind_some] at found
          exact ⟨_, by rw [n.getElem?_dependencies, found, Option.map_some], hname⟩
        have fewer := Finset.card_lt_card (Dependencies.below_ssubset
          (acyclic_of_compiles p.compiled ref n hn) (closed_of_compiles p.compiled ref n hn) refers)
        omega
      let views : Views fun _ : Nat ↦ Eval σ :=
        .ofContext ⟨env, held, ref, slot.home, slot.homeName⟩
          fun more ↦ readAttr (p.setting host whitelist) (depth + more)
      have base : (ending σ env).Base Value.NodeFree (fun _ ↦ p.setting host whitelist)
          (fun _ ↦ Code.Every (Code.Confined slot.member.deps)) views :=
        ending_base rfl free (fun _ ↦ rfl) reads
      refine looked.bind fun kept hkept ↦ ?_
      cases kept with
      | some v => exact ends_pure (hkept v rfl)
      | none =>
        exact ends_compute (base.runBody Value.operationsKeep_nodeFree slot.member.name
          slot.member.body fun c hc ↦ confined_code code found hc)

/-- Attributes of a node nest at most as deep as it has members. -/
theorem exists_ends (free : host.NodeFree) (code : p.NodeFreeIn ref.module)
    (whitelist : Whitelist) : ∃ least, ∀ env attr, Ends env Value.NodeFree fun more ↦
      readAttr (p.setting host whitelist) (least + more) [] env ref attr := by
  cases hn : p.library.node? ref with
  | none =>
    refine ⟨1, fun env attr ↦ ?_⟩
    have missing : p.library.slot? ref attr = none := by rw [Library.slot?, hn, Option.bind_none]
    simp only [Nat.add_comm 1, readAttr_of_none (s := p.setting host whitelist) missing]
    exact ends_fault _
  | some n =>
    refine ⟨n.dependencies.size + 1, fun env attr ↦ ?_⟩
    exact ends_readAttr free code hn _ attr (Nat.lt_succ_of_le (n.dependencies.card_below_le attr))

/-- Evaluation comes to an end where neither code nor parameters nor the host bring in a node or a
node call.

Let no member of a module's nodes, inherited or not, mention a node or make a node call, and let the
host make none of values that are free of them. Then for every node there is a depth that is enough
for all of its attributes, whatever the parameters and the world: from that depth on, an evaluation
gives one and the same value without nodes, or one and the same fault, or is broken off by a method,
and leaves the same world, which tells of the call of that method. -/
theorem evaluate_ends (p : Program) (module : Fin p.library.modules.size) (host : Host σ)
    (whitelist : Whitelist) (code : p.NodeFreeIn module) (free : host.NodeFree) (node : String) :
    ∃ least, ∀ (attr : String) (params : List (Value × Value)),
      (∀ entry ∈ params, BothOf Value.NodeFree entry) → ∀ w : World σ, ∃ result w',
        ((∃ v, result = .ok v ∧ v.NodeFree) ∨ (∃ f, result = .error (.fault f)) ∨
          result = .error .disorder ∧ w'.HasBrokenOff) ∧
        ∀ depth ≥ least, ((p.engine module host whitelist depth).evaluate node attr
          params).run.run w = (result, w') := by
  cases found : p.library.modules[module].node? node with
  | none =>
    refine ⟨0, fun attr params _ w ↦ ⟨.error (.fault ⟨.undefinedNode node, []⟩), w,
      .inr (.inl ⟨_, rfl⟩), fun depth _ ↦ ?_⟩⟩
    rw [Engine.evaluate, Engine.node_of_none (e := p.engine module host whitelist depth) found]
    rfl
  | some ref =>
    have here : ref.module = module := by
      rw [p.node?_eq] at found
      obtain ⟨t, -, found⟩ := Option.bind_eq_some_iff.mp found
      obtain ⟨index, -, rfl⟩ := Option.map_eq_some_iff.mp found
      rfl
    obtain ⟨least, ends⟩ := exists_ends free (here ▸ code) whitelist
    refine ⟨least, fun attr params hparams w ↦ ?_⟩
    have fresh : World.NodeFreeIn { w with envs := w.envs.push { params } } w.envs.size := by
      refine ⟨{ params }, Array.getElem?_push_size, hparams, fun {key v} kept ↦ ?_⟩
      simp [Env.cached?] at kept
    obtain ⟨result, w', ran, outcome⟩ := ends w.envs.size attr _ fresh
    refine ⟨result, w', ?_, fun depth enough ↦ ?_⟩
    · cases outcome with
      | ok _ h => exact .inl ⟨_, rfl, h⟩
      | fault f _ => exact .inr (.inl ⟨f, rfl⟩)
      | disorder _ broken => exact .inr (.inr ⟨rfl, broken⟩)
    rw [Engine.evaluate, Engine.node_of_some (e := p.engine module host whitelist depth) found]
    have deep : (readAttr (p.setting host whitelist) (least + (depth - least)) [] w.envs.size ref
        attr).run.run { w with envs := w.envs.push { params } } = (result, w') := ran _
    rw [Nat.add_sub_cancel' enough] at deep
    exact deep

end Program

/-! ### The program with an override -/

namespace Tally

/-- The counter gives integers only. -/
theorem nodeFree_host : host.NodeFree := by
  rintro args v (⟨name, c, function, state, lent, given⟩ | ⟨handle, method, state, given⟩) ha
  · have same : c = Samples.counter := List.mem_singleton.mp (List.mem_of_find?_eq_some lent)
    subst same
    unfold HostClass.call at given
    split at given
    · next f found =>
      exact Samples.gives_counter (fun h ↦ Value.every_leaf (fun _ h ↦ h) h) f
        (List.mem_of_find?_eq_some found) ha given
    · cases given
  · cases given

/-- No code of the script mentions a node or makes a node call. -/
theorem nodeFreeIn : program.NodeFreeIn 0 := by
  intro ref attr slot code _ found hc
  obtain ⟨t, ht, n, hn, d, hd, said⟩ := program.exists_mem_of_slot? found
  rcases (definition_cases ht hn hd).2 with member | member | member
  all_goals
    rw [Except.ok.inj (said.symm.trans member)] at hc
    cases hc
    simp [Code.every_iff, Code.parts, Yield.codes, Code.NodeFree]

/-- Evaluating `x` on `B` ends when `n` is given, through both comprehensions. -/
theorem evaluate_ends_sums :
    program.NodeFreeIn 0 ∧ host.NodeFree ∧
      (∀ entry ∈ [(Value.str "n", Value.int 3)], BothOf Value.NodeFree entry) ∧
      ∃ least result w', ((∃ v, result = .ok v ∧ v.NodeFree) ∨
          (∃ f, result = .error (.fault f)) ∨ result = .error .disorder ∧ w'.HasBrokenOff) ∧
        ∀ depth ≥ least, ((program.engine ⟨0, by decide⟩ host {} depth).evaluate "B" "x"
          [(.str "n", .int 3)]).run.run { host := {} } = (result, w') := by
  have given : ∀ entry ∈ [(Value.str "n", Value.int 3)], BothOf Value.NodeFree entry := by
    intro entry h
    rw [List.mem_singleton.mp h]
    exact ⟨Value.every_leaf (fun _ h ↦ h) ⟨trivial, rfl⟩,
      Value.every_leaf (fun _ h ↦ h) ⟨trivial, rfl⟩⟩
  obtain ⟨least, ends⟩ := program.evaluate_ends ⟨0, by decide⟩ host {} nodeFreeIn nodeFree_host "B"
  obtain ⟨result, w', ended⟩ := ends "x" _ given { host := {} }
  exact ⟨nodeFreeIn, nodeFree_host, given, least, result, w', ended⟩

end Tally

/-! A node with an attribute whose sort breaks off, `x = ([1, nil, 2] * 7).sort()`, and one that is
fine, `y = 1`. -/

namespace Unsorted

def x : Expr :=
  .method default
    (.binary default .mul
      (.list default [.literal default (.int 1), .literal default .nil, .literal default (.int 2)])
      (.literal default (.int 7)))
    "sort" []

def memberX : Member where
  name := "x"
  line := 2
  body := .formula (.method (.binary .mul
    (.list [.const (.int 1), .const .nil, .const (.int 2)]) (.const (.int 7))) "sort" [])
  deps := []

def memberY : Member := ⟨"y", 3, .formula (.const (.int 1)), []⟩

def script : Accepted "M" [] (.having [] "A" [memberX, memberY]) :=
  ((Accepted.node "M" [] "A" default).define ⟨2, default, .formula "x" x⟩ memberX rfl rfl rfl
    rfl).define ⟨3, default, .formula "y" (.literal default (.int 1))⟩ memberY rfl rfl rfl rfl

/-- The script as a program. -/
def program : Program := script.program rfl

def engine (depth : Nat) : Engine Unit := program.engine ⟨0, by decide⟩ Host.bare .standard depth

def refA : NodeRef := ⟨0, 0, "M", "A"⟩

theorem node_eq (depth : Nat) : (engine depth).node "A" = .ok refA := by
  simp only [engine, Engine.node, Program.engine, program.node?_eq]
  rfl

theorem slot_x : program.library.slot? refA "x" = some ⟨0, 0, "M", memberX⟩ :=
  (program.slot?_of_own refA "x" rfl rfl rfl rfl rfl :)

theorem nodeFreeIn : program.NodeFreeIn 0 := by
  intro ref attr slot code _ found hc
  obtain ⟨t, ht, n, hn, d, hd, said⟩ := program.exists_mem_of_slot? found
  rw [List.mem_singleton.mp ht] at hn
  rw [List.mem_singleton.mp hn] at hd
  have members : d.member = .ok memberX ∨ d.member = .ok memberY := by
    rcases List.mem_cons.mp hd with rfl | hd
    · exact .inl rfl
    · rw [List.mem_singleton.mp hd]
      exact .inr rfl
  rcases members with member | member
  all_goals
    rw [Except.ok.inj (said.symm.trans member)] at hc
    cases hc
    simp [Code.every_iff, Code.parts, Code.NodeFree]

/-- Reading `x` breaks off. -/
theorem read_x (depth : Nat) (held : List Nat) {env : Nat} {w : World Unit}
    (new : w.memo? env ⟨0, 0, 0⟩ = none) :
    (((engine (depth + 1)).read held env refA "x").run.run w).1 = .error .disorder := by
  have slot : (engine (depth + 1)).setting.library.slot? refA "x" = _ := slot_x
  change ((readAttr (engine (depth + 1)).setting (depth + 1) held env refA "x").run.run w).1 = _
  rw [run_readAttr_new slot new]
  rfl

/-- Evaluating `x` ends with neither a value nor a fault, though there are no nodes in sight. -/
theorem evaluate_breaks_off : program.NodeFreeIn 0 ∧ Host.bare.NodeFree ∧
    ∀ depth, (((engine (depth + 1)).evaluate "A" "x" []).run.run { host := () }).1 =
      .error .disorder := by
  have free : Host.bare.NodeFree := by
    rintro args v (⟨name, c, function, state, lent, given⟩ | ⟨handle, method, state, given⟩) _
    · cases lent
    · cases given
  refine ⟨nodeFreeIn, free, fun depth ↦ ?_⟩
  have new : World.memo? { envs := #[{ params := [] }], host := () } 0 ⟨0, 0, 0⟩ = none := by
    simp [World.memo?, Env.cached?]
  rw [Engine.evaluate, node_eq, Eval.ofExcept_ok, pure_bind, run_bind]
  exact read_x depth [] new

end Unsorted

end Formulary
