import Formulary.Engine

/-!
# Laws of evaluations

How evaluations are taken apart: a computation in steps, results that do not touch the world, a
comprehension item by item, and an attribute that is looked up before it is computed.
-/

namespace Formulary

/-- A step of a computation that succeeds, and what comes after it. -/
theorem bind_eq_ok {ε α β : Type} {x : Except ε α} {f : α → Except ε β} {b : β}
    (h : (x >>= f) = .ok b) : ∃ a, x = .ok a ∧ f a = .ok b := by
  cases x with
  | error e => cases h
  | ok a => exact ⟨a, rfl, h⟩

/-- A result made of two comes from both. -/
theorem bind₂_eq_ok {ε α β γ : Type} {x : Except ε α} {y : Except ε β} {f : α → β → γ} {c : γ}
    (h : (do let a ← x; let b ← y; return f a b) = .ok c) :
    ∃ a b, x = .ok a ∧ y = .ok b ∧ f a b = c := by
  obtain ⟨a, ha, h⟩ := bind_eq_ok h
  obtain ⟨b, hb, h⟩ := bind_eq_ok h
  cases h
  exact ⟨a, b, ha, hb, rfl⟩

/-- A result made of three comes from all of them. -/
theorem bind₃_eq_ok {ε α β γ δ : Type} {x : Except ε α} {y : Except ε β} {z : Except ε γ}
    {f : α → β → γ → δ} {d : δ} (h : (do let a ← x; let b ← y; let c ← z; return f a b c) = .ok d) :
    ∃ a b c, x = .ok a ∧ y = .ok b ∧ z = .ok c ∧ f a b c = d := by
  obtain ⟨a, ha, h⟩ := bind_eq_ok h
  obtain ⟨b, c, hb, hc, rfl⟩ := bind₂_eq_ok h
  exact ⟨a, b, c, ha, hb, hc, rfl⟩

/-- A mapped result comes from a result. -/
theorem map_eq_ok {ε α β : Type} {x : Except ε α} {f : α → β} {b : β}
    (h : x.map f = .ok b) : ∃ a, x = .ok a ∧ f a = b := by
  cases x with
  | error e => cases h
  | ok a =>
    cases h
    exact ⟨a, rfl, rfl⟩

section

variable {ε ρ α β : Type}

/-- What two steps do from a state. -/
theorem run_bind (x : ExceptT ε (StateM ρ) α) (f : α → ExceptT ε (StateM ρ) β) (r : ρ) :
    (x >>= f).run.run r =
      match x.run.run r with
      | (.ok a, r') => (f a).run.run r'
      | (.error e, r') => (.error e, r') := by
  simp only [ExceptT.run_bind, StateT.run_bind]
  cases x.run.run r with
  | mk result r' => cases result <;> rfl

/-- What a change of the state does that gives a result. -/
theorem run_modifyGet (f : ρ → α × ρ) (r : ρ) :
    (modifyGet f : ExceptT ε (StateM ρ) α).run.run r = (.ok (f r).1, (f r).2) := rfl

/-- What an attempt does from a state. -/
theorem run_tryCatch (x : ExceptT ε (StateM ρ) α) (handle : ε → ExceptT ε (StateM ρ) α) (r : ρ) :
    (tryCatch x handle).run.run r =
      match x.run.run r with
      | (.ok a, r') => (.ok a, r')
      | (.error e, r') => (handle e).run.run r' := by
  change ((x.run >>= fun result ↦ match result with
    | .ok a => pure (.ok a)
    | .error e => (handle e).run : StateM ρ (Except ε α))).run r = _
  rw [StateT.run_bind]
  cases x.run.run r with
  | mk result r' => cases result <;> rfl

/-- What is done in the end is done whether there is a result or not. -/
theorem run_finally (x : ExceptT ε (StateM ρ) α) (f : ρ → ρ) (r : ρ) :
    (try x finally modify f : ExceptT ε (StateM ρ) α).run.run r =
      ((x.run.run r).1, f (x.run.run r).2) := by
  have settled (p : Except ε α × ρ) :
      (try ExceptT.mk fun _ ↦ p finally modify f : ExceptT ε (StateM ρ) α).run.run r =
        (p.1, f p.2) := by
    cases p with
    | mk result r' => cases result <;> rfl
  exact settled (x.run.run r)

/-- Two steps succeed if both do. -/
theorem run_bind_eq_ok {x : ExceptT ε (StateM ρ) α} {f : α → ExceptT ε (StateM ρ) β} {r r'' : ρ}
    {b : β} (h : (x >>= f).run.run r = (.ok b, r'')) :
    ∃ a r', x.run.run r = (.ok a, r') ∧ (f a).run.run r' = (.ok b, r'') := by
  rw [run_bind] at h
  split at h
  · next a r' hx => exact ⟨a, r', hx, h⟩
  · cases h

/-- A run over a list goes on from where its first step leads. -/
theorem run_foldlM_cons {f : β → α → ExceptT ε (StateM ρ) β} {a : α} {b b' : β} {r r' : ρ}
    (h : (f b a).run.run r = (.ok b', r')) (as : List α) :
    ((a :: as).foldlM f b).run.run r = (as.foldlM f b').run.run r' := by
  rw [List.foldlM_cons, run_bind, h]

end

variable {σ α : Type}

@[simp] theorem Eval.ofExcept_ok (a : α) : (Eval.ofExcept (.ok a) : Eval σ α) = pure a := rfl

/-- A step of an evaluation is just that. -/
@[simp] theorem Machine.step_eq (x : Eval σ α) : (Machine.step x : Eval σ α) = x := rfl

/-- An outcome is given in any world, and leaves it alone. -/
@[simp] theorem Eval.run_ofOutcome (x : Except Stop α) (w : World σ) :
    (Eval.ofOutcome x).run.run w = (x, w) := by
  cases x <;> rfl

/-- Host code changes the host's state alone. -/
theorem Eval.run_ofHost (m : HostM σ α) (w : World σ) :
    (Eval.ofHost m).run.run w =
      ((m.run.run w.host).1.mapError fun message ↦ .fault ⟨.host message, []⟩,
        { w with host := (m.run.run w.host).2 }) := by
  rw [Eval.ofHost, run_bind, run_modifyGet]
  change _ = ((m.run w.host).1.mapError _, { w with host := (m.run w.host).2 })
  cases m.run w.host with
  | mk result host =>
    cases result with
    | ok a => rfl
    | error message => rfl

/-- A world with one more event in its log, if it keeps one. -/
def World.logged (w : World σ) (event : Event) : World σ :=
  { w with log := w.log.map (event :: ·) }

@[simp] theorem Eval.run_record (event : Event) (w : World σ) :
    (Eval.record event).run.run w = (.ok (), w.logged event) := rfl

@[simp] theorem Eval.run_visibleParams (env : Nat) (w : World σ) :
    (Eval.visibleParams env).run.run w =
      (.ok ((w.envs[env]?.map Env.visibleParams).getD []), w) := by
  have looked : (get : Eval σ (World σ)).run.run w = (.ok w, w) := rfl
  rw [Eval.visibleParams, run_bind, looked]
  dsimp only
  cases w.envs[env]? with
  | none => rfl
  | some e => rfl

@[simp] theorem Eval.run_cached? (env : Nat) (key : MemoKey) (w : World σ) :
    (Eval.cached? env key).run.run w = (.ok (w.envs[env]?.bind (·.cached? key)), w) := rfl

theorem Env.cached?_store (e : Env) (key key' : MemoKey) (v : Value) :
    (e.store key v).cached? key' = if key = key' then some v else e.cached? key' := by
  simp only [Env.store, Env.cached?, Std.HashMap.getElem?_insert, beq_iff_eq]

/-- What computing an attribute does: its body is run between two events, and if it gives a value
that is kept. -/
theorem Eval.run_compute (env : Nat) (key : MemoKey) (frame : Fault.Frame) (body : Eval σ Value)
    (w : World σ) :
    (compute env key frame body).run.run w =
      match body.run.run (w.logged (.entered env key frame)) with
      | (.ok v, w') =>
        (.ok v, { w' with envs := w'.envs.modify env (·.store key v) }.logged
          (.left env key (some v)))
      | (.error stop, w') => (.error (stop.within frame), w'.logged (.left env key none)) := by
  unfold compute
  simp only [run_bind, run_tryCatch, run_record]
  cases body.run.run (w.logged (.entered env key frame)) with
  | mk result w' =>
    cases result with
    | ok v => rfl
    | error stop => rfl

/-- A world after the value of an attribute was kept in it. -/
def World.storing (w : World σ) (env : Nat) (key : MemoKey) (v : Value) : World σ :=
  { w with envs := w.envs.modify env (·.store key v) }.logged (.left env key (some v))

/-- A slot is computed by running its member's body. -/
theorem run_compute (s : Setting σ) (read : Read (Eval σ)) (held : List Nat) (env : Nat)
    (node : NodeRef) (slot : Slot) (w : World σ) :
    (compute s read held env node slot).run.run w =
      let key := node.key slot
      match (runBody s read ⟨env, held, node, slot.home, slot.homeName⟩ slot.member.name
          slot.member.body).run.run (w.logged (.entered env key slot.frame)) with
      | (.ok v, w') =>
        (.ok v, { w' with envs := w'.envs.modify env (·.store key v) }.logged
          (.left env key (some v)))
      | (.error stop, w') =>
        (.error (stop.within slot.frame), w'.logged (.left env key none)) :=
  Eval.run_compute env _ slot.frame _ w

section

variable {s : Setting σ} {node : NodeRef} {attr : String}

/-- An attribute that a node does not have cannot be read. -/
theorem readAttr_of_none (missing : s.library.slot? node attr = none) (depth : Nat)
    (held : List Nat) (env : Nat) :
    readAttr s (depth + 1) held env node attr =
      Eval.fail (.invalidAttribute attr s!"node {node.name}" "no such attribute") := by
  rw [readAttr, readAttrIn, missing]
  rfl

/-- An attribute that a node has is computed unless its value is kept. -/
theorem readAttr_of_some {slot : Slot} (found : s.library.slot? node attr = some slot)
    (depth : Nat) (held : List Nat) (env : Nat) :
    readAttr s (depth + 1) held env node attr = (do
      match ← Eval.cached? env (node.key slot) with
      | some v => return v
      | none => compute s (readAttr s depth) held env node slot) := by
  rw [readAttr, readAttrIn]
  split
  · next missing => cases found.symm.trans missing
  · next here =>
    cases found.symm.trans here
    rfl

section

variable {read : Read (Eval σ)} {held : List Nat} {env depth : Nat} {slot : Slot} {w w' : World σ}
  {v : Value} {stop : Stop}

theorem run_compute_of_ok
    (body : (runBody s read ⟨env, held, node, slot.home, slot.homeName⟩ slot.member.name
      slot.member.body).run.run (w.logged (.entered env (node.key slot)
        slot.frame)) = (.ok v, w')) :
    (compute s read held env node slot).run.run w =
      (.ok v, w'.storing env (node.key slot) v) := by
  rw [run_compute]
  dsimp only
  rw [body]
  rfl

theorem run_compute_of_error
    (body : (runBody s read ⟨env, held, node, slot.home, slot.homeName⟩ slot.member.name
      slot.member.body).run.run (w.logged (.entered env (node.key slot)
        slot.frame)) = (.error stop, w')) :
    (compute s read held env node slot).run.run w =
      (.error (stop.within slot.frame),
        w'.logged (.left env (node.key slot) none)) := by
  rw [run_compute]
  dsimp only
  rw [body]

/-- An attribute of which nothing is kept is computed. -/
theorem run_readAttr_new (found : s.library.slot? node attr = some slot)
    (new : w.envs[env]?.bind (·.cached? (node.key slot)) = none) :
    (readAttr s (depth + 1) held env node attr).run.run w =
      (compute s (readAttr s depth) held env node slot).run.run w := by
  rw [readAttr_of_some found, run_bind, Eval.run_cached?, new]

/-- An attribute of which nothing is kept is what its body gives, and is kept. -/
theorem run_readAttr_of_body (found : s.library.slot? node attr = some slot)
    (new : w.envs[env]?.bind (·.cached? (node.key slot)) = none)
    (body : (runBody s (readAttr s depth) ⟨env, held, node, slot.home, slot.homeName⟩
      slot.member.name slot.member.body).run.run
        (w.logged (.entered env (node.key slot) slot.frame)) = (.ok v, w')) :
    (readAttr s (depth + 1) held env node attr).run.run w =
      (.ok v, w'.storing env (node.key slot) v) :=
  (run_readAttr_new found new).trans (run_compute_of_ok body)

end

end

/-- A call that is not being read holds its environment while it is. -/
theorem NodeCall.attr_of_not_mem (read : Read (Eval σ)) {held : List Nat} {env : Nat}
    (free : env ∉ held) (node : NodeRef) (params : List (Value × Value)) :
    NodeCall.attr read held env node params = read (env :: held) env node := by
  funext name
  exact if_neg free

theorem Engine.node_of_none {e : Engine σ} {name : String} (missing : e.module.node? name = none) :
    e.node name = Fault.fail (.undefinedNode name) := by
  rw [node, missing]

theorem Engine.node_of_some {e : Engine σ} {name : String} {ref : NodeRef}
    (found : e.module.node? name = some ref) : e.node name = .ok ref := by
  rw [node, found]

/-- A comprehension over items does what it does for the first and then goes on with the rest. -/
theorem collect_cons {m : Type → Type} [Monad m] [LawfulMonad m] [Machine σ m] (pair : Bool)
    (vars : List Value) (item : Value) (items : List Value) (filter : List Value → m Bool)
    (body : List Value → m α) :
    collect pair vars (item :: items) filter body = (do
      let bound ← Machine.step (Eval.ofExcept (bindItem pair item))
      if ← filter (bound ++ vars) then
        let result ← body (bound ++ vars)
        let results ← collect pair vars items filter body
        return result :: results
      else collect pair vars items filter body) := by
  unfold collect
  rw [List.filterMapM_cons]
  simp only [bind_assoc]
  congr 1
  funext bound
  congr 1
  funext passes
  cases passes with
  | true => simp only [if_true, bind_assoc, pure_bind]
  | false => simp only [Bool.false_eq_true, if_false, pure_bind]

end Formulary
