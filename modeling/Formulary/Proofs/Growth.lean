import Formulary.Proofs.Recomputation
import Formulary.Proofs.Regime

/-!
# What environments keep

An environment keeps the parameters it was made with and the values that were computed in it, also
when an evaluation fails. From one world to the next values are only added, and each was computed on
the way, by its own member and in its own environment (`World.Grows`). So the value of an attribute
that was read once is there for good: whatever is asked in between, reading it again gives the same
value and does nothing (`Program.memo_only_grows`).
-/

namespace Formulary

variable {σ : Type}

/-! ### Later worlds -/

/-- A world comes later than another one: the environments have the parameters they had, and if a
log is kept then events were only added to it. -/
structure World.Onward (w w' : World σ) : Prop where
  params : ∀ {i : Nat} {e : Env}, w.envs[i]? = some e →
    ∃ e' : Env, w'.envs[i]? = some e' ∧ e'.params = e.params
  log : ∃ events, w'.log = w.log.map (events ++ ·)

namespace World.Onward

variable {w w' w'' : World σ}

theorem refl (w : World σ) : w.Onward w where
  params h := ⟨_, h, rfl⟩
  log := ⟨[], by simp⟩

theorem trans (h : w.Onward w') (h' : w'.Onward w'') : w.Onward w'' where
  params he := by
    obtain ⟨e', he', same⟩ := h.params he
    obtain ⟨e'', he'', same'⟩ := h'.params he'
    exact ⟨e'', he'', same'.trans same⟩
  log := by
    obtain ⟨events, first⟩ := h.log
    obtain ⟨events', second⟩ := h'.log
    refine ⟨events' ++ events, ?_⟩
    rw [second, first, Option.map_map]
    congr 1
    funext log
    simp

theorem newEnv (w : World σ) (params : List (Value × Value)) :
    w.Onward { w with envs := w.envs.push { params } } where
  params {i e} he := by
    have bound : i < w.envs.size := (Array.getElem?_eq_some_iff.mp he).1
    refine ⟨e, ?_, rfl⟩
    rw [Array.getElem?_push_lt bound, ← Array.getElem?_eq_getElem bound]
    exact he
  log := ⟨[], by simp⟩

theorem logged (w : World σ) (event : Event) : w.Onward (w.logged event) where
  params h := ⟨_, h, rfl⟩
  log := ⟨[event], rfl⟩

theorem host (w : World σ) (state : σ) : w.Onward { w with host := state } where
  params h := ⟨_, h, rfl⟩
  log := ⟨[], by simp⟩

theorem storing (w : World σ) (env : Nat) (key : MemoKey) (v : Value) :
    w.Onward (w.storing env key v) where
  params {i e} he := by
    change ∃ e' : Env, (w.envs.modify env (·.store key v))[i]? = some e' ∧ _
    rw [Array.getElem?_modify]
    by_cases here : env = i
    · rw [if_pos here, he]
      exact ⟨_, rfl, rfl⟩
    · rw [if_neg here]
      exact ⟨e, he, rfl⟩
  log := ⟨[.left env key (some v)], rfl⟩

end World.Onward

/-! ### Growing worlds -/

/-- Between two worlds an attribute is computed in an environment: in a world on the way it is not
kept yet, its member gives the value, and what comes after that is on the way too. -/
inductive Setting.Computes (s : Setting σ) (w w' : World σ) (env : Nat) :
    MemoKey → Value → Prop where
  | computed {node : NodeRef} {attr : String} {slot : Slot} {depth : Nat} {held : List Nat}
    {w₁ w₂ : World σ} {v : Value} (found : s.library.slot? node attr = some slot)
    (before : w.Onward w₁) (new : w₁.memo? env (node.key slot) = none)
    (ran : (compute s (readAttr s depth) held env node slot).run.run w₁ = (.ok v, w₂))
    (after : w₂.Onward w') : Computes s w w' env (node.key slot) v

theorem Setting.Computes.onward {s : Setting σ} {w w' w'' : World σ} {env : Nat} {key : MemoKey}
    {v : Value} (h : s.Computes w w' env key v) (later : w'.Onward w'') :
    s.Computes w w'' env key v := by
  obtain ⟨found, before, new, ran, after⟩ := h
  exact .computed found before new ran (after.trans later)

/-- What is kept in a world stays until the other one, and what is kept only in that one was
computed on the way. -/
structure World.Grows (s : Setting σ) (w w' : World σ) : Prop extends w.Onward w' where
  known : ∀ {env key v}, w.memo? env key = some v → w'.memo? env key = some v
  new : ∀ {env key v}, w'.memo? env key = some v →
    w.memo? env key = some v ∨ s.Computes w w' env key v

namespace World.Grows

variable {s : Setting σ} {w w' w'' : World σ}

theorem refl (s : Setting σ) (w : World σ) : w.Grows s w where
  toOnward := .refl w
  known h := h
  new h := .inl h

/-- A step that keeps nothing. -/
theorem quiet (h : w.Grows s w') (step : w'.Onward w'')
    (same : ∀ env key, w''.memo? env key = w'.memo? env key) : w.Grows s w'' where
  toOnward := h.toOnward.trans step
  known hv := by
    rw [same]
    exact h.known hv
  new {env key v} hv := by
    rw [same] at hv
    rcases h.new hv with old | computed
    · exact .inl old
    · exact .inr (computed.onward step)

/-- An attribute that is not kept yet is computed and stored. What its body does comes in between,
and may have kept a value of the attribute already. -/
theorem storing {depth env : Nat} {held : List Nat} {node : NodeRef} {attr : String} {slot : Slot}
    {v : Value} (found : s.library.slot? node attr = some slot) (h : w.Grows s w')
    (none : w'.memo? env (node.key slot) = none) (inside : w.Grows s w'')
    (ran : (compute s (readAttr s depth) held env node slot).run.run w' =
      (.ok v, w''.storing env (node.key slot) v)) :
    w.Grows s (w''.storing env (node.key slot) v) where
  toOnward := inside.toOnward.trans (.storing ..)
  known {env' key' u} hu := by
    rw [memo?_storing]
    split
    · next same =>
      obtain ⟨rfl, rfl, -⟩ := same
      cases none.symm.trans (h.known hu)
    · exact inside.known hu
  new {env' key' u} hu := by
    rw [memo?_storing] at hu
    split at hu
    · next same =>
      obtain ⟨rfl, rfl, -⟩ := same
      cases hu
      exact .inr (.computed found h.toOnward none ran (.refl _))
    · rcases inside.new hu with old | computed
      · exact .inl old
      · exact .inr (computed.onward (.storing ..))

theorem trans (h : w.Grows s w') (h' : w'.Grows s w'') : w.Grows s w'' where
  toOnward := h.toOnward.trans h'.toOnward
  known hv := h'.known (h.known hv)
  new hv := by
    rcases h'.new hv with old | ⟨found, before, none, ran, after⟩
    · rcases h.new old with old | computed
      · exact .inl old
      · exact .inr (computed.onward h'.toOnward)
    · exact .inr (.computed found (h.toOnward.trans before) none ran after)

end World.Grows

/-- The worlds that one has grown to are not left by evaluation. -/
theorem regime_grows {s : Setting σ} (methods : s.builtIns = Value.send) (w : World σ) :
    Regime s (fun _ ↦ True) (w.Grows s) where
  methods := methods
  params _ _ := trivial
  kept _ _ := trivial
  code _ _ _ c _ := by cases c <;> trivial
  made _ _ _ := trivial
  newEnv {w' params} h _ := h.quiet (.newEnv w' params) (w'.memo?_newEnv params)
  logged {w' event} h _ := h.quiet (.logged w' event) fun _ _ ↦ rfl
  host h _ _ := ⟨fun _ _ ↦ trivial, h.quiet (.host ..) fun _ _ ↦ rfl⟩
  store _ found h none inside _ ran := h.storing found none inside ran

/-- Whatever an engine is asked, worlds grow. -/
theorem grows_answer {e : Engine σ} (methods : e.setting.builtIns = Value.send) (request : Request)
    (w : World σ) : w.Grows e.setting ((request.answer e).run.run w).2 := by
  have among : request.Among fun _ ↦ True := by
    cases request <;> simp [Request.Among]
  obtain ⟨result, w', ran, grown, -⟩ :=
    (regime_grows methods w).answer valuesKeep_true (fun _ ↦ trivial) among w (.refl _ w)
  rw [ran ()]
  exact grown

namespace Program

/-- However many requests there are, worlds grow. -/
theorem grows_afterAll (p : Program) (host : Host σ) (whitelist : Whitelist) (depth : Nat)
    (w : World σ) (session : List p.Asked) :
    w.Grows (p.setting host whitelist) (p.afterAll host whitelist depth w session) := by
  induction session generalizing w with
  | nil => exact .refl _ w
  | cons asked session ih =>
    have first := grows_answer (e := p.engine asked.1 host whitelist depth) rfl asked.2 w
    exact first.trans (ih _)

end Program

/-! ### Attributes that were read -/

theorem World.Onward.there {w w' : World σ} (h : w.Onward w') {env : Nat}
    (there : env < w.envs.size) : env < w'.envs.size := by
  obtain ⟨e', he', -⟩ := h.params (Array.getElem?_eq_getElem there)
  exact (Array.getElem?_eq_some_iff.mp he').1

theorem grows_readAttr {s : Setting σ} (methods : s.builtIns = Value.send) (depth : Nat)
    (held : List Nat) (env : Nat) (node : NodeRef) (attr : String) (w : World σ) :
    w.Grows s ((readAttr s depth held env node attr).run.run w).2 := by
  obtain ⟨result, w', ran, grown, -⟩ := (regime_grows methods w).readAttr (t := fun _ ↦ s) ()
    valuesKeep_true (fun _ ↦ .refl s _) depth _ (Regime.heldAlike_const held) env node attr trivial
    w (.refl s w)
  rw [ran ()]
  exact grown

/-- An attribute that was read is kept, if its environment is there. -/
theorem memo?_of_readAttr {s : Setting σ} (methods : s.builtIns = Value.send) {depth env : Nat}
    {held : List Nat} {node : NodeRef} {attr : String} {w w' : World σ} {v : Value}
    (there : env < w.envs.size)
    (ran : (readAttr s depth held env node attr).run.run w = (.ok v, w')) :
    ∃ slot, s.library.slot? node attr = some slot ∧
      w'.memo? env (node.key slot) = some v := by
  have grown := grows_readAttr methods depth held env node attr w
  rw [ran] at grown
  cases depth with
  | zero => cases ran
  | succ depth =>
    cases found : s.library.slot? node attr with
    | none =>
      rw [readAttr_of_none found] at ran
      cases ran
    | some slot =>
      refine ⟨slot, rfl, ?_⟩
      rw [run_readAttr found] at ran
      cases memo : w.memo? env (node.key slot) with
      | some u =>
        rw [memo] at ran
        cases ran
        exact memo
      | none =>
        rw [memo] at ran
        cases body : (runBody s (readAttr s depth) ⟨env, held, node, slot.home, slot.homeName⟩
            slot.member.name slot.member.body).run.run
              (w.logged (.entered env (node.key slot) slot.frame)) with
        | mk result inner =>
          cases result with
          | error stop =>
            cases (run_compute_of_error body).symm.trans ran
          | ok u =>
            cases (run_compute_of_ok body).symm.trans ran
            have inside :
                env < (inner.storing env (node.key slot) v).envs.size :=
              grown.toOnward.there there
            simp only [World.storing, World.logged, Array.size_modify] at inside
            rw [World.memo?_storing, if_pos ⟨rfl, rfl, inside⟩]

/-- An attribute that is kept is read without any effect. -/
theorem readAttr_of_memo? {s : Setting σ} {env : Nat} {node : NodeRef} {attr : String}
    {slot : Slot} {w : World σ} {v : Value} (found : s.library.slot? node attr = some slot)
    (memo : w.memo? env (node.key slot) = some v) (depth : Nat)
    (held : List Nat) : (readAttr s (depth + 1) held env node attr).run.run w = (.ok v, w) := by
  rw [run_readAttr found, memo]

namespace Program

/-- What an environment keeps only grows, also when an evaluation fails.

Let an engine of a program be asked anything, on any host and in any world, with success or without.
Then every environment has the parameters it had. What it kept of an attribute is kept with the same
value. What it keeps of other attributes was kept in the course of this request, as a watcher can
tell, and is what the member with that key computed in that environment. If an attribute was read
with success in an environment that is there, its value is kept, and it is read again without any
effect and with the same value, by the engine of any module and whatever is asked in between, with
success or without. -/
theorem memo_only_grows (p : Program) (host : Host σ) (whitelist : Whitelist) (depth : Nat)
    (w : World σ) :
    (∀ asked : p.Asked,
      let after := ((asked.2.answer (p.engine asked.1 host whitelist depth)).run.run w).2
      ∃ notes, p.watchAll host whitelist depth { world := w } [asked] = ⟨after, [], notes⟩ ∧
        ∀ i e, w.envs[i]? = some e → ∃ e', after.envs[i]? = some e' ∧ e'.params = e.params ∧
          (∀ key v, e.cached? key = some v → e'.cached? key = some v) ∧
          ∀ key v, e'.cached? key = some v → e.cached? key = some v ∨
            .kept i key v ∈ notes ∧ (p.setting host whitelist).Computes w after i key v) ∧
    ∀ module held env node attr v w', env < w.envs.size →
      ((p.engine module host whitelist depth).read held env node attr).run.run w = (.ok v, w') →
      ∃ slot, p.library.slot? node attr = some slot ∧
        w'.memo? env ⟨node.module, node.index, slot.id⟩ = some v ∧
        ∀ (session : List p.Asked) module' depth' held',
          let later := p.afterAll host whitelist depth w' session
          ((p.engine module' host whitelist (depth' + 1)).read held' env node attr).run.run later =
            (.ok v, later) := by
  constructor
  · intro asked
    have grown := grows_answer (e := p.engine asked.1 host whitelist depth) rfl asked.2 w
    obtain ⟨notes, watched, account⟩ :=
      p.account_watchAll host whitelist depth [asked] { world := w }
    refine ⟨notes, watched, fun i e he ↦ ?_⟩
    obtain ⟨e', he', params⟩ := grown.params he
    refine ⟨e', he', params, fun key v hv ↦ ?_, fun key v hv ↦ ?_⟩
    · rw [← World.memo?_of_env he] at hv
      rw [← World.memo?_of_env he']
      exact grown.known hv
    · rw [← World.memo?_of_env he'] at hv
      rw [← World.memo?_of_env he]
      have last := account.last i key
      cases kept : (keptValues i key notes).getLast? with
      | none =>
        rw [kept, Option.none_or] at last
        exact .inl (last.symm.trans hv)
      | some u =>
        rw [kept, Option.some_or] at last
        cases last.symm.trans hv
        have noted := mem_keptValues_iff.mp (List.mem_of_getLast? kept)
        exact (grown.new hv).imp_right fun computed ↦ ⟨noted, computed⟩
  · intro module held env node attr v w' there ran
    obtain ⟨slot, found, memo⟩ := memo?_of_readAttr rfl there ran
    refine ⟨slot, found, memo, fun session module' depth' held' ↦ ?_⟩
    have grown := p.grows_afterAll host whitelist depth w' session
    exact readAttr_of_memo? found (grown.known memo) depth' held'

end Program

end Formulary
