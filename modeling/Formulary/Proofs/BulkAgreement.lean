import Formulary.Proofs.Termination

/-!
# Bulk reads agree

A call that is read in bulk holds its environment meanwhile; an engine that is asked for the same
attributes reads them in an environment that no call holds. The difference shows only if the call is
met again in between. Code has no way to get at the call that it runs for, so that takes a host or a
world that knows the call (`World.Unaware`). Without one, all ways to read attributes in bulk agree
(`Program.bulk_reads_agree`); with one, they do not (`Cell.bulk_reads_differ`).
-/

namespace Formulary

variable {σ : Type}

/-- The value is not a node call with this environment. -/
def Value.Apart (env : Nat) : Value → Prop
  | call env' _ _ => env' ≠ env
  | _ => True

/-- No node call in the value has this environment. -/
def Value.Unaware (env : Nat) : Value → Prop := Every (Apart env)

/-- No node call in the world has this environment, nor in what the host makes of such values. -/
def World.Unaware (w : World σ) (host : Host σ) (env : Nat) : Prop :=
  ∃ ok : σ → Prop, host.Keeps (Value.Unaware env) ok ∧ w.Among (Value.Unaware env) ok

namespace Value

private theorem apart_of_ordinary (env : Nat) (v : Value) (h : v.Ordinary) : v.Apart env := by
  cases v with
  | call env' ref params => exact h.elim
  | _ => trivial

private theorem valuesKeep_unaware (env : Nat) : ValuesKeep (Unaware env) :=
  valuesKeep_every (apart_of_ordinary env) fun _ ↦ trivial

private theorem unaware_of_leaf {v : Value} (env : Nat) (h : v.Leaf) : v.Unaware env :=
  every_leaf (apart_of_ordinary env) h

private theorem unaware_node (env : Nat) (ref : NodeRef) : (node ref).Unaware env :=
  every_iff.mpr ⟨trivial, fun _ h ↦ by cases h⟩

private theorem unaware_call {env env' : Nat} {ref : NodeRef} {params : List (Value × Value)}
    (other : env' ≠ env) (h : (map params).Unaware env) : (call env' ref params).Unaware env :=
  every_iff.mpr ⟨other, fun _ hv ↦ h.part hv⟩

end Value

namespace Program

variable (p : Program) {host : Host σ} {ok : σ → Prop} {env : Nat}

/-- Evaluation makes no call with an environment that is there already. -/
theorem regime_unaware (keeps : host.Keeps (Value.Unaware env) ok) (whitelist : Whitelist) :
    Regime (p.setting host whitelist) (Value.Unaware env)
      fun w ↦ env < w.envs.size ∧ w.Among (Value.Unaware env) ok where
  methods := rfl
  params h found := h.2.params found
  kept h memo := h.2.kept memo
  code {ref attr slot code} _ found hc c within := by
    have spelled := p.constants found hc c within
    cases c with
    | const v =>
      obtain ⟨l, rfl⟩ := spelled
      exact Value.unaware_of_leaf env (Value.leaf_literal l)
    | node target => exact Value.unaware_node env _
    | _ => trivial
  newEnv {w params} h hp := by
    refine ⟨?_, h.2.newEnv hp⟩
    rw [Array.size_push]
    exact Nat.lt_succ_of_lt h.1
  made h _ hp := Value.unaware_call (Nat.ne_of_gt h.1) hp
  logged h he := ⟨h.1, h.2.record he⟩
  host h ha runs := by
    obtain ⟨result, after⟩ := keeps runs ha h.2.host
    exact ⟨result, h.1, h.2.params, h.2.kept, h.2.logged, after⟩
  store {_ _ _ w' env' _ _ _ _} _ _ _ _ h hv _ := by
    refine ⟨?_, h.2.storing _ _ hv⟩
    change env < (w'.envs.modify env' _).size
    rw [Array.size_modify]
    exact h.1

/-- Reading attributes for a call that nothing knows of, and for none. -/
theorem run_mapM_read_unheld {w : World σ} (unaware : w.Unaware host env)
    (there : env < w.envs.size) (whitelist : Whitelist) (depth : Nat) (node : NodeRef)
    (attrs : List String) :
    (attrs.mapM (readAttr (p.setting host whitelist) depth [env] env node)).run.run w =
      (attrs.mapM (readAttr (p.setting host whitelist) depth [] env node)).run.run w := by
  obtain ⟨ok, keeps, among⟩ := unaware
  -- held or not, no call that is met has this environment
  have alike : Regime.HeldAlike (Value.Unaware env)
      fun held : Bool ↦ if held then [env] else [] := by
    intro env' ref params unaware i j inside
    have other : env' ≠ env := unaware.self
    cases i with
    | false => cases inside
    | true => exact absurd (List.mem_singleton.mp inside) other
  have reads := fun attr ↦ (p.regime_unaware keeps whitelist).readAttr
    (t := fun _ ↦ p.setting host whitelist) true (Value.valuesKeep_unaware env)
    (fun _ ↦ .refl _ _) depth _ alike env node attr (Value.unaware_node env node)
  obtain ⟨result, w', runs, -⟩ := (confined Bool _).holds_mapM attrs (fun attr _ ↦ reads attr) w
    ⟨there, among⟩
  exact (runs true).trans (runs false).symm

end Program

namespace World.Unaware

/-- A new environment with such parameters changes nothing. -/
theorem withEnv {w : World σ} {host : Host σ} {env : Nat} {params : List (Value × Value)}
    (h : w.Unaware host env) (hp : (Value.map params).Unaware env) :
    (w.withEnv params).Unaware host env := by
  obtain ⟨ok, keeps, among⟩ := h
  exact ⟨ok, keeps, among.newEnv hp⟩

end World.Unaware

namespace Program

/-- Reading in bulk agrees, up to where evaluation breaks off.

On a new call of a node, `%` gives as a map what the call's entries are, or both fail in the same
way. If nothing else knows of the call, neither world nor host nor parameters, then the entries are
what the engine itself gives for the node, or both fail in the same way. When `%` succeeds, `/`
gives the same map. In any case `/` gives a map, unless a name breaks off or is exhausted in its
turn: then so is `/`. The keys of the map are the names in the order in which they first stand, and
the value of each is what the name gives in its turn at its last place, a fault as a value. A name's
turn comes in the world that the names before it left when each was read alone. -/
theorem bulk_reads_agree (p : Program) (module : Fin p.library.modules.size) (host : Host σ)
    (whitelist : Whitelist) (depth : Nat) {name : String} {node : NodeRef}
    (found : (p.engine module host whitelist depth).node name = .ok node)
    (params : List (Value × Value)) (attrs : List String) (w : World σ) :
    let e := p.engine module host whitelist depth
    (e.bulkStrict node params attrs).run.run w =
        (((e.callEntries node params attrs).run.run w).1.map .map,
          ((e.callEntries node params attrs).run.run w).2) ∧
      (w.Unaware host w.envs.size → (Value.map params).Unaware w.envs.size →
        (e.callEntries node params attrs).run.run w =
          (((e.evaluateEntries name attrs params).run.run w).1.map keyed,
            ((e.evaluateEntries name attrs params).run.run w).2)) ∧
      (∀ v w', (e.bulkStrict node params attrs).run.run w = (.ok v, w') →
        (e.bulkSafe node params attrs).run.run w = (.ok v, w')) ∧
      ((∃ stop, (∀ f, stop ≠ .fault f) ∧ .error stop ∈ e.turns node params attrs w ∧
          ((e.bulkSafe node params attrs).run.run w).1 = .error stop) ∨
        ∃ entries, (e.bulkSafe node params attrs).run.run w = (.ok (.map entries),
            Formulary.afterAll (e.readCall w.envs.size node) attrs (w.withEnv params)) ∧
          entries.map Prod.fst = (Ordered.ofElements attrs).map .str ∧
          ∀ i attr, attrs[i]? = some attr → attr ∉ attrs.drop (i + 1) →
            ∃ result v, (e.turns node params attrs w)[i]? = some result ∧
              NodeCall.settled result = .ok v ∧ Ordered.get? (.str attr) entries = some v) := by
  intro e
  refine ⟨Engine.run_bulkStrict w, fun unaware hp ↦ ?_,
    fun v w' ↦ Engine.run_bulkSafe_of_bulkStrict, ?_⟩
  · have there : w.envs.size < (w.withEnv params).envs.size := by
      change w.envs.size < (w.envs.push _).size
      rw [Array.size_push]
      exact Nat.lt_succ_self _
    have same : (attrs.mapM (e.readCall w.envs.size node)).run.run (w.withEnv params) =
        (attrs.mapM (e.read [] w.envs.size node)).run.run (w.withEnv params) :=
      p.run_mapM_read_unheld (unaware.withEnv hp) there whitelist depth node attrs
    have own : e.node name = .ok node := found
    rw [Engine.run_evaluateEntries own, Engine.callEntries, Eval.run_newEnv_bind,
      NodeCall.entries_eq, Eval.run_return, same]
    cases ((attrs.mapM (e.read [] w.envs.size node)).run.run (w.withEnv params)).1 <;> rfl
  rcases Engine.run_bulkSafe_cases e node params attrs w with stopped | ⟨values, settled, run⟩
  · exact .inl stopped
  · have length : values.length = attrs.length := by
      have turns := length_inTurn (e.readCall w.envs.size node) attrs (w.withEnv params)
      have both := congrArg List.length settled
      rw [List.length_map, List.length_map] at both
      exact both.symm.trans turns
    refine .inr ⟨_, run, keys_keyed length, ?_⟩
    intro i attr here last
    have bound : i < values.length := length ▸ (List.getElem?_eq_some_iff.mp here).1
    have turn : ((e.turns node params attrs w).map NodeCall.settled)[i]? =
        some (.ok values[i]) := by
      rw [settled, List.getElem?_map, List.getElem?_eq_getElem bound]
      rfl
    rw [List.getElem?_map] at turn
    obtain ⟨result, mine, value⟩ := Option.map_eq_some_iff.mp turn
    have place : values[i]? = some values[i] := List.getElem?_eq_getElem bound
    exact ⟨result, values[i], mine, value, get?_keyed_last here last place⟩

end Program

namespace Unsorted

theorem slot_y : program.library.slot? refA "y" = some ⟨1, 0, "M", memberY⟩ :=
  (program.slot?_of_own refA "y" rfl rfl rfl rfl rfl :)

private theorem slot_z : program.library.slot? refA "z" = none := by
  refine Option.eq_none_iff_forall_ne_some.mpr fun slot found ↦ ?_
  obtain ⟨l, defined, -⟩ := exists_of_rel_right (program.slot?_rel refA "z") found
  rw [Program.lineage, lineage] at defined
  cases defined

/-- A world in which nothing was done. -/
def start : World Unit := { host := (), log := some [] }

/-- Nothing knows of the first call. -/
theorem unaware_start : start.Unaware Host.bare start.envs.size := by
  refine ⟨fun _ ↦ True, fun args m state runs _ _ ↦ ?_, .new trivial⟩
  cases runs with
  | function hc => cases hc
  | method handle name =>
    refine ⟨fun v hv ↦ ?_, trivial⟩
    cases hv

private theorem memo_new (key : MemoKey) : (start.withEnv []).memo? 0 key = none := by
  rw [World.withEnv, World.memo?_newEnv]
  rfl

/-- The world after `y` was read. -/
def after : World Unit :=
  ((start.withEnv []).logged (.entered 0 ⟨0, 0, 1⟩ ⟨"M", 3, "y"⟩)).storing 0 ⟨0, 0, 1⟩ (.int 1)

theorem read_y : ((engine 1).read [0] 0 refA "y").run.run (start.withEnv []) =
    (.ok (.int 1), after) := by
  have slot : (engine 1).setting.library.slot? refA "y" = _ := slot_y
  exact run_readAttr_of_body slot (memo_new _) rfl

/-- The failure of a name that the node does not have. -/
def failure : Except Stop Value :=
  .error (.fault ⟨.invalidAttribute "z" "node A" "no such attribute", []⟩)

theorem read_z (w : World Unit) : ((engine 1).read [0] 0 refA "z").run.run w = (failure, w) := by
  have missing : (engine 1).setting.library.slot? refA "z" = none := slot_z
  change (readAttr (engine 1).setting (0 + 1) [0] 0 refA "z").run.run w = _
  rw [readAttr_of_none missing]
  rfl

private theorem turns_zyz : (engine 1).turns refA [] ["z", "y", "z"] start =
    [failure, .ok (.int 1), failure] := by
  change inTurn ((engine 1).read [0] 0 refA) ["z", "y", "z"] (start.withEnv []) = _
  rw [inTurn_cons (read_z _), inTurn_cons read_y, inTurn_cons (read_z _)]
  rfl

/-- A name that fails, before and after one that does not, keeps its first place and does not stop
the other. -/
theorem bulk_reads_agree_zyz : (engine 1).node "A" = .ok refA ∧
    start.Unaware Host.bare start.envs.size ∧ (Value.map []).Unaware start.envs.size ∧
    ((engine 1).callEntries refA [] ["z", "y", "z"]).run.run start =
      ((((engine 1).evaluateEntries "A" ["z", "y", "z"] []).run.run start).1.map keyed,
        (((engine 1).evaluateEntries "A" ["z", "y", "z"] []).run.run start).2) ∧
    ∃ entries w', ((engine 1).bulkSafe refA [] ["z", "y", "z"]).run.run start =
        (.ok (.map entries), w') ∧
      entries.map Prod.fst = [.str "z", .str "y"] ∧
      Ordered.get? (.str "y") entries = some (.int 1) := by
  have params : (Value.map []).Unaware start.envs.size := Value.unaware_of_leaf _ ⟨trivial, rfl⟩
  obtain ⟨-, engines, -, ⟨stop, other, stopped, -⟩ | ⟨entries, run, keys, values⟩⟩ :=
    program.bulk_reads_agree ⟨0, by decide⟩ Host.bare .standard 1 (node_eq 1) [] ["z", "y", "z"]
      start
  · have ended : Except.error stop ∈ (engine 1).turns refA [] ["z", "y", "z"] start := stopped
    rw [turns_zyz] at ended
    simp [failure, other] at ended
  · refine ⟨node_eq 1, unaware_start, params, engines unaware_start params, entries, _, run, keys,
      ?_⟩
    obtain ⟨result, v, turn, settled, value⟩ := values 1 "y" rfl (by decide)
    have mine : ((engine 1).turns refA [] ["z", "y", "z"] start)[1]? = some result := turn
    rw [turns_zyz] at mine
    cases mine
    cases settled
    exact value

/-- A sort that breaks off breaks `/` off, and it gives nothing for the other name. -/
theorem bulkSafe_breaks_off :
    (((engine 1).bulkSafe refA [] ["x", "y"]).run.run start).1 = .error .disorder ∧
      (engine 1).turns refA [] ["y"] start = [.ok (.int 1)] := by
  refine ⟨?_, inTurn_cons read_y []⟩
  have first : ((engine 1).read [0] 0 refA "x").run.run (start.withEnv []) =
      (.error .disorder, _) :=
    Prod.ext (read_x 0 [0] (memo_new _)) rfl
  have turns : (engine 1).turns refA [] ["x", "y"] start = .error .disorder :: _ :=
    inTurn_cons first ["y"]
  rw [Engine.run_bulkSafe, turns]
  rfl

end Unsorted

/-! A node that reads itself through a call that the host holds, `x = Cell.get().y + Cell.get().y`,
and counts how often, `y = Counter.bump()`. -/

namespace Cell

def refA : NodeRef := ⟨0, 0, "M", "A"⟩

/-- Gives the call of `A` with the first environment. -/
def cell : HostClass Samples.State where
  name := "Cell"
  functions :=
    [{ name := "get", arity := .exactly 0, run := fun _ ↦ return .call 0 refA [] }]

def host : Host Samples.State := ⟨[cell, Samples.counter], Samples.invoke⟩

def classes : List ClassSignature := host.classes.map HostClass.signature

/-- The expression `Cell.get().y`. -/
def held : Expr := .attr default (.method default (.path default ⟨none, "Cell"⟩) "get" []) "y"

def memberX : Member where
  name := "x"
  line := 2
  body := .formula (.binary .add (.getAttr (.function "Cell" "get" []) "y")
    (.getAttr (.function "Cell" "get" []) "y"))
  deps := []

def memberY : Member := ⟨"y", 3, .formula (.function "Counter" "bump" []), []⟩

def script : Accepted "M" classes (.having classes "A" [memberX, memberY]) :=
  ((Accepted.node "M" classes "A" default).define
    ⟨2, default, .formula "x" (.binary default .add held held)⟩ memberX rfl rfl rfl rfl).define
    ⟨3, default, .formula "y" (.method default (.path default ⟨none, "Counter"⟩) "bump" [])⟩ memberY
    rfl rfl rfl rfl

/-- The script as a program. -/
def program : Program := script.program rfl

def engine : Engine Samples.State := program.engine ⟨0, by decide⟩ host {} 2

theorem node_eq : engine.node "A" = .ok refA := by
  simp only [engine, Engine.node, Program.engine, program.node?_eq]
  rfl

theorem slot_x : engine.setting.library.slot? refA "x" = some ⟨0, 0, "M", memberX⟩ :=
  (program.slot?_of_own refA "x" rfl rfl rfl rfl rfl :)

theorem slot_y : engine.setting.library.slot? refA "y" = some ⟨1, 0, "M", memberY⟩ :=
  (program.slot?_of_own refA "y" rfl rfl rfl rfl rfl :)

section

variable {env : Nat} {held : List Nat} {w : World Samples.State}

/-- The world after `y` was read. -/
def bumped (w : World Samples.State) (env : Nat) : World Samples.State :=
  let w' := (w.logged (.entered env ⟨0, 0, 1⟩ ⟨"M", 3, "y"⟩)).logged (.function "Counter" "bump" [])
  World.storing { w' with host := { w.host with counter := w.host.counter + 1 } } env ⟨0, 0, 1⟩
    (.int (.ofNat (w.host.counter + 1)))

theorem read_y (new : w.memo? env ⟨0, 0, 1⟩ = none) :
    (readAttr engine.setting 1 held env refA "y").run.run w =
      (.ok (.int (.ofNat (w.host.counter + 1))), bumped w env) :=
  run_readAttr_of_body slot_y new rfl

/-- A call that is being read is read in a new environment. -/
theorem attr_busy : (NodeCall.attr (readAttr engine.setting 1) [0] 0 refA [] "y").run.run w =
    (.ok (.int (.ofNat (w.host.counter + 1))), bumped (w.withEnv []) w.envs.size) := by
  have new : (w.withEnv []).memo? w.envs.size ⟨0, 0, 1⟩ = none := by
    rw [World.withEnv, World.memo?_newEnv, World.memo?, Array.getElem?_eq_none (Nat.le_refl _)]
    rfl
  rw [NodeCall.attr, if_pos List.mem_cons_self]
  exact (Eval.run_newEnv_bind [] _ w).trans (read_y new)

/-- A call that is not being read keeps what it computes. -/
theorem attr_kept {v : Value} (kept : w.memo? 0 ⟨0, 0, 1⟩ = some v) :
    (NodeCall.attr (readAttr engine.setting 1) [] 0 refA [] "y").run.run w = (.ok v, w) := by
  change (readAttr engine.setting (0 + 1) [0] 0 refA "y").run.run w = _
  rw [run_readAttr slot_y, show w.memo? 0 ⟨refA.module, refA.index, 1⟩ = some v from kept]

/-- What `x` is when the call is read twice. -/
theorem read_x {w₁ w₂ : World Samples.State} {v₁ v₂ v : Value} (new : w.memo? 0 ⟨0, 0, 0⟩ = none)
    (first : (NodeCall.attr (readAttr engine.setting 1) held 0 refA [] "y").run.run
      ((w.logged (.entered 0 ⟨0, 0, 0⟩ ⟨"M", 2, "x"⟩)).logged (.function "Cell" "get" [])) =
        (.ok v₁, w₁))
    (second : (NodeCall.attr (readAttr engine.setting 1) held 0 refA [] "y").run.run
      (w₁.logged (.function "Cell" "get" [])) = (.ok v₂, w₂))
    (sum : applyBinary (readAttr engine.setting 1) held .add v₁ v₂ = pure v) :
    (engine.read held 0 refA "x").run.run w = (.ok v, w₂.storing 0 ⟨0, 0, 0⟩ v) := by
  change (readAttr engine.setting (1 + 1) held 0 refA "x").run.run w = _
  refine run_readAttr_of_body slot_x new ?_
  change (NodeCall.attr (readAttr engine.setting 1) held 0 refA [] "y" >>= fun a ↦ _).run.run
    ((w.logged (.entered 0 ⟨0, 0, 0⟩ ⟨"M", 2, "x"⟩)).logged (.function "Cell" "get" [])) = _
  rw [run_bind, first]
  change (NodeCall.attr (readAttr engine.setting 1) held 0 refA [] "y" >>= fun b ↦ _).run.run
    (w₁.logged (.function "Cell" "get" [])) = _
  rw [run_bind, second]
  change (applyBinary (readAttr engine.setting 1) held .add v₁ v₂).run.run w₂ = _
  rw [sum]
  rfl

end

/-- The world right after the first environment was made. -/
def start : World Samples.State := World.withEnv { host := {} } []

/-- A call that the host holds meets itself while it is read in bulk, and then `y` is counted twice.
An engine that is asked for the same attribute reads no call, so `y` is counted once. -/
theorem bulk_reads_differ :
    ((engine.bulkStrict refA [] ["x"]).run.run { host := {} }).1 =
        .ok (.map [(.str "x", .int 3)]) ∧
      ((engine.evaluateEntries "A" ["x"] []).run.run { host := {} }).1 = .ok [("x", .int 2)] := by
  have new (key : MemoKey) : start.memo? 0 key = none := by
    rw [start, World.withEnv, World.memo?_newEnv]
    rfl
  constructor
  · obtain ⟨w', twice⟩ : ∃ w', (engine.read [0] 0 refA "x").run.run start = (.ok (.int 3), w') :=
      ⟨_, read_x (new _) attr_busy attr_busy rfl⟩
    have turns : engine.turns refA [] ["x"] { host := {} } = [.ok (.int 3)] := inTurn_cons twice []
    rw [Engine.run_bulkStrict, Engine.run_callEntries, turns]
    rfl
  · obtain ⟨w', once⟩ : ∃ w', (engine.read [] 0 refA "x").run.run start = (.ok (.int 2), w') := by
      refine ⟨_, read_x (new _) (read_y (new _)) (attr_kept (v := .int 1) ?_) rfl⟩
      exact (World.memo?_storing _ _ _ _ _ _).trans (if_pos ⟨rfl, rfl, by decide⟩)
    rw [Engine.run_evaluateEntries node_eq, fst_run_mapM]
    change ((inTurn (engine.read [] 0 refA) ["x"] start).mapM id).map _ = _
    rw [inTurn_cons once]
    rfl

end Cell

end Formulary
