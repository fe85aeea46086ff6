import Formulary.Host.Samples
import Formulary.Proofs.Accepted
import Formulary.Proofs.Watching
import Formulary.Registry

/-!
# When attributes are computed again

An environment keeps the value of an attribute when it has been computed, and it is not computed
again after that. But nothing marks an attribute while it is being computed, so code that reads it
through its node, `A.x` in the place of `x`, can enter it once more, and if the inner computation
comes to an end then both values are kept, the outer one in the place of the inner one
(`Reentry.computed_again`). That is the only way: an attribute that is not entered while it is being
computed is computed once at most, however it is reached and however many requests there are
(`Program.computed_once_unless_reentered`).
-/

namespace Formulary

variable {σ : Type}

namespace Program

section

variable (p : Program) (host : Host σ) (whitelist : Whitelist) (depth : Nat)

/-- A request to the engine of one of the modules. -/
abbrev Asked (p : Program) := Fin p.library.modules.size × Request

/-- The world after some requests, one after the other, whether they fail or not. -/
def afterAll (w : World σ) (session : List p.Asked) : World σ :=
  session.foldl (fun w asked ↦
    ((asked.2.answer (p.engine asked.1 host whitelist depth)).run.run w).2) w

/-- What a watcher knows after some requests. -/
def watchAll (x : Watch σ) (session : List p.Asked) : Watch σ :=
  session.foldl (fun x asked ↦
    ((asked.2.watch (p.engine asked.1 host whitelist depth)).run.run x).2) x

/-- Requests can be watched one after the other. -/
theorem account_watchAll (session : List p.Asked) (x : Watch σ) : ∃ notes,
    p.watchAll host whitelist depth x session =
      ⟨p.afterAll host whitelist depth x.world session, x.stack, x.notes ++ notes⟩ ∧
    Account False x.stack x.world notes (p.afterAll host whitelist depth x.world session) := by
  induction session generalizing x with
  | nil => exact ⟨[], by simp [watchAll, afterAll], .quiet fun _ _ ↦ rfl⟩
  | cons asked session ih =>
    have watched : Watches False (asked.2.answer (p.engine asked.1 host whitelist depth))
        (asked.2.watch (p.engine asked.1 host whitelist depth)) :=
      watches_answer rfl False.elim asked.2
    obtain ⟨-, notes, ran, account⟩ := watched x
    obtain ⟨notes', ran', account'⟩ := ih ⟨_, x.stack, x.notes ++ notes⟩
    refine ⟨notes ++ notes', ?_, account.trans account'⟩
    rw [watchAll, List.foldl_cons, ran, ← watchAll, ran', List.append_assoc]
    rfl

end

/-- A value that is kept stays, and an attribute is computed once at most unless it is entered while
it is being computed.

Let any requests be made to the engines of a program, one after the other, on any host and in any
world. A watcher sees all attributes that are entered and all values that are kept, and leaves the
world as it is without one. What was kept before stays, and is neither entered nor kept again. What
is kept in the end is the last value that was noted, or what was kept before. After a value is kept,
its attribute is not entered again in that environment. If it is not entered while it is being
computed in the same environment, only one value is kept, which is the one that is kept in the
end. -/
theorem computed_once_unless_reentered (p : Program) (host : Host σ) (whitelist : Whitelist)
    (depth : Nat) (w : World σ) (session : List p.Asked) :
    let after := p.afterAll host whitelist depth w session
    ∃ notes, p.watchAll host whitelist depth { world := w } session = ⟨after, [], notes⟩ ∧
      (∀ env key v, w.memo? env key = some v → after.memo? env key = some v ∧
        (∀ again, .entered env key again ∉ notes) ∧ keptValues env key notes = []) ∧
      (∀ env key,
        after.memo? env key = (keptValues env key notes).getLast?.or (w.memo? env key)) ∧
      (∀ before env key v later, notes = before ++ .kept env key v :: later →
        ∀ again, .entered env key again ∉ later) ∧
      ∀ env key, .entered env key true ∉ notes → ∀ v ∈ keptValues env key notes,
        keptValues env key notes = [v] ∧ after.memo? env key = some v := by
  obtain ⟨notes, ran, account⟩ := p.account_watchAll host whitelist depth session { world := w }
  refine ⟨notes, ran, fun env key v ↦ account.known, account.last,
    fun before env key v later ↦ account.settled, fun env key free v hv ↦ ?_⟩
  have single : keptValues env key notes = [v] := by
    obtain ⟨u, hu⟩ := List.length_eq_one_iff.mp
      (Nat.le_antisymm (account.once free) (List.length_pos_of_mem hv))
    rw [hu] at hv ⊢
    rw [List.mem_singleton.mp hv]
  refine ⟨single, ?_⟩
  rw [account.last, single]
  rfl

end Program

/-! ### An attribute that is computed twice

The node `A` has `x = if Counter.bump() < 2 then A.y + 1 else 5` and `y = x`. -/

/-- Computing an attribute keeps what its body computes. -/
theorem Watch.run_compute_of_body {env : Nat} {key : MemoKey} {frame : Fault.Frame}
    {body : Watched σ Value} {x y : Watch σ} {v : Value}
    (ran : body.run.run ⟨x.world.logged (.entered env key frame), ⟨env, key, frame⟩ :: x.stack,
      x.notes ++ [.entered env key (x.isUnderway env key)]⟩ = (.ok v, y)) :
    (compute env key frame body).run.run x =
      (.ok v, ⟨{ y.world with envs := y.world.envs.modify env (·.store key v) }.logged
          (.left env key (some v)), y.stack.tail,
        y.notes ++ if env < y.world.envs.size then [.kept env key v] else []⟩) := by
  rw [run_compute, ran]

namespace Reentry

def x : Expr :=
  .cond default
    (.binary default .lt (.method default (.path default ⟨none, "Counter"⟩) "bump" [])
      (.literal default (.int 2)))
    (.binary default .add (.attr default (.path default ⟨none, "A"⟩) "y")
      (.literal default (.int 1)))
    (.literal default (.int 5))

def y : Expr := .ident default "x"

def memberX : Member where
  name := "x"
  line := 2
  body := .formula (.cond (.binary .lt (.function "Counter" "bump" []) (.const (.int 2)))
    (.binary .add (.getAttr (.node (.own 0 "A")) "y") (.const (.int 1))) (.const (.int 5)))
  deps := []

def memberY : Member := ⟨"y", 3, .formula (.attr "x"), ["x"]⟩

/-- The classes that the script knows. -/
def classes : List ClassSignature := [Samples.counter.signature]

def definitionX : Definition := ⟨.having classes "A" [], 2, "x", .formula x⟩

def definitionY : Definition := ⟨.having classes "A" [memberX], 3, "y", .formula y⟩

theorem member_x : definitionX.member = .ok memberX := rfl

theorem member_y : definitionY.member = .ok memberY :=
  Definition.member_ident (by simp [Scope.sees, Scope.having, Dependencies.of, memberX]) _ _

def script : Accepted "M" classes (.having classes "A" [memberX, memberY]) :=
  ((Accepted.node "M" classes "A" default).define ⟨2, default, .formula "x" x⟩ memberX rfl rfl rfl
    rfl).define ⟨3, default, .formula "y" y⟩ memberY rfl member_y rfl rfl

/-- The script as a program. -/
def program : Program := script.program rfl

/-- Its engine on the sample host. -/
def engine : Engine Samples.State := program.engine ⟨0, by decide⟩ Samples.host {} 10

def refA : NodeRef := ⟨0, 0, "M", "A"⟩

def keyX : MemoKey := ⟨0, 0, 0⟩

def keyY : MemoKey := ⟨0, 0, 1⟩

theorem slot_x : engine.setting.library.slot? refA "x" = some ⟨0, 0, "M", memberX⟩ :=
  (program.slot?_of_own refA "x" rfl rfl rfl rfl member_x :)

theorem slot_y : engine.setting.library.slot? refA "y" = some ⟨1, 0, "M", memberY⟩ :=
  (program.slot?_of_own refA "y" rfl rfl rfl rfl member_y :)

/-- A world with one environment, after so many calls were counted. -/
def world (e : Env) (count : Nat) : World Samples.State :=
  { envs := #[e], host := { counter := count } }

variable {e e' : Env} {count count' depth : Nat} {held : List Nat} {stack : List Underway}
  {notes notes' : List Note}

/-- Reading an attribute of `A` in such a world. -/
theorem run_read {attr : String} {slot : Slot}
    (found : engine.setting.library.slot? refA attr = some slot) :
    (Watch.readAttr engine.setting (depth + 1) held 0 refA attr).run.run
        ⟨world e count, stack, notes⟩ =
      match e.cached? ⟨0, 0, slot.id⟩ with
      | some v => (.ok v, ⟨world e count, stack, notes⟩)
      | none => (compute engine.setting (Watch.readAttr engine.setting depth) held 0 refA
          slot).run.run ⟨world e count, stack, notes⟩ :=
  Watch.run_readAttr found _

/-- An attribute of `A` that is not kept yet is what its body computes. -/
theorem read_of_body {attr : String} {slot : Slot} {v : Value} {key : MemoKey} {again : Bool}
    (found : engine.setting.library.slot? refA attr = some slot) (hk : ⟨0, 0, slot.id⟩ = key)
    (new : e.cached? key = none) (ha : Watch.isUnderway ⟨world e count, stack, notes⟩ 0 key = again)
    (body : (runBody engine.setting (Watch.readAttr engine.setting depth)
      ⟨0, held, refA, slot.home, slot.homeName⟩ slot.member.name slot.member.body).run.run
        ⟨world e count, ⟨0, key, slot.frame⟩ :: stack, notes ++ [.entered 0 key again]⟩ =
          (.ok v, ⟨world e' count', ⟨0, key, slot.frame⟩ :: stack, notes'⟩)) :
    (Watch.readAttr engine.setting (depth + 1) held 0 refA attr).run.run
        ⟨world e count, stack, notes⟩ =
      (.ok v, ⟨world (e'.store key v) count', stack, notes' ++ [.kept 0 key v]⟩) := by
  subst ha hk
  rw [run_read found, new]
  exact Watch.run_compute_of_body (x := ⟨world e count, stack, notes⟩) body

/-- Once a call was counted, `x` is 5. -/
theorem read_x_later (new : e.cached? keyX = none) :
    (Watch.readAttr engine.setting (depth + 1) held 0 refA "x").run.run ⟨world e 1, stack, notes⟩ =
      (.ok (.int 5), ⟨world (e.store keyX (.int 5)) 2, stack, notes ++
        [.entered 0 keyX (Watch.isUnderway ⟨world e 1, stack, notes⟩ 0 keyX)] ++
          [.kept 0 keyX (.int 5)]⟩) :=
  read_of_body slot_x rfl new rfl rfl

/-- Then `y` is 5 too. -/
theorem read_y_later (newX : e.cached? keyX = none) (newY : e.cached? keyY = none) :
    (Watch.readAttr engine.setting (depth + 2) held 0 refA "y").run.run ⟨world e 1, stack, notes⟩ =
      (.ok (.int 5), ⟨world ((e.store keyX (.int 5)).store keyY (.int 5)) 2, stack, notes ++
        [.entered 0 keyY (Watch.isUnderway ⟨world e 1, stack, notes⟩ 0 keyY)] ++
        [.entered 0 keyX (Watch.isUnderway ⟨world e 1, stack, notes⟩ 0 keyX)] ++
          [.kept 0 keyX (.int 5)] ++ [.kept 0 keyY (.int 5)]⟩) := by
  refine read_of_body slot_y rfl newY rfl ?_
  simp only [runBody, memberY, run, Machine.attr, slot_x]
  exact read_x_later newX

/-- At first `x` is one more than `y`. -/
theorem read_x (newX : e.cached? keyX = none) (newY : e.cached? keyY = none) :
    (Watch.readAttr engine.setting (depth + 3) held 0 refA "x").run.run ⟨world e 0, stack, notes⟩ =
      (.ok (.int 6), ⟨world (((e.store keyX (.int 5)).store keyY (.int 5)).store keyX (.int 6)) 2,
        stack, notes ++
        [.entered 0 keyX (Watch.isUnderway ⟨world e 1, stack, notes⟩ 0 keyX)] ++
        [.entered 0 keyY (Watch.isUnderway ⟨world e 1, stack, notes⟩ 0 keyY)] ++
        [.entered 0 keyX true] ++
          [.kept 0 keyX (.int 5)] ++ [.kept 0 keyY (.int 5)] ++ [.kept 0 keyX (.int 6)]⟩) := by
  refine read_of_body slot_x rfl newX rfl ?_
  change (Watch.readAttr engine.setting (depth + 2) held 0 refA "y" >>= fun v ↦
    applyBinary _ held .add v (.int 1)).run.run ⟨world e 1, _, _⟩ = _
  rw [run_bind, read_y_later newX newY]
  rfl

/-- What is kept of `y` is not computed again. -/
theorem read_y_kept {v : Value} (kept : e.cached? keyY = some v) :
    (Watch.readAttr engine.setting (depth + 1) held 0 refA "y").run.run
        ⟨world e count, stack, notes⟩ =
      (.ok v, ⟨world e count, stack, notes⟩) := by
  rw [keyY] at kept
  rw [run_read slot_y, kept]

theorem node_eq : engine.node "A" = .ok refA := by
  simp only [engine, Engine.node, Program.engine, program.node?_eq]
  rfl

/-- What is seen of a request for `x` and `y`. -/
theorem watched_xy :
    ((Request.evaluateMany "A" ["x", "y"] []).watch engine).run.run { world := { host := {} } } =
      (.ok [.int 6, .int 5],
        ⟨world ((((Env.mk [] ∅).store keyX (.int 5)).store keyY (.int 5)).store keyX (.int 6)) 2,
          [],
          [.entered 0 keyX false, .entered 0 keyY false, .entered 0 keyX true,
            .kept 0 keyX (.int 5), .kept 0 keyY (.int 5), .kept 0 keyX (.int 6)]⟩) := by
  generalize he : Env.mk [] ∅ = e
  have new : ∀ key, e.cached? key = none := by simp [← he, Env.cached?]
  have kept : (((e.store keyX (.int 5)).store keyY (.int 5)).store keyX (.int 6)).cached? keyY =
      some (.int 5) := by
    simp [Env.cached?_store, keyX, keyY]
  change (Watch.step (Eval.ofExcept (engine.node "A")) >>= fun node ↦
    Request.nodeIn (Watched Samples.State) engine node ["x", "y"] []).run.run _ = _
  rw [node_eq]
  change ((["x", "y"].mapM fun attr ↦ Watch.readAttr engine.setting (7 + 3) [] 0 refA attr) :
    Watched _ _).run.run ⟨world (Env.mk [] ∅) 0, [], []⟩ = _
  rw [he]
  simp only [List.mapM_cons, List.mapM_nil, run_bind, read_x (new keyX) (new keyY),
    read_y_kept kept]
  rfl

/-- Within one request `x` is computed twice and has two values: while it is being computed `A.y`
makes it 5, and in the end it is 6. Then `x` and `y` differ, although `y = x`. -/
theorem computed_again :
    ((engine.evaluateMany "A" ["x", "y"] []).run.run { host := {} }).1 =
        .ok [.int 6, .int 5] ∧
      keptValues 0 keyX (program.watchAll Samples.host {} 10 { world := { host := {} } }
        [(⟨0, by decide⟩, .evaluateMany "A" ["x", "y"] [])]).notes = [.int 5, .int 6] := by
  have watched : Watches False (engine.evaluateMany "A" ["x", "y"] [])
      ((Request.evaluateMany "A" ["x", "y"] []).watch engine) :=
    watches_answer rfl False.elim (.evaluateMany "A" ["x", "y"] [])
  obtain ⟨-, notes, ran, -⟩ := watched.whole { host := {} }
  refine ⟨(congrArg Prod.fst ran).symm.trans (congrArg Prod.fst watched_xy), ?_⟩
  change keptValues 0 keyX (((Request.evaluateMany "A" ["x", "y"] []).watch engine).run.run
    { world := { host := {} } }).2.notes = _
  rw [watched_xy]
  rfl

end Reentry

end Formulary
