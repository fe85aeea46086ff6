import Formulary.Proofs.Sandbox

/-!
# Watched evaluation

Evaluation with a watcher beside it: another monad for the evaluator to run in. The watcher knows
which attributes are being computed: one is put on a stack when it is entered, and taken off when it
is left. A fault gets the frames of the whole stack at the moment it is made, and nothing is added
to it on its way out; one that is taken as a value loses the frames of the attributes outside. What
concerns names and kept values is noted down. Nothing that the watcher does has an influence on what
is computed.
-/

namespace Formulary

variable {σ α : Type}

/-- An attribute that is being computed, and the environment that it is computed in. -/
structure Underway where
  env : Nat
  key : MemoKey
  frame : Fault.Frame

/-- A name that is not found where code uses it. -/
inductive Slip where
  /-- An attribute that is named alone, and that the node being computed does not have. -/
  | attribute (node : NodeRef) (name : String)
  /-- A variable that no comprehension around binds. -/
  | variable (index : Nat)
  /-- A function called on the name of a host class, and refused there. -/
  | function (hostClass name : String) (args : List Value)

/-- What a watcher takes down. -/
inductive Note where
  | slip (slip : Slip)
  /-- An attribute starts to be computed; `again` tells that it is being computed already, in the
  same environment. -/
  | entered (env : Nat) (key : MemoKey) (again : Bool)
  /-- An attribute is computed, and the value is kept in the environment. -/
  | kept (env : Nat) (key : MemoKey) (value : Value)

/-- The world, and what a watcher knows. -/
structure Watch (σ : Type) where
  world : World σ
  /-- The attributes being computed, innermost first. -/
  stack : List Underway := []
  /-- What happened so far, in order. -/
  notes : List Note := []

namespace Watch

/-- The frames of the attributes being computed, outermost first. -/
def frames (x : Watch σ) : List Fault.Frame := (x.stack.map Underway.frame).reverse

/-- Whether an attribute is being computed in an environment. -/
def isUnderway (x : Watch σ) (env : Nat) (key : MemoKey) : Bool :=
  x.stack.any fun u ↦ u.env == env && decide (u.key = key)

end Watch

/-- Evaluations with a watcher. -/
abbrev Watched (σ : Type) := ExceptT Stop (StateM (Watch σ))

/-- Whether a call was refused. -/
def Stop.isBadCall : Stop → Bool
  | .fault ⟨.badCall _ _, _⟩ => true
  | _ => false

namespace Watch

/-- Takes something down. -/
def note (n : Note) : Watched σ Unit := modify fun x ↦ { x with notes := x.notes ++ [n] }

/-- Does a step that computes no attribute. A fault made by it is one of all attributes that are
being computed. -/
def step (m : Eval σ α) : Watched σ α := do
  let result ← modifyGet fun x ↦
    ((m.run.run x.world).1, { x with world := (m.run.run x.world).2 })
  match result with
  | .ok a => pure a
  | .error (.fault f) => throw (.fault ⟨f.cause, (← get).frames⟩)
  | .error stop => throw stop

/-- Starts to compute an attribute. -/
def enter (u : Underway) : Watched σ Unit :=
  modify fun x ↦ { x with
    stack := u :: x.stack
    notes := x.notes ++ [.entered u.env u.key (x.isUnderway u.env u.key)] }

/-- Is done with computing the innermost attribute. -/
def leave : Watched σ Unit := modify fun x ↦ { x with stack := x.stack.tail }

/-- Keeps the value of an attribute, if the environment is there. -/
def keep (env : Nat) (key : MemoKey) (v : Value) : Watched σ Unit := do
  step (Eval.store env key v)
  if env < (← get).world.envs.size then note (.kept env key v)

/-- The fault of an evaluation as a value in its place, with the frames of the attributes that are
being computed within it. -/
def safely (m : Watched σ Value) : Watched σ Value := do
  let outside := (← get).stack.length
  tryCatch m fun
    | .fault f => pure (Fault.toValue ⟨f.cause, f.frames.drop outside⟩)
    | stop => throw stop

/-- Computes an attribute while it is on the stack, and keeps the value. -/
def compute (env : Nat) (key : MemoKey) (frame : Fault.Frame) (body : Watched σ Value) :
    Watched σ Value := do
  step (Eval.record (.entered env key frame))
  enter ⟨env, key, frame⟩
  let v ← tryCatch body fun stop ↦ do
    step (Eval.record (.left env key none))
    leave
    throw stop
  keep env key v
  step (Eval.record (.left env key (some v)))
  leave
  return v

/-- Code runs with a watcher, who notes the names that are not found. -/
instance : Machine σ (Watched σ) where
  step := step
  attr s node name read := do
    if (s.library.slot? node name).isNone then note (.slip (.attribute node name))
    read
  unbound index := do
    note (.slip (.variable index))
    step (Eval.fail (.internal "comprehension variable out of scope"))
  function s hostClass name args :=
    tryCatch (step (s.callFunction hostClass name args)) fun stop ↦ do
      if stop.isBadCall then note (.slip (.function hostClass name args))
      throw stop
  safely := safely
  compute := compute

/-- Reads an attribute with a watcher. -/
abbrev readAttr (s : Setting σ) (depth : Nat) : Read (Watched σ) := readAttrIn (Watched σ) s depth

end Watch

/-- Answers a request with a watcher. -/
def Request.watch (e : Engine σ) (request : Request) : Watched σ request.Answer :=
  request.answerIn (Watched σ) e

end Formulary
