import Formulary.Proofs.Bulk
import Formulary.Proofs.Congruence

/-!
# Requests

What can be asked of an engine, and how it is answered in any monad that code can run in. A property
of reading attributes that is kept when evaluations are put together is one of answering whatever is
asked (`Congruence.holds_answer`).
-/

namespace Formulary

/-- What can be asked of an engine from outside: attributes of its nodes, of a node of any module,
or of a node call that an earlier answer contains. -/
inductive Request where
  | evaluate (node attr : String) (params : List (Value × Value))
  | evaluateMany (node : String) (attrs : List String) (params : List (Value × Value))
  | evaluateNode (node : NodeRef) (attrs : List String) (params : List (Value × Value))
  | evaluateEntries (node : String) (attrs : List String) (params : List (Value × Value))
  | attr (env : Nat) (node : NodeRef) (attr : String)
  | strict (env : Nat) (node : NodeRef) (names : Value)
  | safe (env : Nat) (node : NodeRef) (names : Value)
  | entries (env : Nat) (node : NodeRef) (attrs : List String)

namespace Request

/-- The answer to a request. -/
def Answer : Request → Type
  | .evaluate _ _ _ | .attr _ _ _ | .strict _ _ _ | .safe _ _ _ => Value
  | .evaluateMany _ _ _ | .evaluateNode _ _ _ => List Value
  | .evaluateEntries _ _ _ => List (String × Value)
  | .entries _ _ _ => List (Value × Value)

/-- Answers a request. -/
def answer {σ : Type} (e : Engine σ) : (request : Request) → Eval σ request.Answer
  | .evaluate node name params => e.evaluate node name params
  | .evaluateMany node attrs params => e.evaluateMany node attrs params
  | .evaluateNode node attrs params => e.evaluateNode node attrs params
  | .evaluateEntries node attrs params => e.evaluateEntries node attrs params
  | .attr env node name => e.readCall env node name
  | .strict env node names => NodeCall.strict (e.readCall env node) names
  | .safe env node names => NodeCall.safe (e.readCall env node) names
  | .entries env node attrs => NodeCall.entries (e.readCall env node) attrs

section

variable {σ : Type} (m : Type → Type) [Monad m] [Machine σ m] (e : Engine σ)

/-- An attribute of a node call, read in some monad. -/
def callIn (env : Nat) (node : NodeRef) : String → m Value :=
  readAttrIn m e.setting e.depth [env] env node

/-- The attributes of a node in a new environment. -/
def nodeIn (node : NodeRef) (attrs : List String) (params : List (Value × Value)) :
    m (List Value) := do
  let env ← Machine.step (Eval.newEnv params)
  attrs.mapM fun attr ↦ readAttrIn m e.setting e.depth [] env node attr

/-- Answers a request in some monad. -/
def answerIn : (request : Request) → m request.Answer
  | .evaluate node name params => do
    let node ← Machine.step (Eval.ofExcept (e.node node))
    let env ← Machine.step (Eval.newEnv params)
    readAttrIn m e.setting e.depth [] env node name
  | .evaluateMany node attrs params => do
    let node ← Machine.step (Eval.ofExcept (e.node node))
    nodeIn m e node attrs params
  | .evaluateNode node attrs params => nodeIn m e node attrs params
  | .evaluateEntries node attrs params => do
    let node ← Machine.step (Eval.ofExcept (e.node node))
    let values ← nodeIn m e node attrs params
    return Indexed.ofEntries (attrs.zip values)
  | .attr env node name => callIn m e env node name
  | .strict env node names => NodeCall.strict (callIn m e env node) names
  | .safe env node names => NodeCall.safe (callIn m e env node) names
  | .entries env node attrs => NodeCall.entries (callIn m e env node) attrs

/-- An engine answers by evaluation. -/
theorem answerIn_eval (request : Request) : request.answerIn (Eval σ) e = request.answer e := by
  cases request with
  | evaluateEntries node attrs params =>
    simp only [answer, Engine.evaluateEntries, Engine.evaluateMany, bind_assoc]
    rfl
  | _ => rfl

end

/-- The nodes and values that a request names are of some kind. -/
def Among (good : Value → Prop) : Request → Prop
  | .evaluate _ _ params | .evaluateMany _ _ params | .evaluateEntries _ _ params =>
    good (.map params)
  | .evaluateNode node _ params => good (.node node) ∧ good (.map params)
  | .attr _ node _ | .entries _ node _ => good (.node node)
  | .strict _ node names | .safe _ node names => good (.node node) ∧ good names

/-- The values in an answer are of some kind. -/
def AnswersAmong (good : Value → Prop) : (request : Request) → request.Answer → Prop
  | .evaluate _ _ _ | .attr _ _ _ | .strict _ _ _ | .safe _ _ _ => good
  | .evaluateMany _ _ _ | .evaluateNode _ _ _ => fun values : List Value ↦ ∀ v ∈ values, good v
  | .evaluateEntries _ _ _ => fun entries ↦ good (.map (keyed entries))
  | .entries _ _ _ => fun entries ↦ good (.map entries)

theorem among_true (request : Request) : request.Among fun _ ↦ True := by
  cases request <;> simp [Among]

end Request

variable {σ ι : Type}

theorem Engine.fresh_node (e : Engine σ) (name : String) : Fresh (e.node name) := by
  unfold Engine.node
  split
  · exact failsOnly_ok _
  · exact fresh_fail rfl

variable {m : ι → Type → Type} [∀ i, Monad (m i)] [∀ i, Machine σ (m i)]
  [∀ i, LawfulMachine σ (m i)]

/-- A property of reading attributes and of making environments is one of answering requests, by
engines of the same module. -/
theorem Congruence.holds_answer (C : Congruence σ m) {good : Value → Prop}
    (keep : OperationsKeep good) (str : ∀ text, good (.str text)) {e : ι → Engine σ}
    {node : String → Except Fault NodeRef} (same : ∀ i, (e i).node = node)
    (fresh : ∀ name, Fresh (node name)) (own : ∀ {name ref}, node name = .ok ref → good (.node ref))
    (newEnv : ∀ {params}, good (.map params) →
      C.Holds (fun _ ↦ True) fun _ ↦ Machine.step (Eval.newEnv params))
    (reads : ∀ held env ref attr, good (.node ref) → C.Holds good fun i ↦
      readAttrIn (m i) (e i).setting (e i).depth held env ref attr)
    (safely : ∀ {x}, C.Holds good x → C.Holds good fun i ↦ Machine.safely (x i))
    {request : Request} (among : request.Among good) :
    C.Holds (request.AnswersAmong good) fun i ↦ request.answerIn (m i) (e i) := by
  have found : ∀ name, C.Holds (fun ref ↦ good (.node ref))
      fun i ↦ Machine.step (Eval.ofExcept ((e i).node name)) := by
    intro name
    simp only [same]
    exact C.holds_ofExcept (fresh name) fun ref hr ↦ own hr
  have onNode : ∀ {ref params} attrs, good (.node ref) → good (.map params) →
      C.Holds (fun vs ↦ ∀ v ∈ vs, good v) fun i ↦ Request.nodeIn (m i) (e i) ref attrs params :=
    fun attrs hr hp ↦ C.holds_bind (newEnv hp) fun env _ ↦
      C.holds_mapM attrs fun attr _ ↦ reads [] env _ attr hr
  cases request with
  | evaluate name attr params =>
    exact C.holds_bind (found name) fun ref hr ↦ C.holds_bind (newEnv among) fun env _ ↦
      reads [] env ref attr hr
  | evaluateMany name attrs params =>
    exact C.holds_bind (found name) fun ref hr ↦ onNode attrs hr among
  | evaluateNode ref attrs params => exact onNode attrs among.1 among.2
  | evaluateEntries name attrs params =>
    refine C.holds_bind (found name) fun ref hr ↦
      C.holds_map (onNode attrs hr among) _ fun values hv ↦ ?_
    change good (.map (keyed (Indexed.ofEntries (attrs.zip values))))
    rw [Indexed.ofEntries_eq, ← ofEntries_keyed]
    refine keep.map fun entry he ↦ ?_
    obtain ⟨hname, hvalue⟩ := List.of_mem_zip he
    obtain ⟨attr, -, same⟩ := List.mem_map.mp hname
    exact ⟨same ▸ str attr, hv _ hvalue⟩
  | attr env ref name => exact reads [env] env ref name among
  | strict env ref names =>
    exact C.holds_strict keep (fun attr ↦ reads [env] env ref attr among.1) among.2
  | safe env ref names =>
    exact C.holds_safe keep (fun attr ↦ safely (reads [env] env ref attr among.1)) among.2
  | entries env ref attrs =>
    have read : C.Holds (fun es ↦ ∀ e ∈ es, BothOf good e) fun i ↦
        attrs.mapM fun attr ↦ do
          return (Value.str attr, ← Request.callIn (m i) (e i) env ref attr) :=
      C.holds_mapM attrs fun attr _ ↦
        C.holds_map (reads [env] env ref attr among) _ fun v hv ↦ ⟨str attr, hv⟩
    exact C.holds_map read _ fun es hes ↦ keep.map hes

end Formulary
