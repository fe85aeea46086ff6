import Formulary.Access
import Formulary.Evaluator
import Formulary.Proofs.EvalLaws
import Formulary.Proofs.Arranging

/-!
# Faults begin without frames

Operations on values know nothing of the attributes being computed: a fault that comes from an
operator, a method, an index or a whitelist has no frames yet. Nor does any of them blame the
evaluator. Only whitelists, and calls by name, can find that there is no such method.
-/

namespace Formulary

variable {α β : Type}

namespace Fault

/-- Whether the evaluator is to blame. -/
@[simp] def Cause.isInternal : Cause → Bool
  | internal _ => true
  | _ => false

/-- Whether there is no such method. -/
@[simp] def Cause.isMissingMethod : Cause → Bool
  | noSuchMethod _ _ => true
  | _ => false

/-- A fault that was just made, and not by the evaluator itself. -/
structure New (f : Fault) : Prop where
  frames : f.frames = []
  external : f.cause.isInternal = false

/-- A new fault that is not for want of a method. -/
structure Operational (f : Fault) : Prop extends f.New where
  known : f.cause.isMissingMethod = false

@[simp] theorem new_mk_iff {cause : Cause} : New ⟨cause, []⟩ ↔ cause.isInternal = false :=
  ⟨fun h ↦ h.external, fun h ↦ ⟨rfl, h⟩⟩

@[simp] theorem operational_mk_iff {cause : Cause} :
    Operational ⟨cause, []⟩ ↔ cause.isInternal = false ∧ cause.isMissingMethod = false :=
  ⟨fun h ↦ ⟨h.external, h.known⟩, fun h ↦ ⟨⟨rfl, h.1⟩, h.2⟩⟩

end Fault

/-- If a computation fails, its fault is of a kind. -/
def FailsOnly (kind : Fault → Prop) (x : Except Fault α) : Prop := ∀ f, x = .error f → kind f

section

variable {kind : Fault → Prop}

@[simp] theorem failsOnly_ok (a : α) : FailsOnly kind (.ok a) := fun f h ↦ by cases h

@[simp] theorem failsOnly_fail_iff {cause : Fault.Cause} :
    FailsOnly kind (Fault.fail cause : Except Fault α) ↔ kind ⟨cause, []⟩ := by
  constructor
  · intro h
    exact h _ rfl
  · intro h f failed
    cases failed
    exact h

theorem FailsOnly.bind {x : Except Fault α} {f : α → Except Fault β} (hx : FailsOnly kind x)
    (hf : ∀ a, FailsOnly kind (f a)) : FailsOnly kind (x >>= f) := by
  cases x with
  | ok a => exact hf a
  | error fault =>
    intro f h
    cases h
    exact hx fault rfl

@[simp] theorem FailsOnly.map {x : Except Fault α} (hx : FailsOnly kind x) (f : α → β) :
    FailsOnly kind (x.map f) := by
  cases x with
  | ok a => exact failsOnly_ok _
  | error fault =>
    intro f h
    cases h
    exact hx fault rfl

private theorem failsOnly_foldlM {f : β → α → Except Fault β} (hf : ∀ b a, FailsOnly kind (f b a))
    (items : List α) (b : β) : FailsOnly kind (items.foldlM f b) := by
  induction items generalizing b with
  | nil => exact failsOnly_ok b
  | cons a items ih =>
    rw [List.foldlM_cons]
    exact (hf b a).bind ih

end

/-- If a computation stops, it breaks off or has a fault of a kind. -/
def StopsOnly (kind : Fault → Prop) (x : Except Stop α) : Prop :=
  ∀ stop, x = .error stop → stop = .disorder ∨ ∃ f, stop = .fault f ∧ kind f

private theorem StopsOnly.of_failsOnly {kind : Fault → Prop} {x : Except Fault α}
    (h : FailsOnly kind x) : StopsOnly kind (x.mapError .fault) := by
  intro stop failed
  cases x with
  | ok a => cases failed
  | error fault =>
    cases failed
    exact .inr ⟨fault, rfl, h _ rfl⟩

/-- If a computation fails, its fault is new. -/
abbrev Fresh (x : Except Fault α) : Prop := FailsOnly Fault.New x

/-- If a computation fails, its fault is new and not for want of a method. -/
abbrev Operational (x : Except Fault α) : Prop := FailsOnly Fault.Operational x

theorem Operational.fresh {x : Except Fault α} (h : Operational x) : Fresh x :=
  fun f failed ↦ (h f failed).toNew

theorem fresh_fail {cause : Fault.Cause} (external : cause.isInternal = false) :
    Fresh (Fault.fail cause : Except Fault α) := by
  simpa using external

@[simp] theorem operational_mismatch (operation : String) (left : Value) (right : Option Value) :
    Operational (Fault.mismatch operation left right : Except Fault α) := by
  simp [Fault.mismatch]

/-! ### Operators -/

namespace Value

@[simp] theorem operational_exact (operation : String) (n : Int) :
    Operational (exact operation n) := by
  unfold exact
  split <;> simp

@[simp] theorem operational_quotient (a b : Int64) : Operational (quotient a b) := by
  unfold quotient
  repeat' split
  all_goals simp

@[simp] theorem operational_remainder (a b : Int64) : Operational (remainder a b) := by
  unfold remainder
  repeat' split
  all_goals simp

@[simp] theorem operational_intBinary (op : BinaryOp) (a b : Int64) :
    Operational (intBinary op a b) := by
  unfold intBinary
  split <;> simp

@[simp] theorem operational_floatBinary (op : BinaryOp) (a b : Binary64) (left right : Value) :
    Operational (floatBinary op a b left right) := by
  unfold floatBinary
  split <;> simp

@[simp] theorem operational_repetitions (n : Int64) (size : Nat) (left right : Value) :
    Operational (repetitions n size left right) := by
  unfold repetitions
  dsimp only
  split
  · simp
  · split
    · simp
    · split <;> simp

@[simp] theorem operational_listBinary (op : BinaryOp) (as bs : List Value) :
    Operational (listBinary op as bs) := by
  unfold listBinary
  split <;> simp

@[simp] theorem operational_setBinary (op : BinaryOp) (as bs : List Value) :
    Operational (setBinary op as bs) := by
  unfold setBinary
  split <;> simp

@[simp] theorem operational_order (operation : String) (left right : Value) :
    Operational (order operation left right) := by
  unfold order
  split
  · simp
  · simp
  · split
    · split <;> simp
    · simp

@[simp] theorem operational_combine (op : BinaryOp) (left right : Value) :
    Operational (combine op left right) := by
  unfold combine
  split
  · simp
  · split <;> simp
  · split <;> simp
  · simp
  · split <;> simp
  · simp
  · split <;> simp

theorem operational_binary (op : BinaryOp) (left right : Value) :
    Operational (binary op left right) := by
  unfold binary
  split <;> simp [comparison]

theorem operational_unary (op : UnaryOp) (v : Value) : Operational (unary op v) := by
  unfold unary
  split <;> simp

theorem operational_iterate (v : Value) : Operational v.iterate := by
  unfold iterate
  split <;> simp

end Value

theorem operational_bindItem (pair : Bool) (item : Value) : Operational (bindItem pair item) := by
  unfold bindItem
  split
  · split <;> simp
  · simp

theorem operational_spreadEntries (v : Value) : Operational (spreadEntries v) := by
  unfold spreadEntries
  split <;> simp

/-! ### Indices -/

@[simp] theorem operational_selection (type : String) (args : List Value) (length : Nat) :
    Operational (Selection.ofArgs type args length) := by
  unfold Selection.ofArgs
  split <;> simp

theorem operational_selectItems (list : Value) (args : List Value) :
    Operational (selectItems list args) := by
  simp [selectItems]

theorem operational_selectChars (text : Value) (args : List Value) :
    Operational (selectChars text args) := by
  simp [selectChars]

namespace Access

theorem operational_singleArg (receiver : Value) (args : List Value) :
    Operational (singleArg receiver args) := by
  unfold singleArg
  split <;> simp

theorem operational_nameArg (receiver : Value) (args : List Value) :
    Operational (nameArg receiver args) := by
  refine (operational_singleArg receiver args).bind fun key ↦ ?_
  split
  · exact failsOnly_ok _
  · simp

end Access

/-! ### Whitelists -/

private theorem Rule.fresh_checkArgs (method : String) (i : Nat) (specs : List ArgSpec)
    (args : List Value) : Fresh (checkArgs method i specs args) := by
  induction specs generalizing i args with
  | nil => exact failsOnly_ok ()
  | cons spec specs ih =>
    rw [checkArgs]
    split
    · exact ih _ _
    · simp

private theorem Rule.fresh_check (method : String) (rules : List Rule) (receiver : Value)
    (args : List Value) : Fresh (check method rules receiver args) := by
  unfold check
  split
  · simp
  · split
    · simp
    · exact fresh_checkArgs _ _ _ _

namespace Whitelist

private theorem fresh_resolveWithin (w : Whitelist) (lookups : Nat) (method : String) :
    Fresh (w.resolveWithin lookups method) := by
  induction lookups generalizing method with
  | zero => exact fresh_fail rfl
  | succ lookups ih =>
    rw [resolveWithin]
    split
    · simp
    · simp
    · exact ih _

theorem fresh_permit (w : Whitelist) (receiver : Value) (method : String) (args : List Value) :
    Fresh (w.permit receiver method args) :=
  (w.fresh_resolveWithin aliasLimit method).bind fun found ↦
    (Rule.fresh_check found.1 found.2 receiver args).bind fun _ ↦ failsOnly_ok _

end Whitelist

/-! ### Methods -/

namespace Method

/-- If a type has a method, the method does not fail for want of one. -/
def OperationalResult (r : Result) : Prop := ∀ x, r = some x → StopsOnly Fault.Operational x

@[simp] theorem operationalResult_none : OperationalResult none := fun x h ↦ by cases h

@[simp] theorem operationalResult_give (v : Value) : OperationalResult (give v) := by
  intro x h f failed
  cases h
  cases failed

@[simp] theorem operationalResult_attempt {x : Except Fault Value} (h : Operational x) :
    OperationalResult (attempt x) := by
  intro y hy
  cases hy
  exact StopsOnly.of_failsOnly h

@[simp] theorem operationalResult_testText (arg : Value) (holds : String → Bool) :
    OperationalResult (testText arg holds) := by
  unfold testText
  split <;> simp

@[simp] theorem operational_integerOf (x : Binary64) : Operational (integerOf x) := by
  unfold integerOf
  split
  · simp
  · split <;> simp

@[simp] theorem operationalResult_sort (items : List Value) :
    OperationalResult (some ((sortItems items).map .list)) := by
  intro x h f failed
  cases h
  cases result : sortItems items with
  | ok out =>
    rw [result] at failed
    cases failed
  | error stop =>
    rw [result] at failed
    cases failed
    refine (incomparable_of_arrange result).imp_right ?_
    rintro ⟨fault, same, i, j, compared⟩
    exact ⟨fault, same, Value.operational_order _ _ _ _ compared⟩

@[simp] theorem operational_extreme (operation : String) (beats : Ordering) (items : List Value) :
    Operational (extreme operation beats items) := by
  unfold extreme
  split
  · simp
  · refine failsOnly_foldlM (fun best y ↦ ?_) _ _
    exact (Value.operational_order _ _ _).bind fun _ ↦ failsOnly_ok _

@[simp] theorem operational_total (items : List Value) : Operational (total items) :=
  failsOnly_foldlM (Value.operational_binary .add) items _

@[simp] theorem operational_fetchItem (list : Value) (args : List Value) :
    Operational (fetchItem list args) := by
  unfold fetchItem
  dsimp only
  split <;> simp

@[simp] theorem operational_fetchEntry (map : Value) (args : List Value) :
    Operational (fetchEntry map args) := by
  unfold fetchEntry
  split <;> simp

theorem operationalResult_onReceiver (m : Method) (receiver : Value) (args : List Value) :
    OperationalResult (m.onReceiver receiver args) := by
  unfold onReceiver
  split
  · unfold onNil
    split <;> simp
  · unfold onInt
    split <;> simp
  · unfold onFloat
    split
    · simp
    · simp
    · split <;> simp
    · simp
    · simp
    · simp
    · simp
  · unfold onText
    split <;> simp
  · unfold onList
    split <;> simp
  · unfold onSet
    split <;> simp
  · unfold onMap
    split
    case h_6 => split <;> simp
    all_goals simp
  · simp

private theorem new_of_call {m : Method} {receiver : Value} {args : List Value} :
    StopsOnly Fault.New (m.call receiver args) := by
  unfold call
  split
  · intro f h
    cases h
  · split
    · next result found =>
      intro stop h
      refine (operationalResult_onReceiver m receiver args result found stop h).imp_right ?_
      exact fun ⟨f, same, operational⟩ ↦ ⟨f, same, operational.toNew⟩
    · exact .of_failsOnly (fresh_fail rfl)

end Method

theorem Value.new_of_send (receiver : Value) (method : String) (args : List Value) :
    StopsOnly Fault.New (receiver.send method args) := by
  unfold send
  split
  · exact Method.new_of_call
  · exact .of_failsOnly (fresh_fail rfl)

/-! ### Calls -/

namespace Setting

variable {σ : Type} {s : Setting σ} {args : List Value} {Q : Eval σ Value → Prop}
  (fault : ∀ f : Fault, f.New → Q (throw (.fault f)))
include fault

/-- What holds of failing and of host code holds of a call of a function. -/
theorem callFunction_of (hostClass function : String)
    (ran : ∀ c f, s.host.class? hostClass = some c → c.function? function = some f →
      Q (do Eval.record (.function hostClass function args); Eval.ofHost (c.call function args))) :
    Q (s.callFunction hostClass function args) := by
  unfold callFunction
  split
  · exact fault _ ⟨rfl, rfl⟩
  · next f found =>
    obtain ⟨c, hc, hf⟩ := Option.bind_eq_some_iff.mp found
    split
    · have run : Q (do
          Eval.record (.function hostClass function args)
          Eval.ofHost (c.call function args)) := ran c f hc hf
      rw [HostClass.call, hf] at run
      exact run
    · exact fault _ ⟨rfl, rfl⟩

/-- What holds of failing, of functions, of host code and of built-in methods holds of a call of a
method. -/
theorem callMethod_of {receiver : Value} (home : Nat) (name : String)
    (function : ∀ c, Q (s.callFunction c name args)) (invoked : ∀ handle target, Q (do
      Eval.record (.method home receiver target args)
      Eval.ofHost (s.host.invoke handle target args)))
    (sent : ∀ target, Q (do
      Eval.record (.method home receiver target args)
      Eval.ofOutcome (s.builtIns receiver target args))) :
    Q (s.callMethod home receiver name args) := by
  unfold callMethod
  split
  · exact function _
  · exact fault _ ⟨rfl, rfl⟩
  · cases permitted : (s.whitelistOf home).permit receiver name args with
    | error f => exact fault f (Whitelist.fresh_permit _ _ _ _ f permitted)
    | ok target =>
      cases receiver with
      | foreign handle types => exact invoked handle target
      | _ => exact sent target

end Setting

end Formulary
