import Formulary.Proofs.Fresh
import Mathlib.Data.List.Basic

/-!
# Evaluations put together from others

The same code is run in several ways at once, which may differ in the monad, in the setting, in how
they read attributes, in the environment and in the node. If a property of such families of
evaluations is kept when these are put together (`Congruence`), if it holds of reading and of
calling the host (`Congruence.Core`), and if the operations on values stay among the values in
question (`OperationsKeep`), then it holds of running any code (`Congruence.Core.run`). One way of
running code gives invariants of evaluation, two ways give simulations. A parameter is computed from
what is given for its name as well (`Congruence.Base`).
-/

namespace Formulary

/-- A monad in which steps without an effect have none, and the fault of a step is the value put in
its place. -/
class LawfulMachine (σ : outParam Type) (m : Type → Type) [Monad m] [Machine σ m] : Prop
    extends LawfulMonad m where
  step_pure : ∀ {α : Type} (a : α), (Machine.step (pure a) : m α) = pure a
  safely_fault : ∀ {f : Fault}, f.New →
    (Machine.safely (Machine.step (throw (.fault f))) : m Value) = pure f.toValue

instance {σ : Type} : LawfulMachine σ (Eval σ) where
  step_pure _ := rfl
  safely_fault _ := rfl

variable {σ ι : Type} {m : ι → Type → Type} [∀ i, Monad (m i)] [∀ i, Machine σ (m i)]
  [∀ i, LawfulMachine σ (m i)]

/-! ### Parts of code -/

/-- The codes of an entry. -/
def Entry.codes : Entry Code Code → List Code
  | .pair k v => [k, v]
  | .spread c => [c]

/-- The codes that a comprehension yields. -/
def Yield.codes : Yield Code → List Code
  | .list c | .set c => [c]
  | .map k v => [k, v]

namespace Code

/-- The codes that a code is made of. -/
def parts : Code → List Code
  | const _ | attr _ | var _ | params | node _ | hostClass _ => []
  | unary _ a => [a]
  | binary _ a b => [a, b]
  | cond test positive negative => [test, positive, negative]
  | getAttr receiver _ => [receiver]
  | index receiver args | method receiver _ args => receiver :: args
  | function _ _ args | raise args | list args | set args => args
  | call target args => target :: args.flatMap Entry.codes
  | map entries => entries.flatMap Entry.codes
  | comprehension yield _ source filter => source :: yield.codes ++ filter.toList

/-- The codes that a code is made of, each with the number of variables that it binds there. -/
def boundParts : Code → List (Nat × Code)
  | comprehension yield pair source filter =>
    (0, source) :: (yield.codes ++ filter.toList).map (Prod.mk (if pair then 2 else 1))
  | code => code.parts.map (Prod.mk 0)

theorem mem_parts_of_mem_boundParts {code c : Code} {k : Nat} (h : (k, c) ∈ code.boundParts) :
    c ∈ code.parts := by
  have whole : code.boundParts.map Prod.snd = code.parts := by
    cases code <;> simp [boundParts, parts, Function.comp_def]
  exact whole ▸ List.mem_map_of_mem h

/-- A code stands somewhere in another one. -/
inductive Within (c : Code) : Code → Prop where
  | here : Within c c
  | part {code d : Code} (h : d ∈ code.parts) (rest : Within c d) : Within c code

/-- Every code that stands in a code, itself included, is of some kind. -/
def Every (p : Code → Prop) (code : Code) : Prop := ∀ c, c.Within code → p c

variable {p : Code → Prop} {code c : Code}

theorem Every.self (h : code.Every p) : p code := h code .here

theorem Every.part (h : code.Every p) (hc : c ∈ code.parts) : c.Every p :=
  fun d hd ↦ h d (.part hc hd)

theorem Every.boundPart {k : Nat} (h : code.Every p) (hc : (k, c) ∈ code.boundParts) : c.Every p :=
  h.part (mem_parts_of_mem_boundParts hc)

theorem every_iff : code.Every p ↔ p code ∧ code.parts.Forall (Every p) := by
  rw [List.forall_iff_forall_mem]
  constructor
  · intro h
    exact ⟨h.self, fun c hc ↦ h.part hc⟩
  · rintro ⟨self, parts⟩ d hd
    cases hd with
    | here => exact self
    | part hc rest => exact parts _ hc d rest

end Code

/-- The code of a member. -/
def Body.code? : Body → Option Code
  | .formula code => some code
  | .param default => default

/-! ### Properties and values -/

/-- A property of families of evaluations that is kept when they are put together. `Holds P m`
speaks of results that satisfy `P`. -/
structure Congruence (σ : Type) {ι : Type} (m : ι → Type → Type) [∀ i, Monad (m i)]
    [∀ i, Machine σ (m i)] [∀ i, LawfulMachine σ (m i)] where
  Holds : {α : Type} → (α → Prop) → ((i : ι) → m i α) → Prop
  holds_pure : ∀ {α : Type} {P : α → Prop} {a : α}, P a → Holds P fun _ ↦ pure a
  holds_fault : ∀ {α : Type} {P : α → Prop} {f : Fault}, f.New →
    Holds P fun _ ↦ Machine.step (throw (.fault f))
  holds_bind : ∀ {α β : Type} {P : α → Prop} {Q : β → Prop} {x : (i : ι) → m i α}
    {f : (i : ι) → α → m i β}, Holds P x → (∀ a, P a → Holds Q fun i ↦ f i a) →
      Holds Q fun i ↦ x i >>= f i

/-- Key and value of an entry. -/
def BothOf (good : Value → Prop) (e : Value × Value) : Prop := good e.1 ∧ good e.2

/-- The operations of formulas lead from values of some kind to values of that kind. -/
structure OperationsKeep (good : Value → Prop) : Prop where
  nil : good .nil
  hostClass : ∀ name, good (.hostClass name)
  fault : ∀ f : Fault, good f.toValue
  list : ∀ {items}, (∀ v ∈ items, good v) → good (.list items)
  set : ∀ {items}, (∀ v ∈ items, good v) → good (.set (Indexed.ofElements items))
  map : ∀ {entries}, (∀ e ∈ entries, BothOf good e) → good (.map (Indexed.ofEntries entries))
  unary : ∀ {op a v}, good a → Value.unary op a = .ok v → good v
  binary : ∀ {op a b v}, good a → good b → Value.binary op a b = .ok v → good v
  lookup : ∀ {a key v}, good a → a.lookup? key = some v → good v
  field : ∀ {a name v}, good a → a.field? name = some v → good v
  selectItems : ∀ {a args v}, good a → selectItems a args = .ok v → good v
  selectChars : ∀ {a args v}, good a → selectChars a args = .ok v → good v
  iterate : ∀ {a items}, good a → a.iterate = .ok items → ∀ v ∈ items, good v
  bindItem : ∀ {pair a vars}, good a → bindItem pair a = .ok vars → ∀ v ∈ vars, good v
  spread : ∀ {a entries}, good a → spreadEntries a = .ok entries → ∀ e ∈ entries, BothOf good e

theorem operationsKeep_true : OperationsKeep fun _ ↦ True := by
  constructor <;> simp [BothOf]

/-- Several ways to run code that is written in one module, apart from the settings. -/
structure Views (m : ι → Type → Type) where
  env : ι → Nat
  held : ι → List Nat
  node : ι → NodeRef
  read : (i : ι) → Read (m i)
  home : Nat
  homeName : String

/-- Where the code runs in one of the ways. -/
def Views.context (v : Views m) (i : ι) : Context :=
  ⟨v.env i, v.held i, v.node i, v.home, v.homeName⟩

/-- Code at one place, run with several ways to read attributes. -/
def Views.ofContext (cx : Context) (read : (i : ι) → Read (m i)) : Views m :=
  ⟨fun _ ↦ cx.env, fun _ ↦ cx.held, fun _ ↦ cx.node, read, cx.home, cx.homeName⟩

/-- How code reads an attribute of a node in one of the ways. -/
def Views.ofNode (v : Views m) (i : ι) : NodeRef → String → m i Value :=
  v.read i (v.held i) (v.env i)

/-- How code reads an attribute of a call in one of the ways. -/
def Views.ofCall (v : Views m) (i : ι) :
    Nat → NodeRef → List (Value × Value) → String → m i Value :=
  NodeCall.attr (v.read i) (v.held i)

/-- A property holds of what code does beyond computing: reading attributes, looking at parameters,
calling the host and making node calls. `p` says which codes there are, where so many variables are
bound. -/
structure Congruence.Core (C : Congruence σ m) (good : Value → Prop) (s : ι → Setting σ)
    (p : Nat → Code → Prop) (v : Views m) : Prop where
  part : ∀ {n k code c}, p n code → (k, c) ∈ code.boundParts → p (n + k) c
  const : ∀ {n value}, p n (.const value) → good value
  node : ∀ {n target}, p n (.node target) → good (.node (target.ref v.home v.homeName))
  attr : ∀ {n name}, p n (.attr name) →
    C.Holds good fun i ↦ Machine.attr (s i) (v.node i) name (v.ofNode i (v.node i) name)
  unbound : ∀ {n index}, p n (.var index) → n ≤ index →
    C.Holds good fun _ ↦ Machine.unbound index
  readNode : ∀ {ref} name, good (.node ref) → C.Holds good fun i ↦ v.ofNode i ref name
  readCall : ∀ {env ref params} name, good (.call env ref params) →
    C.Holds good fun i ↦ v.ofCall i env ref params name
  safely : ∀ {env ref params} name, good (.call env ref params) →
    C.Holds good fun i ↦ Machine.safely (v.ofCall i env ref params name)
  amend : ∀ {env ref params extra}, good (.call env ref params) → good (.map extra) →
    C.Holds good fun _ ↦ Machine.step (NodeCall.amend ref params extra)
  call : ∀ {n target args value entries}, p n (.call target args) → good value →
    (∀ e ∈ entries, BothOf good e) → C.Holds good fun i ↦
      Machine.step (NodeCall.apply (v.node i) value (Indexed.ofEntries entries))
  params : C.Holds (fun entries ↦ good (.map entries))
    fun i ↦ Machine.step (Eval.visibleParams (v.env i))
  method : ∀ {receiver args} name, good receiver → (∀ a ∈ args, good a) →
    C.Holds good fun i ↦ Machine.step ((s i).callMethod v.home receiver name args)
  attrMethod : ∀ {receiver} name, good receiver →
    C.Holds good fun i ↦ Machine.step (tryCatch ((s i).callMethod v.home receiver name [])
      fun stop ↦ throw (Access.asAttribute receiver name stop))
  function : ∀ {n hostClass name codes args}, p n (.function hostClass name codes) →
    args.length = codes.length → (∀ a ∈ args, good a) →
    C.Holds good fun i ↦ Machine.function (s i) hostClass name args

/-- A property holds of what members do beyond computing, whatever their names are. -/
structure Congruence.Base (C : Congruence σ m) (good : Value → Prop) (s : ι → Setting σ)
    (p : Nat → Code → Prop) (v : Views m) : Prop extends C.Core good s p v where
  param : ∀ name, C.Holds (fun given ↦ ∀ value, given = some value → good value)
    fun i ↦ Machine.step (Eval.param? (v.env i) name)

namespace Congruence

variable (C : Congruence σ m) {α β : Type} {P : α → Prop} {Q : β → Prop}

theorem holds_ofExcept {x : Except Fault α} (fresh : Fresh x) (h : ∀ a, x = .ok a → P a) :
    C.Holds P fun _ ↦ Machine.step (Eval.ofExcept x) := by
  cases x with
  | ok a =>
    simp only [Eval.ofExcept_ok, LawfulMachine.step_pure]
    exact C.holds_pure (h a rfl)
  | error f => exact C.holds_fault (fresh f rfl)

private theorem holds_mismatch (operation : String) (left : Value) (right : Option Value) :
    C.Holds P fun _ ↦ Machine.step (Eval.ofExcept (Fault.mismatch operation left right)) :=
  C.holds_ofExcept (operational_mismatch _ _ _).fresh fun _ h ↦ by cases h

private theorem holds_fail {cause : Fault.Cause} (external : cause.isInternal = false) :
    C.Holds P fun _ ↦ Machine.step (Eval.fail cause) :=
  C.holds_fault ⟨rfl, external⟩

theorem holds_map {x : (i : ι) → m i α} (h : C.Holds P x) (f : α → β)
    (hf : ∀ a, P a → Q (f a)) : C.Holds Q fun i ↦ do return f (← x i) :=
  C.holds_bind h fun a ha ↦ C.holds_pure (hf a ha)

theorem holds_mapM {f : (i : ι) → α → m i β} (items : List α)
    (h : ∀ a ∈ items, C.Holds Q fun i ↦ f i a) :
    C.Holds (fun results ↦ ∀ b ∈ results, Q b) fun i ↦ items.mapM (f i) := by
  induction items with
  | nil => exact C.holds_pure fun b hb ↦ by cases hb
  | cons a items ih =>
    simp only [List.mapM_cons]
    refine C.holds_bind (h a List.mem_cons_self) fun b hb ↦ ?_
    refine C.holds_bind (ih fun a ha ↦ h a (List.mem_cons_of_mem _ ha)) fun bs hbs ↦ ?_
    exact C.holds_pure (List.forall_mem_cons.mpr ⟨hb, hbs⟩)

/-- A property of reading an attribute of a call follows from that of reading it in the call's own
environment and in new ones. A call must hold its environment in all the ways or in none. -/
theorem holds_attr {read : (i : ι) → Read (m i)} {held : ι → List Nat} {env : Nat} {ref : NodeRef}
    {params : List (Value × Value)} {name : String} {P : Value → Prop}
    (alike : ∀ i j, env ∈ held i → env ∈ held j)
    (made : C.Holds (fun _ ↦ True) fun _ ↦ Machine.step (Eval.newEnv params))
    (busy : ∀ env, C.Holds P fun i ↦ read i (held i) env ref name)
    (free : C.Holds P fun i ↦ read i (env :: held i) env ref name) :
    C.Holds P fun i ↦ NodeCall.attr (read i) (held i) env ref params name := by
  by_cases some : ∃ i, env ∈ held i
  · obtain ⟨i, inside⟩ := some
    have all : ∀ j, env ∈ held j := fun j ↦ alike i j inside
    simp only [NodeCall.attr, all, if_true]
    exact C.holds_bind made fun env _ ↦ busy env
  · have outside : ∀ i, env ∉ held i := fun i inside ↦ some ⟨i, inside⟩
    simp only [NodeCall.attr, outside, if_false]
    exact free

/-- As many variables are bound as a comprehension has. -/
theorem length_of_bindItem {pair : Bool} {item : Value} {bound : List Value}
    (h : bindItem pair item = .ok bound) : bound.length = if pair then 2 else 1 := by
  unfold bindItem at h
  split at h
  · next yes =>
    rw [if_pos yes]
    split at h
    · cases h
      rfl
    · cases h
  · next no =>
    rw [if_neg no]
    cases h
    rfl

/-- A property of what a comprehension does for one item is one of the comprehension. -/
theorem holds_collect {good : Value → Prop} (keep : OperationsKeep good) (pair : Bool)
    {vars items : List Value} {filter : (i : ι) → List Value → m i Bool}
    {body : (i : ι) → List Value → m i β} (hitems : ∀ v ∈ items, good v)
    (hvars : ∀ v ∈ vars, good v)
    (hfilter : ∀ bound : List Value, bound.length = (if pair then 2 else 1) →
      (∀ v ∈ bound ++ vars, good v) → C.Holds (fun _ ↦ True) fun i ↦ filter i (bound ++ vars))
    (hbody : ∀ bound : List Value, bound.length = (if pair then 2 else 1) →
      (∀ v ∈ bound ++ vars, good v) → C.Holds Q fun i ↦ body i (bound ++ vars)) :
    C.Holds (fun results ↦ ∀ b ∈ results, Q b)
      fun i ↦ collect pair vars items (filter i) (body i) := by
  induction items with
  | nil => exact C.holds_pure fun b hb ↦ by cases hb
  | cons item items ih =>
    have rest := ih fun v hv ↦ hitems v (List.mem_cons_of_mem _ hv)
    simp only [collect_cons]
    refine C.holds_bind (P := fun bound ↦ bound.length = (if pair then 2 else 1) ∧
      ∀ v ∈ bound, good v) (C.holds_ofExcept (operational_bindItem pair item).fresh
        fun bound hbound ↦ ⟨length_of_bindItem hbound,
          keep.bindItem (hitems item List.mem_cons_self) hbound⟩) ?_
    rintro bound ⟨length, hbound⟩
    have here : ∀ v ∈ bound ++ vars, good v :=
      List.forall_mem_append.mpr ⟨hbound, hvars⟩
    refine C.holds_bind (hfilter bound length here) fun passes _ ↦ ?_
    cases passes with
    | false => exact rest
    | true =>
      refine C.holds_bind (hbody bound length here) fun b hb ↦ ?_
      refine C.holds_bind rest fun bs hbs ↦ ?_
      exact C.holds_pure (List.forall_mem_cons.mpr ⟨hb, hbs⟩)

/-! ### Operations on node calls, attributes and indices -/

section

variable {good : Value → Prop} {read : (i : ι) → String → m i Value}

theorem holds_strict (keep : OperationsKeep good)
    (hread : ∀ attr, C.Holds good fun i ↦ read i attr) {names : Value} (hn : good names) :
    C.Holds good fun i ↦ NodeCall.strict (read i) names := by
  unfold NodeCall.strict
  split
  · next names =>
    have entries : C.Holds (fun es ↦ ∀ e ∈ es, BothOf good e)
        fun i ↦ NodeCall.readAll (read i) names := by
      refine C.holds_mapM names fun name hname ↦ ?_
      have hgood : good name := keep.iterate hn rfl name hname
      split
      · next attr => exact C.holds_map (hread attr) _ fun v hv ↦ ⟨hgood, hv⟩
      · exact C.holds_mismatch _ _ _
    exact C.holds_map entries _ fun es hes ↦ keep.map hes
  · exact C.holds_mismatch _ _ _

private theorem holds_readSafely (keep : OperationsKeep good)
    (hread : ∀ attr, C.Holds good fun i ↦ Machine.safely (read i attr)) (name : Value) :
    C.Holds good fun i ↦ NodeCall.readSafely (read i) name := by
  unfold NodeCall.readSafely
  split
  · next attr => exact hread attr
  · have made : Fault.New ⟨.typeMismatch "/" name.typeName none, []⟩ := ⟨rfl, rfl⟩
    have caught := C.holds_pure (keep.fault ⟨.typeMismatch "/" name.typeName none, []⟩)
    simp only [← LawfulMachine.safely_fault made] at caught
    exact caught

theorem holds_safe (keep : OperationsKeep good)
    (hread : ∀ attr, C.Holds good fun i ↦ Machine.safely (read i attr)) {names : Value}
    (hn : good names) : C.Holds good fun i ↦ NodeCall.safe (read i) names := by
  unfold NodeCall.safe
  split
  · next names =>
    have entries : C.Holds (fun es ↦ ∀ e ∈ es, BothOf good e) fun i ↦
        names.mapM fun name ↦ do return (name, ← NodeCall.readSafely (read i) name) :=
      C.holds_mapM names fun name hname ↦
        C.holds_map (C.holds_readSafely keep hread name) _ fun v hv ↦
          ⟨keep.iterate hn rfl name hname, hv⟩
    exact C.holds_map entries _ fun es hes ↦ keep.map hes
  · exact C.holds_readSafely keep hread names

end

namespace Core

variable {C} {good : Value → Prop} {s : ι → Setting σ} {p : Nat → Code → Prop} {v : Views m}

/-- A part of a code that binds no variables. -/
theorem inside (base : C.Core good s p v) {n : Nat} {code c : Code} (h : p n code)
    (same : code.boundParts = code.parts.map (Prod.mk 0)) (hc : c ∈ code.parts) : p n c :=
  base.part (k := 0) h (same ▸ List.mem_map_of_mem hc)

theorem applyBinary (base : C.Core good s p v) (keep : OperationsKeep good) (op : BinaryOp)
    {a b : Value} (ha : good a) (hb : good b) :
    C.Holds good fun i ↦ applyBinary (v.read i) (v.held i) op a b := by
  unfold Formulary.applyBinary
  split
  · exact C.holds_safe keep (fun attr ↦ base.safely attr ha) hb
  · exact C.holds_strict keep (fun attr ↦ base.readCall attr ha) hb
  · exact base.amend ha hb
  · exact C.holds_ofExcept (Value.operational_binary _ _ _).fresh fun v hv ↦ keep.binary ha hb hv

theorem getAttr (base : C.Core good s p v) (keep : OperationsKeep good) {receiver : Value}
    (h : good receiver) (attr : String) :
    C.Holds good fun i ↦ Access.getAttr (s i) (v.read i) (v.context i) receiver attr := by
  have orNil : ∀ {found : Option Value}, (∀ v, found = some v → good v) →
      C.Holds good fun _ ↦ pure (found.getD .nil) := by
    intro found hfound
    cases found with
    | none => exact C.holds_pure keep.nil
    | some v => exact C.holds_pure (hfound v rfl)
  unfold Access.getAttr
  split
  · exact C.holds_pure keep.nil
  · exact orNil fun v hv ↦ keep.lookup h (hv.symm.trans (Value.lookupText?_eq _ attr)).symm
  · exact base.readCall attr h
  · exact base.readNode attr h
  · exact orNil fun v hv ↦ keep.field h hv
  · exact base.attrMethod attr h

theorem index (base : C.Core good s p v) (keep : OperationsKeep good) {receiver : Value}
    (h : good receiver) (args : List Value) :
    C.Holds good fun i ↦ Access.index (s i) (v.read i) (v.context i) receiver args := by
  have named : C.Holds good fun i ↦ (do
      let name ← Machine.step (Eval.ofExcept (Access.nameArg receiver args))
      Access.getAttr (s i) (v.read i) (v.context i) receiver name) :=
    C.holds_bind (C.holds_ofExcept (Access.operational_nameArg _ _).fresh fun _ _ ↦ trivial)
      fun name _ ↦ base.getAttr keep h name
  cases receiver with
  | nil => exact C.holds_pure keep.nil
  | map entries =>
    refine C.holds_bind (C.holds_ofExcept (Access.operational_singleArg _ _).fresh
      fun _ _ ↦ trivial) fun key _ ↦ ?_
    cases found : (Value.map entries).lookup? key with
    | none => exact C.holds_pure keep.nil
    | some v => exact C.holds_pure (keep.lookup h found)
  | call env ref params | node ref | record type fields => exact named
  | list items => exact C.holds_ofExcept (operational_selectItems _ _).fresh fun v hv ↦
      keep.selectItems h hv
  | str text => exact C.holds_ofExcept (operational_selectChars _ _).fresh fun v hv ↦
      keep.selectChars h hv
  | _ => exact C.holds_fail rfl

/-! ### Code -/

/-- A binary operation on what two codes compute, other than the two that may skip the second. -/
theorem operands (base : C.Core good s p v) (keep : OperationsKeep good) (op : BinaryOp)
    {a b : (i : ι) → m i Value} (ha : C.Holds good a) (hb : C.Holds good b) :
    C.Holds good fun i ↦ (do
      let a ← a i
      let b ← b i
      Formulary.applyBinary (v.read i) (v.held i) op a b) :=
  C.holds_bind ha fun _ ha ↦ C.holds_bind hb fun _ hb ↦ base.applyBinary keep op ha hb

mutual

/-- A property of reading and of calling the host is one of running code. -/
theorem run (base : C.Core good s p v) (keep : OperationsKeep good)
    (vars : List Value) (hvars : ∀ v ∈ vars, good v) : ∀ code : Code, p vars.length code →
    C.Holds good fun i ↦ run (s i) (v.read i) (v.context i) vars code
  | .const v, h => by
    simp only [Formulary.run]
    exact C.holds_pure (base.const h)
  | .attr name, h => by
    simp only [Formulary.run]
    exact base.attr h
  | .var i, h => by
    simp only [Formulary.run]
    cases found : vars[i]? with
    | none => exact base.unbound h (List.getElem?_eq_none_iff.mp found)
    | some v => exact C.holds_pure (hvars v (List.mem_of_getElem? found))
  | .params, _ => by
    simp only [Formulary.run]
    exact C.holds_map base.params _ fun _ h ↦ h
  | .node target, h => by
    simp only [Formulary.run]
    exact C.holds_pure (base.node h)
  | .hostClass name, _ => by
    simp only [Formulary.run]
    exact C.holds_pure (keep.hostClass name)
  | .unary op a, h => by
    simp only [Formulary.run]
    have ha := run base keep vars hvars a (base.inside h rfl (by simp [Code.parts]))
    exact C.holds_bind ha fun a ha ↦ C.holds_ofExcept
      (Value.operational_unary op a).fresh fun v hv ↦ keep.unary ha hv
  | .binary op a b, h => by
    have ha := run base keep vars hvars a (base.inside h rfl (by simp [Code.parts]))
    have hb := run base keep vars hvars b (base.inside h rfl (by simp [Code.parts]))
    cases op
    case and =>
      simp only [Formulary.run]
      refine C.holds_bind ha fun v hv ↦ ?_
      split
      · exact hb
      · exact C.holds_pure hv
    case or =>
      simp only [Formulary.run]
      refine C.holds_bind ha fun v hv ↦ ?_
      split
      · exact C.holds_pure hv
      · exact hb
    all_goals
      simp only [Formulary.run]
      exact base.operands keep _ ha hb
  | .cond test positive negative, h => by
    simp only [Formulary.run]
    have ht := run base keep vars hvars test (base.inside h rfl (by simp [Code.parts]))
    have hp := run base keep vars hvars positive (base.inside h rfl (by simp [Code.parts]))
    have hn := run base keep vars hvars negative (base.inside h rfl (by simp [Code.parts]))
    refine C.holds_bind ht fun v _ ↦ ?_
    split
    · exact hp
    · exact hn
  | .getAttr receiver name, h => by
    simp only [Formulary.run]
    have hr := run base keep vars hvars receiver (base.inside h rfl (by simp [Code.parts]))
    exact C.holds_bind hr fun v hv ↦ base.getAttr keep hv name
  | .index receiver args, h => by
    simp only [Formulary.run]
    have hr := run base keep vars hvars receiver (base.inside h rfl (by simp [Code.parts]))
    have ha := runAll base keep vars hvars args fun c hc ↦
      base.inside h rfl (by simp [Code.parts, hc])
    exact C.holds_bind hr fun v hv ↦ C.holds_bind ha fun args _ ↦ base.index keep hv args
  | .method receiver name args, h => by
    simp only [Formulary.run]
    have hr := run base keep vars hvars receiver (base.inside h rfl (by simp [Code.parts]))
    have ha := runAll base keep vars hvars args fun c hc ↦
      base.inside h rfl (by simp [Code.parts, hc])
    exact C.holds_bind hr fun v hv ↦ C.holds_bind ha fun args hargs ↦
      base.method name hv hargs.2
  | .function hostClass name args, h => by
    simp only [Formulary.run]
    have ha := runAll base keep vars hvars args fun c hc ↦ base.inside h rfl hc
    exact C.holds_bind ha fun args hargs ↦ base.function h hargs.1 hargs.2
  | .call target args, h => by
    simp only [Formulary.run]
    have ht := run base keep vars hvars target (base.inside h rfl (by simp [Code.parts]))
    have ha := runEntries base keep vars hvars args fun e he c hc ↦
      base.inside h rfl (List.mem_cons_of_mem _ (List.mem_flatMap.mpr ⟨e, he, hc⟩))
    exact C.holds_bind ht fun v hv ↦ C.holds_bind ha fun es hes ↦ base.call h hv hes
  | .raise args, h => by
    simp only [Formulary.run]
    have ha := runAll base keep vars hvars args fun c hc ↦ base.inside h rfl hc
    exact C.holds_bind ha fun args _ ↦ C.holds_fail rfl
  | .list items, h => by
    simp only [Formulary.run]
    have hi := runAll base keep vars hvars items fun c hc ↦ base.inside h rfl hc
    exact C.holds_map hi _ fun vs hvs ↦ keep.list hvs.2
  | .set items, h => by
    simp only [Formulary.run]
    have hi := runAll base keep vars hvars items fun c hc ↦ base.inside h rfl hc
    exact C.holds_map hi _ fun vs hvs ↦ keep.set hvs.2
  | .map entries, h => by
    simp only [Formulary.run]
    have he := runEntries base keep vars hvars entries fun e he c hc ↦
      base.inside h rfl (List.mem_flatMap.mpr ⟨e, he, hc⟩)
    exact C.holds_map he _ fun es hes ↦ keep.map hes
  | .comprehension yield pair source filter, h => by
    simp only [Formulary.run]
    have hs := run base keep vars hvars source (base.part (k := 0) h List.mem_cons_self)
    -- Around the yield and the filter as many variables are bound as an item gives.
    have inner : ∀ bound : List Value, bound.length = (if pair then 2 else 1) →
        ∀ c ∈ yield.codes ++ filter.toList, p (bound ++ vars).length c := by
      intro bound length c hc
      rw [List.length_append, length, Nat.add_comm]
      exact base.part h (List.mem_cons_of_mem _ (List.mem_map_of_mem hc))
    have hf := fun (bound : List Value) length hvars ↦
      runFilter base keep (bound ++ vars) hvars filter fun c hc ↦
        inner bound length c (List.mem_append_right _ (Option.mem_toList.mpr hc))
    refine C.holds_bind hs fun v hv ↦ ?_
    refine C.holds_bind (C.holds_ofExcept (Value.operational_iterate v).fresh
      fun items hi ↦ keep.iterate hv hi) fun items hitems ↦ ?_
    exact runYield base keep vars hvars pair hitems hf yield fun bound length c hc ↦
      inner bound length c (List.mem_append_left _ hc)

theorem runAll (base : C.Core good s p v) (keep : OperationsKeep good)
    (vars : List Value) (hvars : ∀ v ∈ vars, good v) : ∀ codes : List Code,
    (∀ c ∈ codes, p vars.length c) →
    C.Holds (fun vs ↦ vs.length = codes.length ∧ ∀ v ∈ vs, good v)
      fun i ↦ runAll (s i) (v.read i) (v.context i) vars codes
  | [], _ => by
    simp only [Formulary.runAll]
    exact C.holds_pure ⟨rfl, fun v hv ↦ by cases hv⟩
  | c :: cs, h => by
    simp only [Formulary.runAll]
    have first := run base keep vars hvars c (h c List.mem_cons_self)
    have rest := runAll base keep vars hvars cs fun c hc ↦ h c (List.mem_cons_of_mem _ hc)
    refine C.holds_bind first fun v hv ↦ ?_
    exact C.holds_map rest _ fun vs hvs ↦
      ⟨congrArg Nat.succ hvs.1, List.forall_mem_cons.mpr ⟨hv, hvs.2⟩⟩

theorem runEntries (base : C.Core good s p v) (keep : OperationsKeep good)
    (vars : List Value) (hvars : ∀ v ∈ vars, good v) : ∀ entries : List (Entry Code Code),
    (∀ e ∈ entries, ∀ c ∈ e.codes, p vars.length c) →
    C.Holds (fun es ↦ ∀ e ∈ es, BothOf good e)
      fun i ↦ runEntries (s i) (v.read i) (v.context i) vars entries
  | [], _ => by
    simp only [Formulary.runEntries]
    exact C.holds_pure fun v hv ↦ by cases hv
  | .pair k v :: rest, h => by
    simp only [Formulary.runEntries]
    have parts := h _ List.mem_cons_self
    have hk := run base keep vars hvars k (parts k (by simp [Entry.codes]))
    have hv := run base keep vars hvars v (parts v (by simp [Entry.codes]))
    have hr := runEntries base keep vars hvars rest fun e he ↦ h e (List.mem_cons_of_mem _ he)
    refine C.holds_bind hk fun k hk ↦ C.holds_bind hv fun v hv ↦ ?_
    exact C.holds_map hr _ fun es hes ↦ List.forall_mem_cons.mpr ⟨⟨hk, hv⟩, hes⟩
  | .spread c :: rest, h => by
    simp only [Formulary.runEntries]
    have hc := run base keep vars hvars c (h _ List.mem_cons_self c (by simp [Entry.codes]))
    have hr := runEntries base keep vars hvars rest fun e he ↦ h e (List.mem_cons_of_mem _ he)
    refine C.holds_bind hc fun v hv ↦ ?_
    refine C.holds_bind (C.holds_ofExcept (operational_spreadEntries v).fresh
      fun es hes ↦ keep.spread hv hes) fun extra hextra ↦ ?_
    exact C.holds_map hr _ fun es hes ↦ List.forall_mem_append.mpr ⟨hextra, hes⟩

theorem runFilter (base : C.Core good s p v) (keep : OperationsKeep good)
    (vars : List Value) (hvars : ∀ v ∈ vars, good v) : ∀ filter : Option Code,
    (∀ c ∈ filter, p vars.length c) →
    C.Holds (fun _ ↦ True) fun i ↦ runFilter (s i) (v.read i) (v.context i) vars filter
  | none, _ => by
    simp only [Formulary.runFilter]
    exact C.holds_pure trivial
  | some c, h => by
    simp only [Formulary.runFilter]
    exact C.holds_map (run base keep vars hvars c (h c rfl)) _ fun _ _ ↦ trivial

theorem runYield (base : C.Core good s p v) (keep : OperationsKeep good)
    (vars : List Value) (hvars : ∀ v ∈ vars, good v) (pair : Bool) {items : List Value}
    (hitems : ∀ v ∈ items, good v) {filter : (i : ι) → List Value → m i Bool}
    (hfilter : ∀ bound : List Value, bound.length = (if pair then 2 else 1) →
      (∀ v ∈ bound ++ vars, good v) → C.Holds (fun _ ↦ True) fun i ↦ filter i (bound ++ vars)) :
    ∀ yield : Yield Code, (∀ bound : List Value, bound.length = (if pair then 2 else 1) →
      ∀ c ∈ yield.codes, p (bound ++ vars).length c) →
    C.Holds good fun i ↦ runYield (s i) (v.read i) (v.context i) vars pair items (filter i) yield
  | .list c, h => by
    simp only [Formulary.runYield]
    have hc := fun (bound : List Value) length hvars ↦
      run base keep (bound ++ vars) hvars c (h bound length c (by simp [Yield.codes]))
    exact C.holds_map (C.holds_collect keep pair hitems hvars hfilter hc) _ fun vs hvs ↦
      keep.list hvs
  | .set c, h => by
    simp only [Formulary.runYield]
    have hc := fun (bound : List Value) length hvars ↦
      run base keep (bound ++ vars) hvars c (h bound length c (by simp [Yield.codes]))
    exact C.holds_map (C.holds_collect keep pair hitems hvars hfilter hc) _ fun vs hvs ↦
      keep.set hvs
  | .map k v, h => by
    simp only [Formulary.runYield]
    have hk := fun (bound : List Value) length hvars ↦
      run base keep (bound ++ vars) hvars k (h bound length k (by simp [Yield.codes]))
    have hv := fun (bound : List Value) length hvars ↦
      run base keep (bound ++ vars) hvars v (h bound length v (by simp [Yield.codes]))
    have both := fun (bound : List Value) length hvars ↦
      C.holds_bind (hk bound length hvars) fun k hk ↦
        C.holds_map (Q := BothOf good) (hv bound length hvars) (Prod.mk k) fun v hv ↦ ⟨hk, hv⟩
    exact C.holds_map (C.holds_collect keep pair hitems hvars hfilter both) _ fun es hes ↦
      keep.map hes

end

/-- A property of running code and of looking its parameter up is one of computing a member. -/
theorem runBody (base : C.Core good s p v) (keep : OperationsKeep good) {name : String}
    (given : C.Holds (fun given ↦ ∀ value, given = some value → good value)
      fun i ↦ Machine.step (Eval.param? (v.env i) name))
    (body : Body) (h : ∀ c ∈ body.code?, p 0 c) :
    C.Holds good fun i ↦ runBody (s i) (v.read i) (v.context i) name body := by
  have noVars : ∀ v ∈ ([] : List Value), good v := fun v hv ↦ by cases hv
  cases body with
  | formula code => exact base.run keep [] noVars code (h code rfl)
  | param default =>
    refine C.holds_bind given fun value hvalue ↦ ?_
    cases value with
    | some v => exact C.holds_pure (hvalue v rfl)
    | none =>
      cases default with
      | none => exact C.holds_fail rfl
      | some code => exact base.run keep [] noVars code (h code rfl)

end Core

/-- A property of running code is one of computing a member. -/
theorem Base.runBody {C : Congruence σ m} {good : Value → Prop} {s : ι → Setting σ}
    {p : Nat → Code → Prop} {v : Views m} (base : C.Base good s p v) (keep : OperationsKeep good)
    (name : String) (body : Body) (h : ∀ c ∈ body.code?, p 0 c) :
    C.Holds good fun i ↦ runBody (s i) (v.read i) (v.context i) name body :=
  base.toCore.runBody keep (base.param name) body h

end Congruence

end Formulary
