import Formulary.Proofs.EvalLaws
import Formulary.Proofs.Keyed
import Mathlib.Data.List.Forall2

/-!
# Attributes read in bulk

Several attributes of a new call can be read at once in four ways: by `%` and by `/` in a script, as
the call's entries, and as entries straight from the engine. The first, the third and the last read
one name after the other up to the first that fails, so they agree. The second reads all names, and
what it gives for a name is what the name alone gives in its turn (`inTurn`), as a value if it is a
fault.
-/

namespace Formulary

variable {σ α β : Type}

/-! ### One after the other -/

/-- What evaluations give one after the other, each in the world that those before it left, whether
they succeeded or not. -/
def inTurn (eval : α → Eval σ β) : List α → World σ → List (Except Stop β)
  | [], _ => []
  | a :: as, w => ((eval a).run.run w).1 :: inTurn eval as ((eval a).run.run w).2

/-- The world after all of them. -/
def afterAll (eval : α → Eval σ β) (as : List α) (w : World σ) : World σ :=
  as.foldl (fun w a ↦ ((eval a).run.run w).2) w

theorem inTurn_cons {eval : α → Eval σ β} {a : α} {w w' : World σ} {result : Except Stop β}
    (h : (eval a).run.run w = (result, w')) (as : List α) :
    inTurn eval (a :: as) w = result :: inTurn eval as w' := by
  rw [inTurn, h]

theorem length_inTurn (eval : α → Eval σ β) (as : List α) (w : World σ) :
    (inTurn eval as w).length = as.length := by
  induction as generalizing w with
  | nil => rfl
  | cons a as ih => rw [inTurn, List.length_cons, List.length_cons, ih]

/-- In turn, but only as long as they succeed: the outcome is the first failure, if there is one. -/
theorem fst_run_mapM (eval : α → Eval σ β) (as : List α) (w : World σ) :
    ((as.mapM eval).run.run w).1 = (inTurn eval as w).mapM id := by
  induction as generalizing w with
  | nil => rfl
  | cons a as ih =>
    rw [List.mapM_cons, run_bind, inTurn, List.mapM_cons]
    cases here : (eval a).run.run w with
    | mk result w' =>
      cases result with
      | error stop => rfl
      | ok b =>
        have later := ih w'
        dsimp only [id_eq]
        rw [run_bind]
        cases rest : (as.mapM eval).run.run w' with
        | mk results w'' =>
          rw [rest] at later
          dsimp only at later
          rw [← later]
          cases results <;> rfl

/-- When all succeed, the world is the one after all of them. -/
theorem snd_run_mapM {eval : α → Eval σ β} {as : List α} {w : World σ} {bs : List β}
    (h : (inTurn eval as w).mapM id = .ok bs) :
    ((as.mapM eval).run.run w).2 = afterAll eval as w := by
  induction as generalizing w bs with
  | nil => rfl
  | cons a as ih =>
    rw [inTurn, List.mapM_cons] at h
    obtain ⟨b, hb, h⟩ := bind_eq_ok h
    obtain ⟨bs', hbs, -⟩ := bind_eq_ok h
    have later := ih hbs
    rw [List.mapM_cons, run_bind, afterAll, List.foldl_cons]
    cases here : (eval a).run.run w with
    | mk result w' =>
      rw [here] at hb hbs later
      change result = .ok b at hb
      subst hb
      dsimp only
      rw [run_bind]
      cases rest : (as.mapM eval).run.run w' with
      | mk results w'' =>
        rw [rest] at later
        cases results <;> exact later

section

variable {ε : Type} {f : α → Except ε β}

/-- Steps succeed in turn if each of them does. -/
theorem mapM_eq_ok_iff (items : List α) (results : List β) :
    items.mapM f = .ok results ↔ List.Forall₂ (fun a b ↦ f a = .ok b) items results := by
  induction items generalizing results with
  | nil =>
    rw [List.forall₂_nil_left_iff]
    exact ⟨fun h ↦ by cases h; rfl, fun h ↦ by rw [h]; rfl⟩
  | cons a items ih =>
    rw [List.mapM_cons, List.forall₂_cons_left_iff]
    constructor
    · intro h
      obtain ⟨b, bs, hb, hbs, rfl⟩ := bind₂_eq_ok h
      exact ⟨b, bs, hb, (ih bs).mp hbs, rfl⟩
    · rintro ⟨b, bs, hb, hbs, rfl⟩
      rw [hb, (ih bs).mpr hbs]
      rfl

/-- Steps fail in turn as the first of them does that fails. -/
theorem mapM_eq_error_iff (items : List α) (e : ε) :
    items.mapM f = .error e ↔ ∃ before a after, items = before ++ a :: after ∧
      (∀ b ∈ before, ∃ result, f b = .ok result) ∧ f a = .error e := by
  induction items with
  | nil => simp [pure, Except.pure]
  | cons a items ih =>
    rw [List.mapM_cons]
    cases here : f a with
    | error e' =>
      constructor
      · intro h
        cases h
        exact ⟨[], a, items, rfl, fun b hb ↦ (by cases hb), here⟩
      · rintro ⟨before, a', after, split, succeed, fails⟩
        cases before with
        | nil =>
          cases split
          rw [here] at fails
          cases fails
          rfl
        | cons b before =>
          cases split
          obtain ⟨result, ok⟩ := succeed a List.mem_cons_self
          rw [here] at ok
          cases ok
    | ok b =>
      have rest : (do let bs ← items.mapM f; pure (b :: bs) : Except ε (List β)) = .error e ↔
          items.mapM f = .error e := by
        cases items.mapM f with
        | error e' => exact ⟨fun h ↦ h, fun h ↦ h⟩
        | ok bs => exact ⟨fun h ↦ (by cases h), fun h ↦ by cases h⟩
      refine rest.trans (ih.trans ⟨?_, ?_⟩)
      · rintro ⟨before, a', after, rfl, succeed, fails⟩
        exact ⟨a :: before, a', after, rfl, List.forall_mem_cons.mpr ⟨⟨b, here⟩, succeed⟩, fails⟩
      · rintro ⟨before, a', after, split, succeed, fails⟩
        cases before with
        | nil =>
          cases split
          rw [here] at fails
          cases fails
        | cons b' before =>
          cases split
          exact ⟨before, a', after, rfl, (List.forall_mem_cons.mp succeed).2, fails⟩

end

private theorem mapM_id_eq_ok {ε : Type} {results : List (Except ε β)} {bs : List β} :
    results.mapM id = .ok bs ↔ results = bs.map .ok := by
  rw [mapM_eq_ok_iff, ← List.forall₂_eq_eq_eq, List.forall₂_map_right_iff]
  rfl

/-- Results that are kept together with their names. -/
theorem mapM_pair (name : α → β) (eval : α → Eval σ Value) (as : List α) :
    (as.mapM fun a ↦ return (name a, ← eval a)) =
      (do return (as.map name).zip (← as.mapM eval)) := by
  induction as with
  | nil => simp
  | cons a as ih =>
    simp only [List.mapM_cons, ih, bind_assoc, pure_bind, List.map_cons, List.zip_cons_cons]

/-! ### Dictionaries of attributes -/

private theorem Value.beq_str (a b : String) : (Value.str a == Value.str b) = (a == b) := by
  rw [beq_eq_equal]
  rfl

/-- Entries by name as entries of a map. -/
def keyed (entries : List (String × Value)) : List (Value × Value) :=
  entries.map (Prod.map Value.str id)

theorem ofEntries_keyed (attrs : List String) (values : List Value) :
    Indexed.ofEntries ((attrs.map Value.str).zip values) =
      keyed (Ordered.ofEntries (attrs.zip values)) := by
  have same : (attrs.map Value.str).zip values =
      (attrs.zip values).map (Prod.map Value.str id) := by
    rw [← List.zip_map, List.map_id]
  rw [Indexed.ofEntries_eq, same, Ordered.ofEntries_map Value.beq_str]
  rfl

private theorem get?_keyed (attr : String) (entries : List (String × Value)) :
    Ordered.get? (.str attr) (keyed entries) = Ordered.get? attr entries := by
  rw [keyed, Ordered.get?_map Value.beq_str, Option.map_id, id_eq]

theorem keys_keyed {attrs : List String} {values : List Value}
    (length : values.length = attrs.length) :
    (keyed (Ordered.ofEntries (attrs.zip values))).map Prod.fst =
      (Ordered.ofElements attrs).map Value.str := by
  have keys : (attrs.zip values).map Prod.fst = attrs := List.map_fst_zip (by omega)
  calc (keyed (Ordered.ofEntries (attrs.zip values))).map Prod.fst
      = ((Ordered.ofEntries (attrs.zip values)).map Prod.fst).map Value.str := by
        rw [keyed, List.map_map, List.map_map]
        rfl
    _ = (Ordered.ofElements attrs).map Value.str := by rw [Ordered.keys_ofEntries, keys]

/-- A name that comes several times has the value of its last place. -/
theorem get?_keyed_last {attrs : List String} {values : List Value} {i : Nat} {attr : String}
    {v : Value} (here : attrs[i]? = some attr) (last : attr ∉ attrs.drop (i + 1))
    (value : values[i]? = some v) :
    Ordered.get? (.str attr) (keyed (Ordered.ofEntries (attrs.zip values))) = some v := by
  have entry : (attrs.zip values)[i]? = some (attr, v) := by
    rw [List.getElem?_zip_eq_some]
    exact ⟨here, value⟩
  obtain ⟨bound, entry⟩ := List.getElem?_eq_some_iff.mp entry
  have split : attrs.zip values =
      (attrs.zip values).take i ++ (attr, v) :: (attrs.zip values).drop (i + 1) := by
    rw [← entry, ← List.drop_eq_getElem_cons bound, List.take_append_drop]
  rw [get?_keyed, split]
  apply Ordered.get?_ofEntries_append
  intro e he same
  rw [List.zip_eq_zipWith, List.drop_zipWith, ← List.zip_eq_zipWith] at he
  exact last (same ▸ (List.of_mem_zip he).1)

/-! ### The four ways -/

namespace NodeCall

variable (read : String → Eval σ Value) (attrs : List String)

private theorem readAll_str : readAll read (attrs.map .str) =
    attrs.mapM fun attr ↦ return (Value.str attr, ← read attr) := by
  rw [readAll, List.mapM_map]
  rfl

/-- The attributes as a dictionary, read up to the first that fails. -/
theorem entries_eq : entries read attrs =
    (do return keyed (Ordered.ofEntries (attrs.zip (← attrs.mapM read)))) := by
  simp only [entries, mapM_pair, bind_assoc, pure_bind, ofEntries_keyed]

private theorem strict_eq : strict read (.list (attrs.map .str)) =
    (do return Value.map (← entries read attrs)) := by
  simp only [strict, readAll_str, entries, bind_assoc, pure_bind]

/-- A fault as a value, in the place of the value it prevents. -/
def settled : Except Stop Value → Except Stop Value
  | .error (.fault f) => .ok f.toValue
  | result => result

private theorem settled_eq_error {result : Except Stop Value} {stop : Stop}
    (h : settled result = .error stop) : result = .error stop ∧ ∀ f, stop ≠ .fault f := by
  unfold settled at h
  split at h
  · cases h
  · next failed =>
    subst h
    exact ⟨rfl, fun f same ↦ failed f (by rw [same])⟩

theorem map_settled_ok (values : List Value) : (values.map .ok).map settled = values.map .ok := by
  rw [List.map_map]
  rfl

private theorem run_readSafely (attr : String) (w : World σ) :
    (readSafely read (.str attr)).run.run w =
      (settled ((read attr).run.run w).1, ((read attr).run.run w).2) := by
  change (Eval.safely (read attr)).run.run w = _
  rw [Eval.safely, run_tryCatch]
  cases (read attr).run.run w with
  | mk result w' =>
    cases result with
    | ok v => rfl
    | error stop => cases stop <;> rfl

private theorem inTurn_readSafely (w : World σ) :
    inTurn (fun attr ↦ readSafely read (.str attr)) attrs w =
      (inTurn read attrs w).map settled := by
  induction attrs generalizing w with
  | nil => rfl
  | cons attr attrs ih => rw [inTurn, inTurn, run_readSafely, ih, List.map_cons]

private theorem afterAll_readSafely (w : World σ) :
    afterAll (fun attr ↦ readSafely read (.str attr)) attrs w = afterAll read attrs w := by
  unfold afterAll
  simp only [run_readSafely]

private theorem safe_eq : safe read (.list (attrs.map .str)) =
    (do
      let values ← attrs.mapM fun attr ↦ readSafely read (.str attr)
      return .map (keyed (Ordered.ofEntries (attrs.zip values)))) := by
  simp only [safe, List.mapM_map, Function.comp_def, mapM_pair, bind_assoc, pure_bind,
    ofEntries_keyed]

end NodeCall

/-- The world right after an environment with these parameters was made. -/
def World.withEnv (w : World σ) (params : List (Value × Value)) : World σ :=
  { w with envs := w.envs.push { params } }

theorem Eval.run_newEnv_bind (params : List (Value × Value)) (next : Nat → Eval σ α) (w : World σ) :
    (Eval.newEnv params >>= next).run.run w =
      (next w.envs.size).run.run (w.withEnv params) := by
  rw [run_bind]
  rfl

/-- A result that is changed on its way out. -/
theorem Eval.run_return (x : Eval σ α) (f : α → β) (w : World σ) :
    (do return f (← x) : Eval σ β).run.run w = ((x.run.run w).1.map f, (x.run.run w).2) := by
  rw [run_bind]
  cases x.run.run w with
  | mk result w' => cases result <;> rfl

namespace Engine

variable (e : Engine σ) (node : NodeRef) (params : List (Value × Value)) (attrs : List String)

/-- `node(params) % attrs`. -/
def bulkStrict : Eval σ Value := do
  let call ← NodeCall.create node params
  applyBinary e.read [] .mod call (.list (attrs.map .str))

/-- `node(params) / attrs`. -/
def bulkSafe : Eval σ Value := do
  let call ← NodeCall.create node params
  applyBinary e.read [] .div call (.list (attrs.map .str))

/-- The entries of the call `node(params)`. -/
def callEntries : Eval σ (List (Value × Value)) := do
  let env ← Eval.newEnv params
  NodeCall.entries (e.readCall env node) attrs

/-- What each name gives in its turn on the call `node(params)`, made in the given world. -/
def turns (w : World σ) : List (Except Stop Value) :=
  inTurn (e.readCall w.envs.size node) attrs (w.withEnv params)

variable {e node params attrs}

/-- The entries are the values of the turns, up to the first that fails. -/
theorem run_callEntries (w : World σ) :
    (e.callEntries node params attrs).run.run w =
      (((e.turns node params attrs w).mapM id).map fun values ↦
          keyed (Ordered.ofEntries (attrs.zip values)),
        ((attrs.mapM (e.readCall w.envs.size node)).run.run (w.withEnv params)).2) := by
  rw [callEntries, Eval.run_newEnv_bind, NodeCall.entries_eq, Eval.run_return, fst_run_mapM]
  rfl

/-- What an engine gives by name is what it reads, up to the first that fails. -/
theorem run_evaluateEntries {name : String} (found : e.node name = .ok node) (w : World σ) :
    (e.evaluateEntries name attrs params).run.run w =
      (((attrs.mapM (e.read [] w.envs.size node)).run.run (w.withEnv params)).1.map fun values ↦
          Ordered.ofEntries (attrs.zip values),
        ((attrs.mapM (e.read [] w.envs.size node)).run.run (w.withEnv params)).2) := by
  have made : e.evaluateEntries name attrs params = (do
      let env ← Eval.newEnv params
      return Ordered.ofEntries (attrs.zip (← attrs.mapM (e.read [] env node)))) := by
    simp only [evaluateEntries, evaluateMany, found, Eval.ofExcept_ok, evaluateNode, bind_assoc,
      pure_bind, Indexed.ofEntries_eq]
  rw [made, Eval.run_newEnv_bind, Eval.run_return]

theorem run_bulkStrict (w : World σ) :
    (e.bulkStrict node params attrs).run.run w =
      (((e.callEntries node params attrs).run.run w).1.map .map,
        ((e.callEntries node params attrs).run.run w).2) := by
  have made : e.bulkStrict node params attrs =
      (do return Value.map (← e.callEntries node params attrs)) := by
    simp only [bulkStrict, NodeCall.create, applyBinary, NodeCall.attr_of_not_mem,
      List.not_mem_nil, not_false_eq_true, callEntries, readCall, NodeCall.strict_eq, bind_assoc,
      pure_bind]
  rw [made, Eval.run_return]

/-- What `/` gives is made of the turns, faults as values. -/
theorem run_bulkSafe (w : World σ) :
    (e.bulkSafe node params attrs).run.run w =
      ((((e.turns node params attrs w).map NodeCall.settled).mapM id).map fun values ↦
          .map (keyed (Ordered.ofEntries (attrs.zip values))),
        ((attrs.mapM fun attr ↦
          NodeCall.readSafely (e.readCall w.envs.size node) (.str attr)).run.run
            (w.withEnv params)).2) := by
  have made : e.bulkSafe node params attrs =
      (do
        let env ← Eval.newEnv params
        NodeCall.safe (e.readCall env node) (.list (attrs.map .str))) := by
    simp only [bulkSafe, NodeCall.create, applyBinary, NodeCall.attr_of_not_mem,
      List.not_mem_nil, not_false_eq_true, readCall, bind_assoc, pure_bind]
  rw [made, Eval.run_newEnv_bind, NodeCall.safe_eq, Eval.run_return, fst_run_mapM,
    NodeCall.inTurn_readSafely]
  rfl

/-- When no turn fails, `/` gives what `%` gives, in the same world. -/
theorem run_bulkSafe_of_bulkStrict {w w' : World σ} {v : Value}
    (h : (e.bulkStrict node params attrs).run.run w = (.ok v, w')) :
    (e.bulkSafe node params attrs).run.run w = (.ok v, w') := by
  rw [run_bulkStrict, run_callEntries, Prod.mk.injEq] at h
  obtain ⟨value, world⟩ := h
  cases all : (e.turns node params attrs w).mapM id with
  | error stop =>
    rw [all] at value
    cases value
  | ok values =>
    have succeed := mapM_id_eq_ok.mp all
    have settled : ((e.turns node params attrs w).map NodeCall.settled).mapM id = .ok values := by
      rw [succeed, NodeCall.map_settled_ok, ← succeed, all]
    have safely : (inTurn (fun attr ↦ NodeCall.readSafely (e.readCall w.envs.size node) (.str attr))
        attrs (w.withEnv params)).mapM id = .ok values := by
      rw [NodeCall.inTurn_readSafely]
      exact settled
    rw [all] at value
    rw [run_bulkSafe, settled, snd_run_mapM safely, NodeCall.afterAll_readSafely,
      ← snd_run_mapM all, world]
    exact congrArg (·, w') value

/-- Unless a turn ends for another reason than a fault, `/` gives a map, and the world is the one
after all turns. -/
theorem run_bulkSafe_cases (e : Engine σ) (node : NodeRef) (params : List (Value × Value))
    (attrs : List String) (w : World σ) :
    (∃ stop, (∀ f, stop ≠ .fault f) ∧ .error stop ∈ e.turns node params attrs w ∧
        ((e.bulkSafe node params attrs).run.run w).1 = .error stop) ∨
      ∃ values, (e.turns node params attrs w).map NodeCall.settled = values.map .ok ∧
        (e.bulkSafe node params attrs).run.run w =
          (.ok (.map (keyed (Ordered.ofEntries (attrs.zip values)))),
            afterAll (e.readCall w.envs.size node) attrs (w.withEnv params)) := by
  rw [run_bulkSafe]
  cases all : ((e.turns node params attrs w).map NodeCall.settled).mapM id with
  | error stop =>
    left
    obtain ⟨before, result, after, split, -, failed⟩ := (mapM_eq_error_iff _ _).mp all
    obtain ⟨result, mem, rfl⟩ := List.mem_map.mp
      (split ▸ List.mem_append_right before (List.mem_cons_self (a := result)))
    obtain ⟨rfl, other⟩ := NodeCall.settled_eq_error failed
    exact ⟨stop, other, mem, rfl⟩
  | ok values =>
    right
    refine ⟨values, mapM_id_eq_ok.mp all, ?_⟩
    have safely : (inTurn (fun attr ↦ NodeCall.readSafely (e.readCall w.envs.size node) (.str attr))
        attrs (w.withEnv params)).mapM id = .ok values := by
      rw [NodeCall.inTurn_readSafely]
      exact all
    rw [snd_run_mapM safely, NodeCall.afterAll_readSafely]
    rfl

end Engine

end Formulary
