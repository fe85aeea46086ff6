import Formulary.Proofs.EqualValues
import Formulary.Proofs.Recomputation
import Formulary.Proofs.Regime

/-!
# Well-formed collections

No operation puts an element into a set, or a key into a map, that is there already
(`Value.formed_proper`). So if the parameters that evaluation is given and the values that the host
returns are well-formed, then all values that come up are: those that are returned, those that are
kept in environments, the parameters of node calls and what host code is called with
(`Program.collections_well_formed`).
-/

namespace Formulary

variable {σ : Type}

namespace Value

/-! ### Collections that are put together -/

/-- Nothing is added to a set that is there already. -/
theorem distinct_add {x : Value} {xs : List Value} (hx : x.WellFormed)
    (hxs : ∀ v ∈ xs, v.WellFormed) (h : Distinct xs) : Distinct (Ordered.add x xs) := by
  unfold Ordered.add
  split
  · exact h
  · next new =>
    refine List.pairwise_append.mpr ⟨h, List.pairwise_singleton _ x, fun v hv y hy ↦ ?_⟩
    rw [List.mem_singleton.mp hy]
    have other : (x == v) = false := by
      by_contra same
      exact new (List.any_eq_true.mpr ⟨v, hv, by simpa using same⟩)
    exact ⟨(equal_symm (hxs v hv) hx).trans other, other⟩

theorem distinct_union {xs ys : List Value} (hxs : ∀ v ∈ xs, v.WellFormed)
    (hys : ∀ v ∈ ys, v.WellFormed) (h : Distinct xs) : Distinct (Ordered.union xs ys) := by
  unfold Ordered.union
  induction ys generalizing xs with
  | nil => exact h
  | cons y ys ih =>
    obtain ⟨hy, hys⟩ := List.forall_mem_cons.mp hys
    refine ih (fun v hv ↦ ?_) hys (distinct_add hy hxs h)
    rcases Ordered.mem_add hv with hv | rfl
    · exact hxs v hv
    · exact hy

private theorem distinct_keys_merge {entries extra : List (Value × Value)}
    (he : ∀ e ∈ entries, BothOf WellFormed e) (hx : ∀ e ∈ extra, BothOf WellFormed e)
    (h : Distinct (entries.map Prod.fst)) :
    Distinct ((Ordered.merge entries extra).map Prod.fst) := by
  rw [Ordered.keys_merge]
  exact distinct_union (List.forall_mem_map.mpr fun e h ↦ (he e h).1)
    (List.forall_mem_map.mpr fun e h ↦ (hx e h).1) h

private theorem proper_of_leaf {v : Value} (h : v.Leaf) : v.Proper := by
  obtain ⟨ordinary, none⟩ := h
  cases v with
  | set items =>
    rw [show items = [] from none]
    exact .nil
  | map entries =>
    cases entries with
    | nil => exact .nil
    | cons e rest => cases none
  | record type fields =>
    rw [List.map_eq_nil_iff.mp none]
    exact .nil
  | call env ref params => exact ordinary.elim
  | _ => trivial

/-- The operations keep elements and keys distinct. -/
theorem formed_proper : Formed Proper where
  leaf := proper_of_leaf
  lists _ := trivial
  union hx hy := distinct_union hx.member hy hx.self
  subset h sub := List.Pairwise.sublist sub h
  merge he hx := distinct_keys_merge he.entry hx he.self
  submap h sub := List.Pairwise.sublist (sub.map Prod.fst) h
  fault f := (List.pairwise_pair.mpr (by decide) : Distinct [str "error", str "backtrace"])

/-- A node call is made of its parameters. -/
theorem wellFormed_call_iff {env : Nat} {ref : NodeRef} {params : List (Value × Value)} :
    (call env ref params).WellFormed ↔ (map params).WellFormed := by
  rw [WellFormed, every_iff, every_iff]
  exact Iff.rfl

theorem wellFormed_of_leaf {v : Value} (h : v.Leaf) : v.WellFormed := formed_proper.every_leaf h

private theorem wellFormed_node (ref : NodeRef) : (node ref).WellFormed :=
  every_iff.mpr ⟨trivial, fun _ h ↦ by cases h⟩

/-- No operation leads from well-formed values to others. -/
theorem valuesKeep_wellFormed : ValuesKeep WellFormed where
  toOperationsKeep := formed_proper.operationsKeep
  str s := wellFormed_of_leaf ⟨trivial, rfl⟩
  send hr ha h := formed_proper.every_send hr ha h
  called h := ⟨wellFormed_node _, wellFormed_call_iff.mp h⟩
  merge hp he := formed_proper.every_merge hp he.entry
  visible {e} h := every_of_map (formed_proper.submap h.self List.filter_sublist)
    fun entry he ↦ h.entry entry (List.mem_filter.mp he).1
  given {e name v} h found := by
    obtain ⟨entry, he, rfl⟩ := Env.exists_of_param?_eq_some found
    exact (h.entry entry he).2

end Value

/-! ### Evaluation -/

/-- The values in a world are well-formed. -/
abbrev World.WellFormed (ok : σ → Prop) : World σ → Prop := World.Among Value.WellFormed ok

namespace Program

variable (p : Program) {host : Host σ} {ok : σ → Prop}

/-- Evaluation keeps to worlds with well-formed values: the constants in code are literals. -/
theorem regime_wellFormed (keeps : host.Keeps Value.WellFormed ok) (whitelist : Whitelist) :
    Regime (p.setting host whitelist) Value.WellFormed (World.WellFormed ok) := by
  refine regime_among rfl (fun _ _ hp ↦ Value.wellFormed_call_iff.mpr hp)
    (fun {ref attr slot code} _ found hc ↦ ?_) keeps
  intro c within
  have spelled := p.constants found hc c within
  cases c with
  | const v =>
    obtain ⟨l, rfl⟩ := spelled
    exact Value.wellFormed_of_leaf (Value.leaf_literal l)
  | node target => exact Value.wellFormed_node _
  | _ => trivial

/-- A request about well-formed values has a well-formed answer, if any, and leaves well-formed
values. -/
theorem wellFormed_answer (keeps : host.Keeps Value.WellFormed ok) (whitelist : Whitelist)
    (depth : Nat) (asked : p.Asked) (given : asked.2.Among Value.WellFormed) {w : World σ}
    (hw : w.WellFormed ok) :
    let result := (asked.2.answer (p.engine asked.1 host whitelist depth)).run.run w
    result.2.WellFormed ok ∧
      ∀ answer, result.1 = .ok answer → asked.2.AnswersAmong Value.WellFormed answer := by
  obtain ⟨result, w', ran, after, answers⟩ :=
    (p.regime_wellFormed keeps whitelist).answer (e := p.engine asked.1 host whitelist depth)
      Value.valuesKeep_wellFormed (fun _ ↦ Value.wellFormed_node _) given w hw
  dsimp only
  rw [ran ()]
  exact ⟨after, answers⟩

/-- Evaluation gives well-formed collections only: no set in them has an element twice, and no map a
key, at any depth.

Let any requests be made to the engines of a program, one after the other, whether they fail or not,
with parameters that are well-formed. Let the host, starting in a state it may be in, return
well-formed values when it is called with such values. Then all answers are well-formed. So are all
values in the world, at the start and after that: the parameters that environments are made with,
for node calls too, the values of attributes that are kept in them, and in the log the values that
methods and functions are called with. -/
theorem collections_well_formed (keeps : host.Keeps Value.WellFormed ok) (whitelist : Whitelist)
    (depth : Nat) {w : World σ} (hw : w.WellFormed ok) (session : List p.Asked)
    (given : ∀ asked ∈ session, asked.2.Among Value.WellFormed) :
    (p.afterAll host whitelist depth w session).WellFormed ok ∧
      ∀ before asked after answer, session = before ++ asked :: after →
        ((asked.2.answer (p.engine asked.1 host whitelist depth)).run.run
          (p.afterAll host whitelist depth w before)).1 = .ok answer →
        asked.2.AnswersAmong Value.WellFormed answer := by
  have worlds : ∀ (session : List p.Asked) {w : World σ}, w.WellFormed ok →
      (∀ asked ∈ session, asked.2.Among Value.WellFormed) →
      (p.afterAll host whitelist depth w session).WellFormed ok := by
    intro session
    induction session with
    | nil => exact fun hw _ ↦ hw
    | cons asked session ih =>
      intro w hw given
      obtain ⟨first, rest⟩ := List.forall_mem_cons.mp given
      exact ih (p.wellFormed_answer keeps whitelist depth asked first hw).1 rest
  refine ⟨worlds session hw given, fun before asked after answer split answered ↦ ?_⟩
  subst split
  obtain ⟨earlier, this⟩ := List.forall_mem_append.mp given
  exact (p.wellFormed_answer keeps whitelist depth asked (this asked List.mem_cons_self)
    (worlds before hw earlier)).2 answer answered

end Program

/-! ### The sample host -/

namespace Samples

/-- A record that is made of a map has a field for each text of a key. -/
theorem wellFormed_record {type : String} {entries : List (Value × Value)}
    (h : (Value.map entries).WellFormed) :
    (Value.record type
      (Indexed.ofEntries (entries.map (Prod.map Value.text id)))).WellFormed := by
  refine every_record ?_ h
  rw [Indexed.ofEntries_eq]
  change ((Ordered.ofEntries _).map Prod.fst).Nodup
  rw [Ordered.keys_ofEntries]
  exact Ordered.nodup_union .nil

/-- The sample host returns well-formed values. -/
theorem keeps_wellFormed : host.Keeps Value.WellFormed fun _ ↦ True :=
  keeps Value.wellFormed_of_leaf wellFormed_record

end Samples

/-! ### A set that is built

The node `A` has `x = {'s': {1, 2, 1}}`. -/

namespace Gathering

def x : Expr :=
  .map default [.pair (.literal default (.str "s")) (.set default
    [.literal default (.int 1), .literal default (.int 2), .literal default (.int 1)])]

def memberX : Member where
  name := "x"
  line := 2
  body := .formula (.map [.pair (.const (.str "s"))
    (.set [.const (.int 1), .const (.int 2), .const (.int 1)])])
  deps := []

def script : Accepted "M" [] (.having [] "A" [memberX]) :=
  (Accepted.node "M" [] "A" default).define ⟨2, default, .formula "x" x⟩ memberX rfl rfl rfl rfl

/-- The script as a program. -/
def program : Program := script.program rfl

/-- Its engine on the sample host. -/
def engine : Engine Samples.State := program.engine ⟨0, by decide⟩ Samples.host {} 10

def refA : NodeRef := ⟨0, 0, "M", "A"⟩

theorem slot_x : engine.setting.library.slot? refA "x" = some ⟨0, 0, "M", memberX⟩ :=
  (program.slot?_of_own refA "x" rfl rfl rfl rfl rfl :)

theorem node_eq : engine.node "A" = .ok refA := by
  simp only [engine, Engine.node, Program.engine, program.node?_eq]
  rfl

/-- What `x` is: the set has 1 once. -/
theorem evaluate_x (w : World Samples.State) :
    ((engine.evaluate "A" "x" []).run.run w).1 =
      .ok (.map [(.str "s", .set [.int 1, .int 2])]) := by
  have new : (w.withEnv []).envs[w.envs.size]?.bind (·.cached? ⟨0, 0, 0⟩) = none := by
    simp [World.withEnv, Env.cached?]
  have value : Value.map (Indexed.ofEntries [(.str "s",
      .set (Indexed.ofElements [.int 1, .int 2, .int 1]))]) =
      .map [(.str "s", .set [.int 1, .int 2])] := by
    rw [Indexed.ofEntries_eq, Indexed.ofElements_eq]
    rfl
  rw [Engine.evaluate, node_eq, Eval.ofExcept_ok, pure_bind, run_bind, ← value]
  have ran : (readAttr engine.setting (9 + 1) [] w.envs.size refA "x").run.run (w.withEnv []) = _ :=
    run_readAttr_of_body slot_x new rfl
  exact congrArg Prod.fst ran

/-- Everything is well-formed when `x` is asked for, in the log too. -/
theorem wellFormed_x :
    Samples.host.Keeps Value.WellFormed (fun _ ↦ True) ∧
      (program.afterAll Samples.host {} 10 { host := {}, log := some [] }
        [(⟨0, by decide⟩, .evaluate "A" "x" [])]).WellFormed (fun _ ↦ True) ∧
      (Value.map [(.str "s", .set [.int 1, .int 2])]).WellFormed := by
  obtain ⟨world, answers⟩ := program.collections_well_formed Samples.keeps_wellFormed {} 10
    (.new trivial) [(⟨0, by decide⟩, .evaluate "A" "x" [])] fun asked ha ↦ by
      rw [List.mem_singleton.mp ha]
      exact Value.wellFormed_of_leaf ⟨trivial, rfl⟩
  exact ⟨Samples.keeps_wellFormed, world, answers [] _ [] _ rfl (evaluate_x _)⟩

end Gathering

end Formulary
