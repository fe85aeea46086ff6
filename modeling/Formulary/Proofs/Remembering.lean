import Formulary.Proofs.Inquiry
import Mathlib.Order.Filter.AtTopBot.Basic

/-!
# Remembering answers

Every member of a library asks for attributes, which are members in turn. These questions can be
answered with a memo (`remember`) or without one (`solve`). What is in a memo that was filled by
answering questions is what would be found without it, and whatever an entry rests on is in the memo
too (`Env.Sound`, `advances_remember`). So an answer does not change when more is remembered
(`remember_of_below`): this needs the second part as well, because a memo must not make questions
nest deeper than they would without it.
-/

namespace Formulary

open Filter

variable {α β : Type}

/-! ### Keys -/

/-- Two references to one node type. -/
def NodeRef.SamePlace (a b : NodeRef) : Prop := a.module = b.module ∧ a.index = b.index

theorem NodeRef.SamePlace.getD {a b : NodeRef} (h : a.SamePlace b) (other : Option NodeRef) :
    (other.getD a).SamePlace (other.getD b) := by
  cases other with
  | none => exact h
  | some ref => exact ⟨rfl, rfl⟩

theorem Library.slot?_of_samePlace (lib : Library) {a b : NodeRef} (h : a.SamePlace b)
    (attr : String) : lib.slot? a attr = lib.slot? b attr := by
  simp only [Library.slot?, Library.node?, h.1, h.2]

/-- Members of one node have different numbers. -/
def Library.Numbered (lib : Library) : Prop :=
  ∀ {node attr attr' slot slot'}, lib.slot? node attr = some slot →
    lib.slot? node attr' = some slot' → slot.id = slot'.id → attr = attr'

/-- If two members are kept in one place, they are one. -/
theorem Library.Numbered.same {lib : Library} (numbered : lib.Numbered) {node node' : NodeRef}
    {attr attr' : String} {slot slot' : Slot} (h : lib.slot? node attr = some slot)
    (h' : lib.slot? node' attr' = some slot') (key : node.key slot = node'.key slot') :
    node.SamePlace node' ∧ attr = attr' ∧ slot = slot' := by
  have place : node.SamePlace node' :=
    ⟨congrArg MemoKey.module key, congrArg MemoKey.node key⟩
  rw [← lib.slot?_of_samePlace place] at h'
  have name : attr = attr' := numbered h h' (congrArg MemoKey.slot key)
  subst name
  exact ⟨place, rfl, Option.some.inj (h.symm.trans h')⟩

/-! ### Answers with and without a memo -/

/-- An evaluation was not cut short. -/
def Ended (result : Except Stop α) : Prop := result ≠ .error .exhausted

theorem ended_ok (a : α) : Ended (.ok a) := fun h ↦ by cases h

theorem Ended.stop {stop : Stop} (h : Ended (.error stop : Except Stop α)) :
    Ended (.error stop : Except Stop β) := by
  intro same
  cases same
  exact h rfl

theorem Ended.of_within {stop : Stop} {frame : Fault.Frame}
    (h : Ended (.error (stop.within frame) : Except Stop α)) :
    Ended (.error stop : Except Stop α) := by
  intro same
  cases same
  exact h rfl

/-- Why an attribute cannot be read that a node does not have. -/
def noAttribute (node : NodeRef) (attr : String) : Stop :=
  .fault ⟨.invalidAttribute attr s!"node {node.name}" "no such attribute", []⟩

/-- Evaluations in one environment. -/
abbrev Remembering := ExceptT Stop (StateM Env)

section

variable (lib : Library) (tree : Slot → Inquiry Value)

/-- The answer to a question, from the memo if it is there; else it is found and remembered. -/
def remember : (depth : Nat) → NodeRef → String → Remembering Value
  | 0, _, _ => throw .exhausted
  | depth + 1, node, attr =>
    match lib.slot? node attr with
    | none => throw (noAttribute node attr)
    | some slot => do
      match (← get).cached? (node.key slot) with
      | some v => return v
      | none =>
        let v ← tryCatch ((tree slot).interpret fun other ↦ remember depth (other.getD node))
          fun stop ↦ throw (stop.within slot.frame)
        modify (·.store (node.key slot) v)
        return v

/-- The answer to a question, found without a memo. -/
def solve : (depth : Nat) → NodeRef → String → Except Stop Value
  | 0, _, _ => .error .exhausted
  | depth + 1, node, attr =>
    match lib.slot? node attr with
    | none => .error (noAttribute node attr)
    | some slot =>
      ((tree slot).interpret fun other ↦ solve depth (other.getD node)).mapError
        (Stop.within slot.frame)

/-- The answer to a question if it is in the memo. -/
def known (e : Env) (node : NodeRef) (attr : String) : Except Stop Value :=
  match lib.slot? node attr with
  | none => .error (noAttribute node attr)
  | some slot =>
    match e.cached? (node.key slot) with
    | some v => .ok v
    | none => .error .exhausted

/-- Without a memo a question has this answer if one goes deep enough. -/
def Settles (node : NodeRef) (attr : String) (result : Except Stop Value) : Prop :=
  ∀ᶠ depth in atTop, solve lib tree depth node attr = result

end

section

variable {lib : Library} {tree : Slot → Inquiry Value} {node : NodeRef} {attr : String}
  {slot : Slot} {v : Value} {e e' : Env} {depth : Nat}

theorem run_remember_none (h : lib.slot? node attr = none) :
    (remember lib tree (depth + 1) node attr).run.run e = (.error (noAttribute node attr), e) := by
  simp only [remember, h]
  rfl

theorem run_remember_hit (h : lib.slot? node attr = some slot)
    (cached : e.cached? (node.key slot) = some v) :
    (remember lib tree (depth + 1) node attr).run.run e = (.ok v, e) := by
  simp only [remember, h]
  change ((match e.cached? (node.key slot) with
    | some v => pure v
    | none => _ : Remembering Value).run.run e) = _
  rw [cached]
  rfl

theorem run_remember_miss (h : lib.slot? node attr = some slot)
    (cached : e.cached? (node.key slot) = none) :
    (remember lib tree (depth + 1) node attr).run.run e =
      match ((tree slot).interpret fun other ↦
        remember lib tree depth (other.getD node)).run.run e with
      | (.ok v, e') => (.ok v, e'.store (node.key slot) v)
      | (.error stop, e') => (.error (stop.within slot.frame), e') := by
  simp only [remember, h]
  change ((match e.cached? (node.key slot) with
    | some v => pure v
    | none => _ : Remembering Value).run.run e) = _
  rw [cached]
  simp only [run_bind, run_tryCatch]
  cases ((tree slot).interpret fun other ↦ remember lib tree depth (other.getD node)).run.run e with
  | mk result e' =>
    cases result with
    | ok v => rfl
    | error stop => rfl

theorem known_eq_ok_iff (h : lib.slot? node attr = some slot) :
    known lib e node attr = .ok v ↔ e.cached? (node.key slot) = some v := by
  simp only [known, h]
  cases e.cached? (node.key slot) with
  | none => simp
  | some u => simp

/-- An inquiry that asks for an attribute: the answer, and then the rest. -/
theorem run_interpret_ask (answer : Option NodeRef → String → Remembering Value)
    (other : Option NodeRef) (attr : String) (next : Value → Inquiry α) (e : Env) :
    ((Inquiry.ask other attr next).interpret answer).run.run e =
      match (answer other attr).run.run e with
      | (.ok v, e') => ((next v).interpret answer).run.run e'
      | (.error stop, e') => (.error stop, e') := by
  rw [Inquiry.interpret, run_bind]
  cases (answer other attr).run.run e with
  | mk result e' => cases result <;> rfl

theorem run_interpret_done (answer : Option NodeRef → String → Remembering Value)
    (result : Except Stop α) (e : Env) :
    ((Inquiry.done result).interpret answer).run.run e = (result, e) := by
  cases result with
  | ok a => rfl
  | error stop => rfl

theorem interpret_done (answer : Option NodeRef → String → Except Stop Value)
    (result : Except Stop α) : (Inquiry.done result).interpret answer = result := by
  cases result with
  | ok a => rfl
  | error stop => rfl

/-- What comes of given answers is not changed by answers to further questions. -/
theorem interpret_eq_ok_of_imp {answer answer' : Option NodeRef → String → Except Stop Value}
    (h : ∀ other attr v, answer other attr = .ok v → answer' other attr = .ok v) {a : α} :
    ∀ t : Inquiry α, t.interpret answer = .ok a → t.interpret answer' = .ok a
  | .done result, ht => by
    rw [interpret_done] at ht ⊢
    exact ht
  | .ask other attr next, ht => by
    obtain ⟨v, hv, rest⟩ := bind_eq_ok ht
    simp only [Inquiry.interpret, h other attr v hv]
    exact interpret_eq_ok_of_imp h (next v) rest

/-! ### Names do not matter -/

theorem known_of_samePlace {node' : NodeRef} (place : node.SamePlace node')
    (h : known lib e node attr = .ok v) : known lib e node' attr = .ok v := by
  cases found : lib.slot? node attr with
  | none =>
    simp only [known, found] at h
    cases h
  | some slot =>
    have found' := found
    rw [lib.slot?_of_samePlace place] at found'
    rw [known_eq_ok_iff found] at h
    rw [known_eq_ok_iff found', ← h, NodeRef.key, NodeRef.key, place.1, place.2]

theorem solve_of_samePlace {node' : NodeRef} (place : node.SamePlace node')
    (h : solve lib tree depth node attr = .ok v) : solve lib tree depth node' attr = .ok v := by
  induction depth generalizing node node' attr v with
  | zero => cases h
  | succ depth ih =>
    simp only [solve, ← lib.slot?_of_samePlace place] at h ⊢
    cases found : lib.slot? node attr with
    | none =>
      rw [found] at h
      cases h
    | some slot =>
      rw [found] at h
      dsimp only at h ⊢
      cases inner : (tree slot).interpret fun other ↦ solve lib tree depth (other.getD node) with
      | error stop =>
        rw [inner] at h
        cases h
      | ok u =>
        rw [inner] at h
        have same := interpret_eq_ok_of_imp
          (fun other attr v hv ↦ ih (place.getD other) hv) (tree slot) inner
        rw [same]
        exact h

/-! ### What a memo holds -/

/-- One environment remembers all that another one does. -/
def Env.Below (e e' : Env) : Prop := ∀ {key v}, e.cached? key = some v → e'.cached? key = some v

theorem known_of_below (below : e.Below e') (h : known lib e node attr = .ok v) :
    known lib e' node attr = .ok v := by
  cases found : lib.slot? node attr with
  | none =>
    simp only [known, found] at h
    cases h
  | some slot =>
    rw [known_eq_ok_iff found] at h ⊢
    exact below h

variable (lib tree) in
/-- What is remembered are the answers that would be found without a memo, and each of them follows
from other answers that are remembered. -/
structure Env.Sound (e : Env) : Prop where
  settled : ∀ {node attr slot v}, lib.slot? node attr = some slot →
    e.cached? (node.key slot) = some v → Settles lib tree node attr (.ok v)
  closed : ∀ {node attr slot v}, lib.slot? node attr = some slot →
    e.cached? (node.key slot) = some v →
    (tree slot).interpret (fun other ↦ known lib e (other.getD node)) = .ok v

theorem Env.sound_of_empty (h : ∀ key, e.cached? key = none) : e.Sound lib tree where
  settled _ cached := by
    rw [h] at cached
    cases cached
  closed _ cached := by
    rw [h] at cached
    cases cached

theorem Settles.unique {result result' : Except Stop Value}
    (h : Settles lib tree node attr result) (h' : Settles lib tree node attr result') :
    result = result' := by
  obtain ⟨depth, here, here'⟩ := (Eventually.and h h').exists
  exact here.symm.trans here'

theorem settles_of_succ {result : Except Stop Value}
    (h : ∀ᶠ depth in atTop, solve lib tree (depth + 1) node attr = result) :
    Settles lib tree node attr result := by
  obtain ⟨least, deep⟩ := eventually_atTop.mp h
  refine eventually_atTop.mpr ⟨least + 1, fun depth hd ↦ ?_⟩
  obtain ⟨depth, rfl⟩ : ∃ d, depth = d + 1 := ⟨depth - 1, by omega⟩
  exact deep depth (by omega)

/-- An answer that was found is remembered without harm. -/
theorem Env.Sound.store (numbered : lib.Numbered) (sound : e.Sound lib tree)
    (found : lib.slot? node attr = some slot) (settles : Settles lib tree node attr (.ok v))
    (follows : (tree slot).interpret (fun other ↦ known lib e (other.getD node)) = .ok v) :
    e.Below (e.store (node.key slot) v) ∧ (e.store (node.key slot) v).Sound lib tree := by
  have below : e.Below (e.store (node.key slot) v) := by
    intro key u hu
    rw [Env.cached?_store]
    by_cases same : node.key slot = key
    · -- The member was computed while it was being computed: both times the answer is the same.
      rw [if_pos same, ← Except.ok.inj ((sound.settled found (same ▸ hu)).unique settles)]
    · rw [if_neg same, hu]
  refine ⟨below, fun {node' attr' slot' u} found' cached ↦ ?_,
    fun {node' attr' slot' u} found' cached ↦ ?_⟩
  all_goals rw [Env.cached?_store] at cached
  · by_cases key : node.key slot = node'.key slot'
    · obtain ⟨place, rfl, rfl⟩ := numbered.same found found' key
      rw [if_pos key] at cached
      cases cached
      exact settles.mono fun depth h ↦ solve_of_samePlace place h
    · rw [if_neg key] at cached
      exact sound.settled found' cached
  · by_cases key : node.key slot = node'.key slot'
    · obtain ⟨place, rfl, rfl⟩ := numbered.same found found' key
      rw [if_pos key] at cached
      cases cached
      exact interpret_eq_ok_of_imp (fun other attr v h ↦
        known_of_below below (known_of_samePlace (place.getD other) h)) (tree slot) follows
    · rw [if_neg key] at cached
      exact interpret_eq_ok_of_imp (fun other attr v h ↦ known_of_below below h) (tree slot')
        (sound.closed found' cached)

/-! ### Filling a memo -/

/-- A result with the memo after it: the memo is still sound and has lost nothing, the result is
what is found without a memo, and if it is a value it can be read off the memo. -/
structure Advances (lib : Library) (tree : Slot → Inquiry Value) (e : Env)
    (out : Except Stop α × Env) (direct : Nat → Except Stop α) (looked : Env → Except Stop α) :
    Prop where
  sound : out.2.Sound lib tree
  below : e.Below out.2
  settles : Ended out.1 → ∀ᶠ depth in atTop, direct depth = out.1
  looks : ∀ a, out.1 = .ok a → looked out.2 = .ok a

/-- Answers that fill the memo well make inquiries fill it well. -/
theorem advances_interpret (node : NodeRef) (answers : ∀ (node : NodeRef) (attr : String) (e : Env),
      e.Sound lib tree → Advances lib tree e ((remember lib tree depth node attr).run.run e)
        (fun d ↦ solve lib tree d node attr) (fun e ↦ known lib e node attr)) :
    ∀ (t : Inquiry α) (e : Env), e.Sound lib tree →
      Advances lib tree e
        ((t.interpret fun other ↦ remember lib tree depth (other.getD node)).run.run e)
        (fun d ↦ t.interpret fun other ↦ solve lib tree d (other.getD node))
        (fun e ↦ t.interpret fun other ↦ known lib e (other.getD node))
  | .done result, e, sound => by
    rw [run_interpret_done]
    refine ⟨sound, fun h ↦ h, fun _ ↦ .of_forall fun d ↦ interpret_done _ _, fun a ha ↦ ?_⟩
    rw [interpret_done]
    exact ha
  | .ask other attr next, e, sound => by
    have first := answers (other.getD node) attr e sound
    rw [run_interpret_ask]
    cases ran : (remember lib tree depth (other.getD node) attr).run.run e with
    | mk result e₁ =>
      rw [ran] at first
      cases result with
      | error stop =>
        refine ⟨first.sound, first.below, fun h ↦ ?_, fun a ha ↦ by cases ha⟩
        filter_upwards [first.settles h.stop] with d hd
        simp only [Inquiry.interpret, hd]
        rfl
      | ok v =>
        have rest := advances_interpret node answers (next v) e₁ first.sound
        refine ⟨rest.sound, fun h ↦ rest.below (first.below h), fun h ↦ ?_, fun a ha ↦ ?_⟩
        · filter_upwards [first.settles (ended_ok v), rest.settles h] with d hv hd
          simp only [Inquiry.interpret, hv]
          exact hd
        · have here : known lib _ (other.getD node) attr = .ok v :=
            known_of_below rest.below (first.looks v rfl)
          simp only [Inquiry.interpret]
          rw [here]
          exact rest.looks a ha

/-- Answering a question fills the memo well, however deep questions may nest. -/
theorem advances_remember (numbered : lib.Numbered) (depth : Nat) :
    ∀ (node : NodeRef) (attr : String) (e : Env), e.Sound lib tree →
      Advances lib tree e ((remember lib tree depth node attr).run.run e)
        (fun d ↦ solve lib tree d node attr) (fun e ↦ known lib e node attr) := by
  induction depth with
  | zero =>
    intro node attr e sound
    exact ⟨sound, fun h ↦ h, fun h ↦ absurd rfl h, fun a ha ↦ by cases ha⟩
  | succ depth ih =>
    intro node attr e sound
    cases found : lib.slot? node attr with
    | none =>
      rw [run_remember_none found]
      refine ⟨sound, fun h ↦ h, fun _ ↦ settles_of_succ (.of_forall fun d ↦ ?_),
        fun a ha ↦ by cases ha⟩
      simp only [solve, found]
    | some slot =>
      cases cached : e.cached? (node.key slot) with
      | some v =>
        rw [run_remember_hit found cached]
        refine ⟨sound, fun h ↦ h, fun _ ↦ sound.settled found cached, fun a ha ↦ ?_⟩
        cases ha
        exact (known_eq_ok_iff found).mpr cached
      | none =>
        have body := advances_interpret node ih (tree slot) e sound
        rw [run_remember_miss found cached]
        cases ran : ((tree slot).interpret fun other ↦
            remember lib tree depth (other.getD node)).run.run e with
        | mk result e₁ =>
          rw [ran] at body
          cases result with
          | error stop =>
            refine ⟨body.sound, body.below, fun h ↦ settles_of_succ ?_, fun a ha ↦ by cases ha⟩
            filter_upwards [body.settles h.of_within] with d hd
            simp only [solve, found, hd]
            rfl
          | ok v =>
            have settles : Settles lib tree node attr (.ok v) := by
              refine settles_of_succ ?_
              filter_upwards [body.settles (ended_ok v)] with d hd
              simp only [solve, found, hd]
              rfl
            obtain ⟨below, sound'⟩ :=
              body.sound.store numbered found settles (body.looks v rfl)
            refine ⟨sound', fun h ↦ below (body.below h), fun _ ↦ settles, fun a ha ↦ ?_⟩
            cases ha
            rw [known_eq_ok_iff found, Env.cached?_store, if_pos rfl]

/-! ### Remembering more -/

/-- Questions whose answers are all in some memo add nothing to a smaller one that is not in it. -/
theorem covered_interpret {above : Env} (node : NodeRef)
    (covered : ∀ {node : NodeRef} {attr : String} {e e' : Env} {result : Except Stop Value},
      e.Below above → (remember lib tree depth node attr).run.run e = (result, e') → Ended result →
      Ended (known lib above node attr) → result = known lib above node attr ∧ e'.Below above) :
    ∀ (t : Inquiry α) {e e' : Env} {result : Except Stop α}, e.Below above →
      (t.interpret fun other ↦ remember lib tree depth (other.getD node)).run.run e = (result, e') →
      Ended result → Ended (t.interpret fun other ↦ known lib above (other.getD node)) →
      result = (t.interpret fun other ↦ known lib above (other.getD node)) ∧ e'.Below above
  | .done result, e, e', r, below, ran, _, _ => by
    rw [run_interpret_done] at ran
    cases ran
    exact ⟨(interpret_done _ _).symm, below⟩
  | .ask other attr next, e, e', r, below, ran, ended, ended' => by
    rw [run_interpret_ask] at ran
    have looked : Ended (known lib above (other.getD node) attr) := by
      intro cut
      simp only [Inquiry.interpret, cut] at ended'
      exact ended' rfl
    cases first : (remember lib tree depth (other.getD node) attr).run.run e with
    | mk answer e₁ =>
      rw [first] at ran
      cases answer with
      | error stop =>
        cases ran
        obtain ⟨same, below'⟩ := covered below first ended.stop looked
        simp only [Inquiry.interpret, ← same]
        exact ⟨rfl, below'⟩
      | ok v =>
        obtain ⟨same, below'⟩ := covered below first (ended_ok v) looked
        simp only [Inquiry.interpret, ← same] at ended' ⊢
        exact covered_interpret node covered (next v) below' ran ended ended'

/-- An answer that is in a sound memo is the one that a smaller memo leads to, and finding it adds
nothing to the smaller memo that is not in the other one. -/
theorem covered_remember {above : Env} (sound : above.Sound lib tree) (depth : Nat) :
    ∀ {node : NodeRef} {attr : String} {e e' : Env} {result : Except Stop Value},
      e.Below above → (remember lib tree depth node attr).run.run e = (result, e') → Ended result →
      Ended (known lib above node attr) →
      result = known lib above node attr ∧ e'.Below above := by
  induction depth with
  | zero =>
    intro node attr e e' result below ran ended
    cases ran
    exact absurd rfl ended
  | succ depth ih =>
    intro node attr e e' result below ran ended looked
    cases found : lib.slot? node attr with
    | none =>
      rw [run_remember_none found] at ran
      cases ran
      simp only [known, found]
      exact ⟨trivial, below⟩
    | some slot =>
      cases cached : e.cached? (node.key slot) with
      | some v =>
        rw [run_remember_hit found cached] at ran
        cases ran
        exact ⟨((known_eq_ok_iff found).mpr (below cached)).symm, below⟩
      | none =>
        -- What the larger memo holds follows from what else it holds.
        obtain ⟨v, hv⟩ : ∃ v, above.cached? (node.key slot) = some v := by
          cases there : above.cached? (node.key slot) with
          | some v => exact ⟨v, rfl⟩
          | none =>
            simp only [known, found, there] at looked
            exact absurd rfl looked
        have follows := sound.closed found hv
        have answer := (known_eq_ok_iff found).mpr hv
        rw [run_remember_miss found cached] at ran
        cases inner : ((tree slot).interpret fun other ↦
            remember lib tree depth (other.getD node)).run.run e with
        | mk r e₁ =>
          rw [inner] at ran
          cases r with
          | error stop =>
            cases ran
            obtain ⟨same, -⟩ := covered_interpret node ih (tree slot) below inner ended.of_within
              (follows ▸ ended_ok v)
            rw [follows] at same
            cases same
          | ok u =>
            cases ran
            obtain ⟨same, below'⟩ := covered_interpret node ih (tree slot) below inner (ended_ok u)
              (follows ▸ ended_ok v)
            rw [follows] at same
            cases same
            refine ⟨answer.symm, fun {key w} hw ↦ ?_⟩
            rw [Env.cached?_store] at hw
            split at hw
            · next here =>
              cases hw
              rw [← here, hv]
            · exact below' hw

/-- Questions have the same answers if more is remembered, and then too more is remembered. -/
theorem interpret_of_below (numbered : lib.Numbered) (node : NodeRef)
    (remembers : ∀ {node : NodeRef} {attr : String} {e e' above : Env} {result : Except Stop Value},
      above.Sound lib tree → e.Below above →
      (remember lib tree depth node attr).run.run e = (result, e') → Ended result →
      ∃ above', (remember lib tree depth node attr).run.run above = (result, above') ∧
        e'.Below above') :
    ∀ (t : Inquiry α) {e e' above : Env} {result : Except Stop α}, above.Sound lib tree →
      e.Below above →
      (t.interpret fun other ↦ remember lib tree depth (other.getD node)).run.run e = (result, e') →
      Ended result → ∃ above',
        (t.interpret fun other ↦ remember lib tree depth (other.getD node)).run.run above =
          (result, above') ∧ e'.Below above'
  | .done result, e, e', above, r, sound, below, ran, _ => by
    rw [run_interpret_done] at ran ⊢
    cases ran
    exact ⟨above, rfl, below⟩
  | .ask other attr next, e, e', above, r, sound, below, ran, ended => by
    rw [run_interpret_ask] at ran ⊢
    cases first : (remember lib tree depth (other.getD node) attr).run.run e with
    | mk answer e₁ =>
      rw [first] at ran
      cases answer with
      | error stop =>
        cases ran
        obtain ⟨above', same, below'⟩ := remembers sound below first ended.stop
        rw [same]
        exact ⟨above', rfl, below'⟩
      | ok v =>
        obtain ⟨above₁, same, below₁⟩ := remembers sound below first (ended_ok v)
        have sound₁ := (advances_remember numbered depth (other.getD node) attr above sound).sound
        rw [same] at sound₁ ⊢
        exact interpret_of_below numbered node remembers (next v) sound₁ below₁ ran ended

/-- A question has the same answer if more is remembered. -/
theorem remember_of_below (numbered : lib.Numbered) (depth : Nat) :
    ∀ {node : NodeRef} {attr : String} {e e' above : Env} {result : Except Stop Value},
      above.Sound lib tree → e.Below above →
      (remember lib tree depth node attr).run.run e = (result, e') → Ended result →
      ∃ above', (remember lib tree depth node attr).run.run above = (result, above') ∧
        e'.Below above' := by
  induction depth with
  | zero =>
    intro node attr e e' above result sound below ran ended
    cases ran
    exact absurd rfl ended
  | succ depth ih =>
    intro node attr e e' above result sound below ran ended
    cases found : lib.slot? node attr with
    | none =>
      rw [run_remember_none found] at ran ⊢
      cases ran
      exact ⟨above, rfl, below⟩
    | some slot =>
      cases there : above.cached? (node.key slot) with
      | some v =>
        have answer := (known_eq_ok_iff found).mpr there
        obtain ⟨same, below'⟩ :=
          covered_remember sound (depth + 1) below ran ended (answer ▸ ended_ok v)
        rw [same, answer]
        exact ⟨above, run_remember_hit found there, below'⟩
      | none =>
        have cached : e.cached? (node.key slot) = none := by
          cases here : e.cached? (node.key slot) with
          | none => rfl
          | some v =>
            rw [below here] at there
            cases there
        rw [run_remember_miss found cached] at ran
        rw [run_remember_miss found there]
        cases inner : ((tree slot).interpret fun other ↦
            remember lib tree depth (other.getD node)).run.run e with
        | mk r e₁ =>
          rw [inner] at ran
          cases r with
          | error stop =>
            cases ran
            obtain ⟨above', same, below'⟩ :=
              interpret_of_below numbered node ih (tree slot) sound below inner ended.of_within
            rw [same]
            exact ⟨above', rfl, below'⟩
          | ok v =>
            cases ran
            obtain ⟨above', same, below'⟩ :=
              interpret_of_below numbered node ih (tree slot) sound below inner (ended_ok v)
            rw [same]
            refine ⟨_, rfl, fun {key w} hw ↦ ?_⟩
            rw [Env.cached?_store] at hw ⊢
            split at hw
            · next here => rw [if_pos here, hw]
            · next other => rw [if_neg other, below' hw]

/-! ### Several questions -/

/-- Questions that are answered in turn have the answers that each has by itself. -/
theorem mapM_remember (numbered : lib.Numbered) {start : Env} (attrs : List String) {e : Env}
    (sound : e.Sound lib tree) (below : start.Below e)
    (ended : ∀ attr ∈ attrs, Ended ((remember lib tree depth node attr).run.run start).1) :
    ((attrs.mapM (remember lib tree depth node)).run.run e).1 =
      attrs.mapM fun attr ↦ ((remember lib tree depth node attr).run.run start).1 := by
  induction attrs generalizing e with
  | nil => rfl
  | cons attr attrs ih =>
    obtain ⟨here, later⟩ := List.forall_mem_cons.mp ended
    rw [List.mapM_cons, List.mapM_cons]
    cases alone : (remember lib tree depth node attr).run.run start with
    | mk answer e₀ =>
      rw [alone] at here
      obtain ⟨e₁, same, -⟩ := remember_of_below numbered depth sound below alone here
      have first := advances_remember numbered depth node attr e sound
      rw [same] at first
      rw [run_bind, same]
      cases answer with
      | error stop => rfl
      | ok v =>
        have rest := ih first.sound (fun h ↦ first.below (below h)) later
        change (((attrs.mapM (remember lib tree depth node)) >>= fun vs ↦
          (pure (v :: vs) : Remembering (List Value))).run.run e₁).1 = _
        rw [run_bind, ← rest]
        cases (attrs.mapM (remember lib tree depth node)).run.run e₁ with
        | mk answers e₂ =>
          cases answers with
          | error stop | ok vs => rfl

end

end Formulary
