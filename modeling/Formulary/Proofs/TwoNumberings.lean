import Formulary.Host.Samples
import Formulary.Proofs.Matching
import Formulary.Proofs.RenumberedValues
import Formulary.Proofs.Twins

/-!
# Evaluations under two numberings

Two libraries may have the same modules under different numbers, and each may have modules of its
own. Evaluations that begin with what is common to both never get beyond it, and go the same way on
both sides: they give the same results up to the numbers, and leave the same behind. Here this is
said of the steps that evaluations consist of: reading and storing attributes, calls of the host and
of methods (`Numbering.Mirrors.callMethod`), and reading attributes of a node call.

What is common is told from what is not by two numberings that differ on everything else. A value
that is the same in both numberings mentions common modules only.
-/

namespace Formulary

variable {σ : Type}

/-! ### Things with numbers in them -/

/-- The same attribute of a module with another number. -/
def MemoKey.renumber (f : Nat → Nat) (key : MemoKey) : MemoKey :=
  { key with module := f key.module }

theorem MemoKey.renumber_injective {f : Nat → Nat} (inj : Function.Injective f) :
    Function.Injective (MemoKey.renumber f) := by
  intro a b same
  cases a
  cases b
  simp only [MemoKey.renumber, MemoKey.mk.injEq] at same ⊢
  exact ⟨inj same.1, same.2⟩

/-- Renumbers what is logged. -/
def Event.renumber (f : Nat → Nat) : Event → Event
  | entered env key frame => entered env (key.renumber f) frame
  | left env key value => left env (key.renumber f) (value.map (Value.renumber f))
  | method home receiver name args =>
    method (f home) (receiver.renumber f) name (args.map (Value.renumber f))
  | function type name args => function type name (args.map (Value.renumber f))

/-- Renumbers where code runs. -/
def Context.renumber (f : Nat → Nat) (cx : Context) : Context :=
  { cx with node := cx.node.renumber f, home := f cx.home }

/-- The same environment, up to the numbers of modules. -/
structure Env.Renumbered (f : Nat → Nat) (e e' : Env) : Prop where
  params : e'.params = e.params.map (Value.renumberEntry f)
  memo : ∀ key : MemoKey, e'.memo[key.renumber f]? = e.memo[key]?.map (Value.renumber f)

theorem Env.Renumbered.store {f : Nat → Nat} {e e' : Env} (inj : Function.Injective f)
    (h : e.Renumbered f e') (key : MemoKey) (v : Value) :
    (e.store key v).Renumbered f (e'.store (key.renumber f) (v.renumber f)) := by
  refine ⟨h.params, fun other ↦ ?_⟩
  simp only [Env.store, Std.HashMap.getElem?_insert, beq_iff_eq, h.memo,
    (MemoKey.renumber_injective inj).eq_iff]
  split <;> rfl

/-- A host to which the numbers of modules mean nothing: its code does the same whatever they are.
The host's states may have values in them, which are renumbered too. -/
structure Host.Blind (h : Host σ) where
  renumber : (Nat → Nat) → σ → σ
  function : ∀ c ∈ h.classes, ∀ fn ∈ c.functions, ∀ f : Nat → Nat, Function.Injective f →
    ∀ args state, (fn.run (args.map (Value.renumber f))).run.run (renumber f state) =
      Prod.map (Except.map (Value.renumber f)) (renumber f) ((fn.run args).run.run state)
  invoke : ∀ handle method, ∀ f : Nat → Nat, Function.Injective f →
    ∀ args state,
      (h.invoke handle method (args.map (Value.renumber f))).run.run (renumber f state) =
        Prod.map (Except.map (Value.renumber f)) (renumber f)
          ((h.invoke handle method args).run.run state)

/-- The same world, up to the numbers of modules. -/
structure World.Renumbered (f : Nat → Nat) (state : (Nat → Nat) → σ → σ) (w w' : World σ) :
    Prop where
  size : w'.envs.size = w.envs.size
  envs : ∀ i : Nat, Option.Rel (Env.Renumbered f) w.envs[i]? w'.envs[i]?
  host : w'.host = state f w.host
  log : w'.log = w.log.map (List.map (Event.renumber f))

/-! ### A blind host -/

namespace Samples

open Value (renumber)

variable {f : Nat → Nat}

/-- Host code that gives the same whatever the numbers of modules are, and remembers none. -/
def Natural (f : Nat → Nat) (code : List Value → HostM State Value) : Prop :=
  ∀ args state, (code (args.map (renumber f))).run.run state =
    Prod.map (Except.map (renumber f)) id ((code args).run.run state)

theorem natural_counter : ∀ fn ∈ counter.functions, Natural f fn.run := by
  simp only [counter, List.forall_mem_cons]
  refine ⟨fun args state ↦ rfl, fun args state ↦ ?_, List.forall_mem_nil _⟩
  rcases args with _ | ⟨a, _ | ⟨b, _ | ⟨c, rest⟩⟩⟩
  · rfl
  · cases a <;> rfl
  all_goals cases a <;> cases b <;> rfl

theorem largest_of_other {v : Value} (other : v.asInt? = none) (rest : List Value) :
    largest (v :: rest) = throw s!"not a number: {v.inspect}" := by
  cases v <;> first | rfl | cases other

theorem largest_renumber (args : List Value) : largest (args.map (renumber f)) = largest args := by
  induction args with
  | nil => rfl
  | cons v rest ih =>
    cases h : v.asInt? with
    | none =>
      rw [List.map_cons, largest_of_other h, largest_of_other (by simpa using h),
        Value.inspect_renumber]
    | some n =>
      cases v <;> cases h
      cases rest with
      | nil => rfl
      | cons w rest =>
        rw [List.map_cons] at ih ⊢
        rw [List.map_cons, Value.renumber_int, largest, largest, ih] <;> simp

theorem natural_stats : ∀ fn ∈ stats.functions, Natural f fn.run := by
  simp only [stats, List.forall_mem_cons]
  refine ⟨fun args state ↦ ?_, List.forall_mem_nil _⟩
  simp only [largest_renumber]
  cases largest args <;> rfl

theorem record_renumber (type : String) (entries : List (Value × Value)) :
    .record type (Indexed.ofEntries
        ((entries.map (Value.renumberEntry f)).map (Prod.map Value.text id))) =
      renumber f (.record type (Indexed.ofEntries (entries.map (Prod.map Value.text id)))) := by
  rw [Value.renumber_record, Indexed.ofEntries_eq, Indexed.ofEntries_eq]
  refine congrArg _ (Eq.trans ?_ (Ordered.ofEntries_map (fun _ _ ↦ rfl) (renumber f) _))
  simp only [List.map_map, Function.comp_def, Value.renumberEntry, Prod.map, Value.text_renumber,
    id]

theorem natural_make : ∀ fn ∈ make.functions, Natural f fn.run := by
  simp only [make, List.forall_mem_cons]
  refine ⟨?_, ?_, ?_, ?_, ?_, List.forall_mem_nil _⟩ <;> intro args state
  · rcases args with _ | ⟨a, _ | ⟨b, _ | ⟨c, rest⟩⟩⟩
    · rfl
    · cases a <;> rfl
    all_goals cases a <;> cases b <;> rfl
  · cases args <;> rfl
  · simp only [List.map_map, Function.comp_def, Value.text_renumber]
    rfl
  · rcases args with _ | ⟨a, _ | ⟨b, _ | ⟨c, rest⟩⟩⟩
    · rfl
    · cases a <;> rfl
    · cases a <;> cases b
      case str.map type entries =>
        rw [List.map_cons, List.map_cons, List.map_nil, Value.renumber_str, Value.renumber_map]
        exact congrArg (fun v ↦ (Except.ok v, state)) (record_renumber type entries)
      all_goals rfl
    · cases a <;> cases b <;> rfl
  · rcases args with _ | ⟨a, _ | ⟨b, rest⟩⟩
    · rfl
    all_goals cases a <;> rfl

theorem natural_invoke (handle : Nat) (method : String) : Natural f (invoke handle method) := by
  intro args state
  have start : (get : HostM State State).run.run state = (.ok state, state) := rfl
  simp only [invoke, run_bind, start]
  split
  · next found =>
    rw [found, List.length_map]
    rfl
  · next found none =>
    rw [List.map_eq_nil_iff.mp none, found]
    rfl
  · next found none =>
    rw [List.map_eq_nil_iff.mp none, found]
    rfl
  · next n found one =>
    obtain ⟨v, rfl, hv⟩ := List.map_eq_singleton_iff.mp one
    cases v <;> cases hv
    rw [found]
    rfl
  · next sealed year month later =>
    split
    · next found => cases sealed _ found
    · next found => cases year _ _ found rfl rfl
    · next found => cases month _ _ found rfl rfl
    · next found => cases later _ _ _ found rfl rfl
    · rfl

/-- The code of the sample host looks at no numbers of modules, and none of its objects has any. -/
def blind : host.Blind where
  renumber _ state := state
  function c hc fn hf f inj := by
    simp only [host, classes, List.mem_cons, List.not_mem_nil, or_false] at hc
    rcases hc with rfl | rfl | rfl
    · exact natural_counter fn hf
    · exact natural_stats fn hf
    · exact natural_make fn hf
  invoke handle method f inj := natural_invoke handle method

end Samples

/-! ### Two numberings -/

/-- Two ways to number modules. What both agree on is common to two libraries. -/
structure Numbering where
  number : Bool → Nat → Nat
  injective : ∀ b, Function.Injective (number b)

namespace Numbering

variable {n : Numbering} {α β : Type}

/-- Values that are the same on both sides. -/
abbrev Values (n : Numbering) (v v' : Value) : Prop := ∀ way, v.renumber (n.number way) = v'

/-- Nodes that are the same on both sides. -/
abbrev Refs (n : Numbering) (ref ref' : NodeRef) : Prop := ∀ way, ref.renumber (n.number way) = ref'

/-- Attributes that are the same on both sides. -/
abbrev Keys (n : Numbering) (key key' : MemoKey) : Prop := ∀ way, key.renumber (n.number way) = key'

/-- Values that are the same on both sides, if there are any. -/
abbrev Options (n : Numbering) (v v' : Option Value) : Prop :=
  ∀ way, v.map (Value.renumber (n.number way)) = v'

/-- Lists of values that are the same on both sides. -/
abbrev Lists (n : Numbering) (vs vs' : List Value) : Prop :=
  ∀ way, vs.map (Value.renumber (n.number way)) = vs'

/-- Entries that are the same on both sides. -/
abbrev Entries (n : Numbering) (es es' : List (Value × Value)) : Prop :=
  ∀ way, es.map (Value.renumberEntry (n.number way)) = es'

/-- Worlds that are the same on both sides. -/
def Worlds (n : Numbering) (state : (Nat → Nat) → σ → σ) (w w' : World σ) : Prop :=
  ∀ way, w.Renumbered (n.number way) state w'

section

variable {g : Bool → α → β}

/-- What is the same in both numberings is the same on both sides. -/
theorem forall_way {a : α} (same : g false a = g true a) : ∀ way, g way a = g true a
  | false => same
  | true => rfl

/-- What commutes with renumbering gives the same on both sides. -/
theorem agree {ε : Type} {x : Except ε α} {y : Except ε β} (natural : ∀ way, y = x.map (g way)) :
    Agree (fun a b ↦ ∀ way, g way a = b) x y := by
  have same := (natural false).symm.trans (natural true)
  rw [natural true]
  cases x with
  | error e => exact .error e
  | ok a => exact .ok (forall_way (Except.ok.inj same))

theorem forall₂_of_map {as : List α} {bs : List β} (h : ∀ way, as.map (g way) = bs) :
    List.Forall₂ (fun a b ↦ ∀ way, g way a = b) as bs := by
  have same := List.map_inj_left.mp ((h false).trans (h true).symm)
  rw [← h true, List.forall₂_map_right_iff, List.forall₂_same]
  exact fun a ha ↦ forall_way (same a ha)

theorem map_of_forall₂ {as : List α} {bs : List β}
    (h : List.Forall₂ (fun a b ↦ ∀ way, g way a = b) as bs) (way : Bool) :
    as.map (g way) = bs := by
  calc as.map (g way) = bs.map id := map_eq_map_of_forall₂ h fun a b same ↦ same way
    _ = bs := List.map_id bs

end

section

variable {vs vs' ws ws' : List Value} {es es' fs fs' : List (Value × Value)}

theorem lists_cons {v v' : Value} (h : n.Values v v') (hs : n.Lists vs vs') :
    n.Lists (v :: vs) (v' :: vs') := by
  intro way
  rw [List.map_cons, h way, hs way]

theorem lists_append (h : n.Lists vs vs') (h' : n.Lists ws ws') :
    n.Lists (vs ++ ws) (vs' ++ ws') := by
  intro way
  rw [List.map_append, h way, h' way]

theorem entries_cons {k k' v v' : Value} (hk : n.Values k k') (hv : n.Values v v')
    (hs : n.Entries es es') : n.Entries ((k, v) :: es) ((k', v') :: es') := by
  intro way
  rw [List.map_cons, hs way, Value.renumberEntry, Prod.map, hk way, hv way]

theorem entries_append (h : n.Entries es es') (h' : n.Entries fs fs') :
    n.Entries (es ++ fs) (es' ++ fs') := by
  intro way
  rw [List.map_append, h way, h' way]

theorem values_list (h : n.Lists vs vs') : n.Values (.list vs) (.list vs') := by
  intro way
  rw [Value.renumber_list, h way]

theorem values_set (h : n.Lists vs vs') :
    n.Values (.set (Indexed.ofElements vs)) (.set (Indexed.ofElements vs')) := by
  intro way
  rw [Value.renumber_set, ← Value.ofElements_renumber (n.injective way), h way]

theorem values_map (h : n.Entries es es') : n.Values (.map es) (.map es') := by
  intro way
  rw [Value.renumber_map, h way]

theorem entries_ofEntries (h : n.Entries es es') :
    n.Entries (Indexed.ofEntries es) (Indexed.ofEntries es') := by
  intro way
  rw [← Value.ofEntries_renumber (n.injective way), h way]

theorem entries_merge (h : n.Entries es es') (h' : n.Entries fs fs') :
    n.Entries (Indexed.merge es fs) (Indexed.merge es' fs') := by
  intro way
  rw [← Value.merge_renumber (n.injective way), h way, h' way]

theorem values_node {ref ref' : NodeRef} (h : n.Refs ref ref') :
    n.Values (.node ref) (.node ref') := by
  intro way
  rw [Value.renumber_node, h way]

theorem values_call (env : Nat) {ref ref' : NodeRef} (h : n.Refs ref ref')
    (hs : n.Entries es es') : n.Values (.call env ref es) (.call env ref' es') := by
  intro way
  rw [Value.renumber_call, h way, hs way]

theorem values_call_cases {env : Nat} {ref : NodeRef} {v : Value}
    (h : n.Values (.call env ref es) v) :
    ∃ ref' es', v = .call env ref' es' ∧ n.Refs ref ref' ∧ n.Entries es es' := by
  simp only [Values, Value.renumber_call] at h
  have same := (h false).trans (h true).symm
  rw [Value.call.injEq] at same
  exact ⟨_, _, (h true).symm, forall_way same.2.1, forall_way same.2.2⟩

theorem values_node_cases {ref : NodeRef} {v : Value} (h : n.Values (.node ref) v) :
    ∃ ref', v = .node ref' ∧ n.Refs ref ref' := by
  simp only [Values, Value.renumber_node] at h
  have same := (h false).trans (h true).symm
  exact ⟨_, (h true).symm, forall_way (Value.node.inj same)⟩

theorem values_list_cases {v : Value} (h : n.Values (.list vs) v) :
    ∃ vs', v = .list vs' ∧ n.Lists vs vs' := by
  simp only [Values, Value.renumber_list] at h
  have same := (h false).trans (h true).symm
  exact ⟨_, (h true).symm, forall_way (Value.list.inj same)⟩

theorem values_map_cases {v : Value} (h : n.Values (.map es) v) :
    ∃ es', v = .map es' ∧ n.Entries es es' := by
  simp only [Values, Value.renumber_map] at h
  have same := (h false).trans (h true).symm
  exact ⟨_, (h true).symm, forall_way (Value.map.inj same)⟩

/-- What an option gives, or `nil`. -/
theorem values_getD {x x' : Option Value} (h : n.Options x x') :
    n.Values (x.getD .nil) (x'.getD .nil) := by
  intro way
  rw [← h way]
  cases x <;> rfl

end

/-! ### What evaluations do to worlds -/

section

variable {state : (Nat → Nat) → σ → σ} {P : α → β → Prop}

theorem matches_ofExcept {I : World σ → World σ → Prop} {x : Except Fault α} {y : Except Fault β}
    (h : Agree P x y) : Matches I P (Eval.ofExcept x) (Eval.ofExcept y) := by
  cases h with
  | ok h => exact matches_pure h
  | error fault => exact matches_throw _

theorem matches_ofOutcome {I : World σ → World σ → Prop} {x : Except Stop α} {y : Except Stop β}
    (h : Agree P x y) : Matches I P (Eval.ofOutcome x) (Eval.ofOutcome y) := by
  cases h with
  | ok h => exact matches_pure h
  | error stop => exact matches_throw _

theorem matches_record {event event' : Event} (h : ∀ way, event.renumber (n.number way) = event') :
    Matches (n.Worlds state) (fun _ _ ↦ True) (Eval.record event) (Eval.record event') := by
  intro w w' worlds
  refine ⟨.ok trivial, fun way ↦ { worlds way with log := ?_ }⟩
  change w'.log.map (event' :: ·) = (w.log.map (event :: ·)).map _
  rw [(worlds way).log]
  cases w.log with
  | none => rfl
  | some events => simp [h way]

theorem matches_newEnv {params params' : List (Value × Value)} (h : n.Entries params params') :
    Matches (n.Worlds state) Eq (Eval.newEnv params) (Eval.newEnv params') := by
  intro w w' worlds
  refine ⟨.ok (worlds true).size.symm, fun way ↦ { worlds way with size := ?_, envs := ?_ }⟩
  · change (w'.envs.push _).size = (w.envs.push _).size
    rw [Array.size_push, Array.size_push, (worlds way).size]
  · intro i
    change Option.Rel _ (w.envs.push _)[i]? (w'.envs.push _)[i]?
    rw [Array.getElem?_push, Array.getElem?_push, (worlds way).size]
    split
    · exact .some ⟨(h way).symm, fun key ↦ by simp⟩
    · exact (worlds way).envs i

theorem matches_visibleParams (env : Nat) :
    Matches (n.Worlds state) n.Entries (Eval.visibleParams env) (Eval.visibleParams env) := by
  intro w w' worlds
  rw [Eval.run_visibleParams, Eval.run_visibleParams]
  refine ⟨.ok fun way ↦ ?_, worlds⟩
  have seen (k : Value) : Env.isVisibleKey (k.renumber (n.number way)) = Env.isVisibleKey k := by
    cases k <;> rfl
  rcases rel_cases ((worlds way).envs env) with ⟨he, he'⟩ | ⟨e, e', he, he', same⟩
  · rw [he, he']
    rfl
  · rw [he, he']
    simp only [Option.map_some, Option.getD_some, Env.visibleParams, same.params, List.filter_map,
      Function.comp_def, Value.renumberEntry, Prod.map, seen]

theorem matches_param? (env : Nat) (name : String) :
    Matches (n.Worlds state) n.Options (Eval.param? env name)
      (Eval.param? env name) := by
  intro w w' worlds
  refine ⟨.ok fun way ↦ ?_, worlds⟩
  rcases rel_cases ((worlds way).envs env) with ⟨he, he'⟩ | ⟨e, e', he, he', same⟩
  · rw [he, he']
    rfl
  · rw [he, he']
    change (e.param? name).map _ = e'.param? name
    rw [Env.param?_eq_get?, Env.param?_eq_get?, same.params]
    exact (Ordered.get?_map (Value.beq_renumber (n.injective way)) _ (.str name) e.params).symm

theorem matches_cached? (env : Nat) {key key' : MemoKey} (h : n.Keys key key') :
    Matches (n.Worlds state) n.Options (Eval.cached? env key)
      (Eval.cached? env key') := by
  intro w w' worlds
  refine ⟨.ok fun way ↦ ?_, worlds⟩
  rcases rel_cases ((worlds way).envs env) with ⟨he, he'⟩ | ⟨e, e', he, he', same⟩
  · rw [he, he']
    rfl
  · rw [he, he', ← h way]
    exact (same.memo key).symm

theorem matches_store (env : Nat) {key key' : MemoKey} {v v' : Value}
    (hk : n.Keys key key') (hv : n.Values v v') :
    Matches (n.Worlds state) (fun _ _ ↦ True) (Eval.store env key v) (Eval.store env key' v') := by
  intro w w' worlds
  refine ⟨.ok trivial, fun way ↦ { worlds way with size := ?_, envs := ?_ }⟩
  · change (w'.envs.modify env _).size = (w.envs.modify env _).size
    rw [Array.size_modify, Array.size_modify, (worlds way).size]
  · intro i
    change Option.Rel _ (w.envs.modify env _)[i]? (w'.envs.modify env _)[i]?
    rw [Array.getElem?_modify, Array.getElem?_modify]
    split
    · rcases rel_cases ((worlds way).envs i) with ⟨he, he'⟩ | ⟨e, e', he, he', same⟩
      · rw [he, he']
        exact .none
      · rw [he, he', ← hk way, ← hv way]
        exact .some (same.store (n.injective way) key v)
    · exact (worlds way).envs i

theorem matches_ofHost {m m' : HostM σ Value}
    (h : ∀ way host, (m'.run.run (state (n.number way) host)) = Prod.map
      (Except.map (Value.renumber (n.number way))) (state (n.number way)) (m.run.run host)) :
    Matches (n.Worlds state) n.Values (Eval.ofHost m) (Eval.ofHost m') := by
  intro w w' worlds
  rw [Eval.run_ofHost, Eval.run_ofHost]
  refine ⟨?_, fun way ↦ { worlds way with host := ?_ }⟩
  · refine Agree.mapError (agree fun way ↦ ?_) _
    rw [(worlds way).host, h way]
    rfl
  · change (m'.run.run w'.host).2 = _
    rw [(worlds way).host, h way]
    rfl

end

/-! ### Calls of host code -/

/-- Two settings in which the common modules are the same. -/
structure Mirrors (n : Numbering) (s s' : Setting σ) : Prop where
  host : s'.host = s.host
  whitelist : s'.whitelist = s.whitelist
  builtIns : s.builtIns = Value.send ∧ s'.builtIns = Value.send
  twin : ∀ {id id' : Nat}, (∀ way, n.number way id = id') →
    ∃ m m', s.library.module? id = some m ∧ s'.library.module? id' = some m' ∧
      ∀ way, m.Twin (n.number way) m'

section

variable {s s' : Setting σ} {args args' : List Value}

theorem length_eq_of_lists (h : n.Lists args args') : args'.length = args.length := by
  rw [← h true, List.length_map]

theorem Mirrors.whitelistOf (mirrors : n.Mirrors s s') {home home' : Nat}
    (same : ∀ way, n.number way home = home') : s'.whitelistOf home' = s.whitelistOf home := by
  obtain ⟨m, m', found, found', twin⟩ := mirrors.twin same
  rw [Setting.whitelistOf, Setting.whitelistOf, found, found', mirrors.whitelist]
  exact congrArg (Option.getD · s.whitelist) (twin true).whitelist

theorem Mirrors.callFunction (mirrors : n.Mirrors s s') (blind : s.host.Blind)
    (type name : String) (h : n.Lists args args') :
    Matches (n.Worlds blind.renumber) n.Values (s.callFunction type name args)
      (s'.callFunction type name args') := by
  unfold Setting.callFunction
  rw [mirrors.host, length_eq_of_lists h]
  split
  · exact matches_throw _
  · next fn found =>
    obtain ⟨c, hc, hf⟩ := Option.bind_eq_some_iff.mp found
    split
    · refine (matches_record fun way ↦ ?_).bind fun _ _ _ ↦ matches_ofHost fun way state ↦ ?_
      · rw [Event.renumber, h way]
      · rw [← h way]
        exact blind.function c (List.mem_of_find?_eq_some hc) fn (List.mem_of_find?_eq_some hf)
          (n.number way) (n.injective way) args state
    · exact matches_throw _

theorem Mirrors.runMethod (mirrors : n.Mirrors s s') (blind : s.host.Blind) {v v' : Value}
    (method : String) (hv : n.Values v v') (h : n.Lists args args') :
    Matches (n.Worlds blind.renumber) n.Values (s.runMethod v method args)
      (s'.runMethod v' method args') := by
  have sent : Matches (n.Worlds blind.renumber) n.Values
      (Eval.ofOutcome (s.builtIns v method args))
      (Eval.ofOutcome (s'.builtIns v' method args')) := by
    refine matches_ofOutcome (agree fun way ↦ ?_)
    rw [mirrors.builtIns.1, mirrors.builtIns.2, ← hv way, ← h way,
      Value.send_renumber (n.injective way)]
  rw [← hv true] at sent ⊢
  cases v with
  | foreign handle types =>
    refine matches_ofHost fun way state ↦ ?_
    rw [mirrors.host, ← h way]
    exact blind.invoke handle method (n.number way) (n.injective way) args state
  | _ => exact sent

theorem Mirrors.callMethod (mirrors : n.Mirrors s s') (blind : s.host.Blind) {home home' : Nat}
    (same : ∀ way, n.number way home = home') {v v' : Value} (method : String)
    (hv : n.Values v v') (h : n.Lists args args') :
    Matches (n.Worlds blind.renumber) n.Values (s.callMethod home v method args)
      (s'.callMethod home' v' method args') := by
  have permitted : Matches (n.Worlds blind.renumber) n.Values (do
        let method ← Eval.ofExcept ((s.whitelistOf home).permit v method args)
        Eval.record (.method home v method args)
        s.runMethod v method args) (do
        let method ← Eval.ofExcept ((s'.whitelistOf home').permit v' method args')
        Eval.record (.method home' v' method args')
        s'.runMethod v' method args') := by
    rw [mirrors.whitelistOf same, ← hv true, ← h true, Whitelist.permit_renumber, hv true, h true]
    refine (matches_ofExcept (Agree.refl _)).bind ?_
    rintro method _ rfl
    refine (matches_record fun way ↦ ?_).bind fun _ _ _ ↦ mirrors.runMethod blind method hv h
    rw [Event.renumber, same way, hv way, h way]
  rw [← hv true] at permitted ⊢
  cases v with
  | hostClass name => exact mirrors.callFunction blind name method h
  | node ref => exact matches_throw _
  | _ => exact permitted

end

/-! ### Node calls -/

/-- Ways to read attributes that match. -/
abbrev Reads (n : Numbering) (state : (Nat → Nat) → σ → σ) (read read' : Read (Eval σ)) : Prop :=
  ∀ held env {ref ref'} attr, n.Refs ref ref' →
    Matches (n.Worlds state) n.Values (read held env ref attr) (read' held env ref' attr)

section

variable {state : (Nat → Nat) → σ → σ}

theorem matches_create {ref ref' : NodeRef} {es es' : List (Value × Value)} (h : n.Refs ref ref')
    (hs : n.Entries es es') :
    Matches (n.Worlds state) n.Values (NodeCall.create ref es) (NodeCall.create ref' es') := by
  refine (matches_newEnv hs).bind ?_
  rintro env _ rfl
  exact matches_pure (values_call env h hs)

theorem matches_amend {ref ref' : NodeRef} {es es' fs fs' : List (Value × Value)}
    (h : n.Refs ref ref') (hs : n.Entries es es') (hs' : n.Entries fs fs') :
    Matches (n.Worlds state) n.Values (NodeCall.amend ref es fs) (NodeCall.amend ref' es' fs') :=
  matches_create h (entries_merge hs hs')

theorem matches_apply {ref ref' : NodeRef} {v v' : Value} {es es' : List (Value × Value)}
    (h : n.Refs ref ref') (hv : n.Values v v') (hs : n.Entries es es') :
    Matches (n.Worlds state) n.Values (NodeCall.apply ref v es) (NodeCall.apply ref' v' es') := by
  cases v with
  | call env node old =>
    obtain ⟨node', old', rfl, hn, ho⟩ := values_call_cases hv
    exact matches_amend hn ho hs
  | node node =>
    obtain ⟨node', rfl, hn⟩ := values_node_cases hv
    exact matches_create hn hs
  | nil =>
    obtain rfl : v' = .nil := (hv true).symm
    exact matches_create h hs
  | _ =>
    rw [← hv true]
    exact matches_throw _

theorem matches_safely {m m' : Eval σ Value} (h : Matches (n.Worlds state) n.Values m m') :
    Matches (n.Worlds state) n.Values (Eval.safely m) (Eval.safely m') := by
  refine h.tryCatch fun stop ↦ ?_
  cases stop with
  | fault fault => exact matches_pure fun way ↦ fault.renumber_toValue _
  | disorder | exhausted => exact matches_throw _

/-- Ways to read attributes that match do so on calls, whether these are being read or not. -/
theorem Reads.attr {read read' : Read (Eval σ)} (reads : n.Reads state read read')
    (held : List Nat) (env : Nat) {ref ref' : NodeRef} {es es' : List (Value × Value)}
    (h : n.Refs ref ref') (hs : n.Entries es es') (name : String) :
    Matches (n.Worlds state) n.Values (NodeCall.attr read held env ref es name)
      (NodeCall.attr read' held env ref' es' name) := by
  unfold NodeCall.attr
  split
  · refine (matches_newEnv hs).bind ?_
    rintro env _ rfl
    exact reads held env name h
  · exact reads (env :: held) env name h

section

variable {read read' : String → Eval σ Value}
  (hread : ∀ attr, Matches (n.Worlds state) n.Values (read attr) (read' attr))
include hread

theorem matches_readAll {names names' : List Value} (h : n.Lists names names') :
    Matches (n.Worlds state) n.Entries (NodeCall.readAll read names)
      (NodeCall.readAll read' names') := by
  refine (Matches.mapM (forall₂_of_map h) fun name name' hname ↦ ?_).imp fun _ _ ↦ map_of_forall₂
  cases name with
  | str attr =>
    obtain rfl : name' = .str attr := (hname true).symm
    exact (hread attr).bind fun v v' hv ↦ matches_pure fun way ↦ by
      rw [Value.renumberEntry, Prod.map, Value.renumber_str, hv way]
  | _ =>
    rw [← hname true]
    exact matches_throw _

theorem matches_strict {names names' : Value} (h : n.Values names names') :
    Matches (n.Worlds state) n.Values (NodeCall.strict read names)
      (NodeCall.strict read' names') := by
  cases names with
  | list items =>
    obtain ⟨items', rfl, hitems⟩ := values_list_cases h
    exact (matches_readAll hread hitems).bind fun es es' hs ↦
      matches_pure (values_map (entries_ofEntries hs))
  | _ =>
    rw [← h true]
    exact matches_throw _

theorem matches_readSafely {name name' : Value} (h : n.Values name name') :
    Matches (n.Worlds state) n.Values (NodeCall.readSafely read name)
      (NodeCall.readSafely read' name') := by
  refine matches_safely ?_
  cases name with
  | str attr =>
    obtain rfl : name' = .str attr := (h true).symm
    exact hread attr
  | _ =>
    rw [← h true]
    exact matches_throw _

theorem matches_safe {names names' : Value} (h : n.Values names names') :
    Matches (n.Worlds state) n.Values (NodeCall.safe read names)
      (NodeCall.safe read' names') := by
  have single := matches_readSafely hread h
  cases names with
  | list items =>
    obtain ⟨items', rfl, hitems⟩ := values_list_cases h
    refine ((Matches.mapM (forall₂_of_map hitems) fun name name' hname ↦ ?_).imp fun _ _ ↦
      map_of_forall₂).bind fun es es' hs ↦ matches_pure (values_map (entries_ofEntries hs))
    exact (matches_readSafely hread hname).bind fun v v' hv ↦ matches_pure fun way ↦ by
      rw [Value.renumberEntry, Prod.map, hname way, hv way]
  | _ =>
    rw [← h true] at single ⊢
    exact single

end

end

end Numbering

end Formulary
