import Formulary.Proofs.Watched

/-!
# Accounts of what is kept

Notes that a watcher takes down are an account of the way from one world to another (`Account`).
Accounts can be put together: one after the other (`Account.trans`), and one within the computation
of an attribute (`Account.enter`, `Account.keep`). An attribute that was kept is never computed
again, and one that is not entered while it is being computed is kept once at most.
-/

namespace Formulary

variable {σ : Type}

/-- The value that is kept of an attribute in an environment. -/
def World.memo? (w : World σ) (env : Nat) (key : MemoKey) : Option Value :=
  w.envs[env]?.bind (·.cached? key)

/-- Nothing is kept in a new environment. -/
theorem World.memo?_newEnv (w : World σ) (params : List (Value × Value)) (env : Nat)
    (key : MemoKey) :
    { w with envs := w.envs.push { params } }.memo? env key = w.memo? env key := by
  simp only [memo?, Array.getElem?_push]
  split
  · next last =>
    have outside : w.envs[env]? = none := Array.getElem?_eq_none (by omega)
    rw [outside, Option.bind_some, Option.bind_none]
    exact Std.HashMap.getElem?_empty
  · rfl

/-- What is kept after a value was stored. -/
theorem World.memo?_storing (w : World σ) (env env' : Nat) (key key' : MemoKey) (v : Value) :
    (w.storing env key v).memo? env' key' =
      if env = env' ∧ key = key' ∧ env < w.envs.size then some v else w.memo? env' key' := by
  simp only [World.storing, World.logged, World.memo?, Array.getElem?_modify]
  by_cases here : env = env'
  · subst here
    by_cases there : env < w.envs.size
    · simp [Env.cached?_store, there]
    · simp [there]
  · simp [here]

/-- The value that a note says is kept of an attribute. -/
def Note.keeps? (env : Nat) (key : MemoKey) : Note → Option Value
  | .kept env' key' v => if env' = env ∧ key' = key then some v else none
  | _ => none

/-- The values that are kept of an attribute, one after the other. -/
def keptValues (env : Nat) (key : MemoKey) (notes : List Note) : List Value :=
  notes.filterMap (Note.keeps? env key)

@[simp] theorem keptValues_nil (env : Nat) (key : MemoKey) : keptValues env key [] = [] := rfl

@[simp] theorem keptValues_append (env : Nat) (key : MemoKey) (notes notes' : List Note) :
    keptValues env key (notes ++ notes') = keptValues env key notes ++ keptValues env key notes' :=
  List.filterMap_append

@[simp] theorem keptValues_entered (env env' : Nat) (key key' : MemoKey) (again : Bool)
    (notes : List Note) :
    keptValues env key (.entered env' key' again :: notes) = keptValues env key notes := rfl

@[simp] theorem keptValues_slip (env : Nat) (key : MemoKey) (slip : Slip) (notes : List Note) :
    keptValues env key (.slip slip :: notes) = keptValues env key notes := rfl

private theorem keptValues_kept (env env' : Nat) (key key' : MemoKey) (v : Value) :
    keptValues env key [.kept env' key' v] = if env' = env ∧ key' = key then [v] else [] := by
  by_cases same : env' = env ∧ key' = key
  · simp [keptValues, Note.keeps?, same]
  · simp only [keptValues, List.filterMap_cons, Note.keeps?, if_neg same, List.filterMap_nil]

theorem mem_keptValues_iff {env : Nat} {key : MemoKey} {notes : List Note} {v : Value} :
    v ∈ keptValues env key notes ↔ .kept env key v ∈ notes := by
  unfold keptValues
  rw [List.mem_filterMap]
  constructor
  · rintro ⟨n, hn, h⟩
    cases n with
    | kept env' key' v' =>
      simp only [Note.keeps?] at h
      split at h
      · next same =>
        obtain ⟨rfl, rfl⟩ := same
        cases h
        exact hn
      · cases h
    | slip slip | entered env' key' again => cases h
  · intro h
    exact ⟨_, h, by simp [Note.keeps?]⟩

/-- Notes are a true account of the way from one world to another, on which the attributes in
`stack` are being computed and others are entered and left. If the code is `named`, it uses names as
it may. -/
structure Account (named : Prop) (stack : List Underway) (w : World σ) (notes : List Note)
    (w' : World σ) : Prop where
  /-- No name is missing. -/
  names : named → ∀ slip, .slip slip ∉ notes
  /-- What is kept from before stays, and is not computed again. -/
  known : ∀ {env key v}, w.memo? env key = some v →
    w'.memo? env key = some v ∧ (∀ again, .entered env key again ∉ notes) ∧
      keptValues env key notes = []
  /-- The last value that is noted is the one that is kept in the end. -/
  last : ∀ env key,
    w'.memo? env key = (keptValues env key notes).getLast?.or (w.memo? env key)
  /-- What is kept was computed. -/
  entered : ∀ {env key v}, .kept env key v ∈ notes → ∃ again, .entered env key again ∈ notes
  /-- An attribute that was kept is not computed again. -/
  settled : ∀ {before env key v after}, notes = before ++ .kept env key v :: after →
    ∀ again, .entered env key again ∉ after
  /-- It is noted of the attributes in the stack that they are being computed. -/
  again : ∀ {u}, u ∈ stack → .entered u.env u.key false ∉ notes
  /-- An attribute that is not entered while it is being computed is computed once at most. -/
  once : ∀ {env key}, .entered env key true ∉ notes → (keptValues env key notes).length ≤ 1

namespace Account

variable {named : Prop} {stack : List Underway} {w w' w'' : World σ} {notes notes' : List Note}

/-- Nothing is noted where nothing is kept. -/
theorem quiet (same : ∀ env key, w'.memo? env key = w.memo? env key) :
    Account named stack w [] w' where
  names _ _ h := by cases h
  known h := ⟨by rw [same, h], fun _ h ↦ (by cases h), rfl⟩
  last env key := by simp [same]
  entered h := by cases h
  settled h := by simp at h
  again _ h := by cases h
  once _ := by simp

/-- A slip can only be noted where names are not used as they may be. -/
theorem slip (unnamed : ¬named) (slip : Slip) : Account named stack w [.slip slip] w where
  names h := absurd h unnamed
  known h := ⟨h, fun _ h ↦ by simp at h, rfl⟩
  last env key := by simp
  entered h := by simp at h
  settled h := by
    rcases List.cons_eq_append_iff.mp h with ⟨rfl, rest⟩ | ⟨before, rfl, rest⟩
    · simp at rest
    · simp at rest
  again _ h := by simp at h
  once _ := by simp

private theorem memo?_of_keptValues_ne_nil (h : Account named stack w notes w') {env : Nat}
    {key : MemoKey} (kept : keptValues env key notes ≠ []) :
    ∃ v, w'.memo? env key = some v := by
  rw [h.last, List.getLast?_eq_getLast_of_ne_nil kept]
  exact ⟨_, rfl⟩

theorem trans (h : Account named stack w notes w') (h' : Account named stack w' notes' w'') :
    Account named stack w (notes ++ notes') w'' where
  names hn slip hmem := by
    rcases List.mem_append.mp hmem with first | second
    · exact h.names hn slip first
    · exact h'.names hn slip second
  known {env key v} hv := by
    obtain ⟨stays, entered, kept⟩ := h.known hv
    obtain ⟨stays', entered', kept'⟩ := h'.known stays
    refine ⟨stays', fun again hmem ↦ ?_, by simp [kept, kept']⟩
    rcases List.mem_append.mp hmem with first | second
    · exact entered again first
    · exact entered' again second
  last env key := by
    rw [h'.last, h.last, keptValues_append, List.getLast?_append, Option.or_assoc]
  entered hmem := by
    rcases List.mem_append.mp hmem with first | second
    · obtain ⟨again, here⟩ := h.entered first
      exact ⟨again, List.mem_append_left _ here⟩
    · obtain ⟨again, here⟩ := h'.entered second
      exact ⟨again, List.mem_append_right _ here⟩
  settled {before env key v after} split again hmem := by
    rcases List.append_eq_append_iff.mp split with ⟨middle, rfl, rest⟩ | ⟨middle, here, rest⟩
    · exact h'.settled rest again hmem
    · cases middle with
      | nil => exact h'.settled (show notes' = [] ++ _ from rest.symm) again hmem
      | cons first middle =>
        cases rest
        rcases List.mem_append.mp hmem with early | late
        · exact h.settled here again early
        · have kept : keptValues env key notes ≠ [] := by
            rw [here, keptValues_append]
            simp [keptValues, Note.keeps?]
          obtain ⟨v', stays⟩ := h.memo?_of_keptValues_ne_nil kept
          exact (h'.known stays).2.1 again late
  again hu hmem := by
    rcases List.mem_append.mp hmem with first | second
    · exact h.again hu first
    · exact h'.again hu second
  once {env key} free := by
    rw [List.mem_append, not_or] at free
    rw [keptValues_append]
    by_cases none : keptValues env key notes = []
    · rw [none, List.nil_append]
      exact h'.once free.2
    · obtain ⟨v, stays⟩ := h.memo?_of_keptValues_ne_nil none
      rw [(h'.known stays).2.2, List.append_nil]
      exact h.once free.1

/-- An attribute that is not kept yet is entered, and whatever happens then. -/
theorem enter {u : Underway} (h : Account named (u :: stack) w notes w')
    (new : w.memo? u.env u.key = none) {again : Bool}
    (told : (∃ u' ∈ stack, u'.env = u.env ∧ u'.key = u.key) → again = true) :
    Account named stack w (.entered u.env u.key again :: notes) w' where
  names hn slip hmem := by
    rcases List.mem_cons.mp hmem with here | inside
    · cases here
    · exact h.names hn slip inside
  known {env key v} hv := by
    obtain ⟨stays, entered, kept⟩ := h.known hv
    refine ⟨stays, fun again hmem ↦ ?_, kept⟩
    rcases List.mem_cons.mp hmem with here | inside
    · cases here
      rw [new] at hv
      cases hv
    · exact entered again inside
  last := h.last
  entered hmem := by
    rcases List.mem_cons.mp hmem with here | inside
    · cases here
    · obtain ⟨again, there⟩ := h.entered inside
      exact ⟨again, List.mem_cons_of_mem _ there⟩
  settled split := by
    rcases List.cons_eq_append_iff.mp split with ⟨rfl, rest⟩ | ⟨before, rfl, rest⟩
    · cases rest
    · exact h.settled rest
  again {u'} hu hmem := by
    rcases List.mem_cons.mp hmem with here | inside
    · injection here with env key again
      rw [told ⟨u', hu, env, key⟩] at again
      cases again
    · exact h.again (List.mem_cons_of_mem _ hu) inside
  once free := h.once fun hmem ↦ free (List.mem_cons_of_mem _ hmem)

/-- While an attribute is being computed, its value is kept only if it is entered again. -/
theorem keptValues_eq_nil {u : Underway} (h : Account named (u :: stack) w notes w')
    (free : .entered u.env u.key true ∉ notes) : keptValues u.env u.key notes = [] := by
  rw [List.eq_nil_iff_forall_not_mem]
  intro v hv
  obtain ⟨again, entered⟩ := h.entered (mem_keptValues_iff.mp hv)
  cases again with
  | true => exact free entered
  | false => exact h.again List.mem_cons_self entered

/-- An attribute is entered, computed and kept. -/
theorem keep {u : Underway} {v : Value} (h : Account named (u :: stack) w notes w')
    (new : w.memo? u.env u.key = none) {again : Bool}
    (told : (∃ u' ∈ stack, u'.env = u.env ∧ u'.key = u.key) → again = true)
    (stored : ∀ env key, w''.memo? env key =
      if u.env = env ∧ u.key = key then some v else w'.memo? env key) :
    Account named stack w (.entered u.env u.key again :: notes ++ [.kept u.env u.key v]) w'' := by
  have whole := h.enter new told
  exact {
    names := fun hn slip hmem ↦ by
      rcases List.mem_append.mp hmem with inside | here
      · exact whole.names hn slip inside
      · simp at here
    known := fun {env key u'} hv ↦ by
      obtain ⟨stays, entered, kept⟩ := whole.known hv
      have other : ¬(u.env = env ∧ u.key = key) := by
        rintro ⟨rfl, rfl⟩
        rw [new] at hv
        cases hv
      refine ⟨by rw [stored, if_neg other, stays], fun again hmem ↦ ?_, ?_⟩
      · rcases List.mem_append.mp hmem with inside | here
        · exact entered again inside
        · simp at here
      · rw [keptValues_append, kept, keptValues_kept, if_neg other]
        rfl
    last := fun env key ↦ by
      rw [stored, keptValues_append, keptValues_kept, List.getLast?_append]
      split
      · rfl
      · exact whole.last env key
    entered := fun {env key v'} hmem ↦ by
      rcases List.mem_append.mp hmem with inside | here
      · obtain ⟨again, there⟩ := whole.entered inside
        exact ⟨again, List.mem_append_left _ there⟩
      · cases List.mem_singleton.mp here
        exact ⟨again, by simp⟩
    settled := fun {before env key v' after} split again hmem ↦ by
      rcases List.append_eq_append_iff.mp split with ⟨middle, -, rest⟩ | ⟨middle, here, rest⟩
      · rcases List.cons_eq_append_iff.mp rest with ⟨rfl, rest⟩ | ⟨_, rfl, rest⟩
        · cases rest
          cases hmem
        · simp at rest
      · cases middle with
        | nil =>
          cases rest
          cases hmem
        | cons first middle =>
          cases rest
          rcases List.mem_append.mp hmem with inside | last
          · exact whole.settled here again inside
          · simp at last
    again := fun hu hmem ↦ by
      rcases List.mem_append.mp hmem with inside | here
      · exact whole.again hu inside
      · simp at here
    once := fun {env key} free ↦ by
      rw [List.mem_append, not_or] at free
      rw [keptValues_append, keptValues_kept]
      split
      · next same =>
        obtain ⟨rfl, rfl⟩ := same
        have inside := h.keptValues_eq_nil fun hmem ↦ free.1 (List.mem_cons_of_mem _ hmem)
        rw [keptValues_entered, inside]
        exact Nat.le_refl 1
      · rw [List.append_nil]
        exact whole.once free.1 }

end Account

end Formulary
