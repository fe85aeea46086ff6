import Formulary.Proofs.Lockstep
import Formulary.Proofs.Mentioned

/-!
# Nodes that both sides have

Of two libraries that mirror each other, in part, one may have nodes that the other one has not.
Evaluation that starts with nodes that both have comes to no others (`Program.regime_image`), if the
host makes up no nodes. It is enough to know this of the host on one side
(`Numbering.keeps_image`).
-/

namespace Formulary

/-! ### Values -/

namespace Value

theorem parts_renumber (f : Nat → Nat) (v : Value) :
    (v.renumber f).parts = v.parts.map (renumber f) := by
  cases v with
  | list items | set items => simp [parts]
  | map entries | call _ _ entries =>
    simp only [renumber_map, renumber_call, parts, List.flatMap_map, List.map_flatMap]
    rfl
  | record type fields => simp [parts]
  | _ => rfl

end Value

namespace Numbering

variable {σ : Type} {n : Numbering}

/-- The number, on the second side, of a module that both sides have. -/
def Common (n : Numbering) (id' : Nat) : Prop := ∃ id, ∀ way, n.number way id = id'

/-- A node of a library on the first side, in a module that both sides have. -/
def Source (n : Numbering) (library : Library) (ref : NodeRef) : Prop :=
  (∃ node, library.node? ref = some node) ∧ ∃ ref', n.Refs ref ref'

/-- What such a node is on the second side. -/
def Image (n : Numbering) (library : Library) (ref' : NodeRef) : Prop :=
  ∃ ref, n.Source library ref ∧ n.Refs ref ref'

/-- The host's states on the second side. -/
def States (n : Numbering) {h : Host σ} (blind : h.Blind) (ok : σ → Prop) (state' : σ) : Prop :=
  ∃ state, ok state ∧ ∀ way, blind.renumber (n.number way) state = state'

/-- What has an item for each of several on the other side has a list for all of them. -/
theorem exists_map {α β : Type} {P : α → Prop} {g : Bool → α → β} (bs : List β)
    (h : ∀ b ∈ bs, ∃ a, P a ∧ ∀ way, g way a = b) :
    ∃ as : List α, (∀ a ∈ as, P a) ∧ ∀ way, as.map (g way) = bs := by
  induction bs with
  | nil => exact ⟨[], by simp, fun _ ↦ rfl⟩
  | cons b bs ih =>
    obtain ⟨⟨a, ha, first⟩, rest⟩ := List.forall_mem_cons.mp h
    obtain ⟨as, has, same⟩ := ih rest
    refine ⟨a :: as, List.forall_mem_cons.mpr ⟨ha, has⟩, fun way ↦ ?_⟩
    rw [List.map_cons, first way, same way]

section

variable {library : Library} {v v' : Value}

/-- A value on the second side that mentions only nodes that both sides have is the same as one on
the first. -/
theorem exists_source (h : v'.MentionsOnly (n.Image library)) :
    ∃ v, v.MentionsOnly (n.Source library) ∧ n.Values v v' := by
  induction v' using Value.parts_induction with
  | step v' ih =>
    have parts : ∀ w' ∈ v'.parts, ∃ w, w.MentionsOnly (n.Source library) ∧ n.Values w w' :=
      fun w' hw ↦ ih w' hw (h.part hw)
    have entries (es : List (Value × Value)) (he : (Value.map es).parts = v'.parts) :
        ∃ os, (∀ o ∈ os, BothOf (Value.MentionsOnly (n.Source library)) o) ∧ n.Entries os es := by
      refine exists_map es fun e here ↦ ?_
      obtain ⟨⟨k, hk, sameKey⟩, u, hu, sameValue⟩ := Value.bothOf_of_parts (he ▸ parts) e here
      exact ⟨(k, u), ⟨hk, hu⟩, fun way ↦ Prod.ext (sameKey way) (sameValue way)⟩
    have leaf (hl : v'.Leaf) (same : n.Values v' v') :
        ∃ v, v.MentionsOnly (n.Source library) ∧ n.Values v v' :=
      ⟨v', Value.every_leaf Value.mentions_of_ordinary hl, same⟩
    cases v' with
    | node ref' =>
      obtain ⟨ref, source, same⟩ := Value.mentionsOnly_node_iff.mp h
      exact ⟨.node ref, Value.mentionsOnly_node_iff.mpr source, values_node same⟩
    | call env ref' es =>
      obtain ⟨ref, source, same⟩ := (Value.mentionsOnly_call_iff.mp h).1
      obtain ⟨os, hos, all⟩ := entries es rfl
      exact ⟨.call env ref os,
        Value.mentionsOnly_call_iff.mpr ⟨source, Value.every_map Value.mentions_of_ordinary hos⟩,
        values_call env same all⟩
    | map es =>
      obtain ⟨os, hos, all⟩ := entries es rfl
      exact ⟨.map os, Value.every_map Value.mentions_of_ordinary hos, values_map all⟩
    | list items =>
      obtain ⟨os, hos, all⟩ := exists_map items parts
      exact ⟨.list os, Value.every_iff.mpr ⟨trivial, hos⟩, values_list all⟩
    | set items =>
      obtain ⟨os, hos, all⟩ := exists_map items parts
      refine ⟨.set os, Value.every_iff.mpr ⟨trivial, hos⟩, fun way ↦ ?_⟩
      rw [Value.renumber_set, all way]
    | record type fields =>
      obtain ⟨os, hos, all⟩ := exists_map (P := fun o ↦ o.2.MentionsOnly (n.Source library))
          (g := fun way ↦ Prod.map id (Value.renumber (n.number way))) fields <| by
        intro f hf
        obtain ⟨w, hw, same⟩ := parts f.2 (List.mem_map_of_mem hf)
        exact ⟨(f.1, w), hw, fun way ↦ Prod.ext rfl (same way)⟩
      refine ⟨.record type os, Value.every_iff.mpr ⟨trivial, ?_⟩, fun way ↦ ?_⟩
      · intro w hw
        obtain ⟨o, ho, rfl⟩ := List.mem_map.mp hw
        exact hos o ho
      · rw [Value.renumber_record, all way]
    | _ => exact leaf ⟨trivial, rfl⟩ fun way ↦ rfl

/-- A value on the first side that mentions only nodes that both sides have is the same as one on
the second. -/
theorem mentionsOnly_image (h : v.MentionsOnly (n.Source library)) (same : n.Values v v') :
    v'.MentionsOnly (n.Image library) := by
  induction v using Value.parts_induction generalizing v' with
  | step v ih =>
    refine Value.every_iff.mpr ⟨?_, fun w' hw' ↦ ?_⟩
    · cases v with
      | node ref =>
        obtain ⟨ref', rfl, refs⟩ := values_node_cases same
        exact ⟨ref, Value.mentionsOnly_node_iff.mp h, refs⟩
      | call env ref params =>
        obtain ⟨ref', params', rfl, refs, -⟩ := values_call_cases same
        exact ⟨ref, (Value.mentionsOnly_call_iff.mp h).1, refs⟩
      | _ =>
        rw [← same true]
        trivial
    · have parts : ∀ way, v.parts.map (Value.renumber (n.number way)) = v'.parts := fun way ↦ by
        rw [← same way, Value.parts_renumber]
      obtain ⟨w, hw, values⟩ := exists_of_forall₂_left (forall₂_of_map parts).flip hw'
      exact ih w hw (h.part hw) values

end

/-! ### Hosts -/

/-- A host that makes up no nodes on the first side makes up none on the second. -/
theorem keeps_image {h : Host σ} (blind : h.Blind) {library : Library} {ok : σ → Prop}
    (keeps : h.Keeps (Value.MentionsOnly (n.Source library)) ok) :
    h.Keeps (Value.MentionsOnly (n.Image library)) (n.States blind ok) := by
  intro args' m' state' runs' hargs' hstate
  obtain ⟨state, hok, states⟩ := hstate
  obtain ⟨args, hargs, same⟩ := exists_map args' fun a ha ↦ exists_source (hargs' a ha)
  -- The code on the first side that this one does the same as.
  obtain ⟨m, runs, natural⟩ : ∃ m, h.Runs args m ∧ ∀ way, m'.run.run state' =
      Prod.map (Except.map (Value.renumber (n.number way))) (blind.renumber (n.number way))
        (m.run.run state) := by
    cases runs' with
    | @function c fn hc hf =>
      refine ⟨_, .function hc hf, fun way ↦ ?_⟩
      rw [← same way, ← states way, blind.function c hc fn hf _ (n.injective way)]
    | method handle name =>
      refine ⟨_, .method handle name, fun way ↦ ?_⟩
      rw [← same way, ← states way, blind.invoke handle name _ (n.injective way)]
  obtain ⟨result, after⟩ := keeps runs hargs hok
  refine ⟨fun v' hv' ↦ ?_, _, after, fun way ↦ (congrArg Prod.snd (natural way)).symm⟩
  have agree : Agree n.Values (m.run.run state).1 (m'.run.run state').1 :=
    Numbering.agree fun way ↦ congrArg Prod.fst (natural way)
  rw [hv'] at agree
  cases here : (m.run.run state).1 with
  | error message =>
    rw [here] at agree
    cases agree
  | ok v =>
    rw [here] at agree
    cases agree with
    | ok values => exact mentionsOnly_image (result v here) values

/-! ### Libraries -/

section

variable {s s' : Setting σ} (mirrors : n.Mirrors s s')
include mirrors

/-- The nodes, on the second side, of modules that both sides have are those that the first side
has. -/
theorem Mirrors.has_iff (ref' : NodeRef) :
    s'.library.Has n.Common ref' ↔ n.Image s.library ref' := by
  constructor
  · rintro ⟨⟨id, common⟩, node', found'⟩
    have refs : n.Refs { ref' with module := id } ref' := fun way ↦ by
      rw [NodeRef.renumber, common way]
    rcases rel_cases (mirrors.node? refs) with ⟨-, none⟩ | ⟨node, _, found, -, -⟩
    · cases none.symm.trans found'
    · exact ⟨_, ⟨⟨node, found⟩, ref', refs⟩, refs⟩
  · rintro ⟨ref, ⟨⟨node, found⟩, -⟩, refs⟩
    refine ⟨⟨ref.module, Refs.module refs⟩, ?_⟩
    rcases rel_cases (mirrors.node? refs) with ⟨none, -⟩ | ⟨_, node', -, found', -⟩
    · cases none.symm.trans found
    · exact ⟨node', found'⟩

/-- What a module that both sides have imports, both sides have. -/
theorem Mirrors.closed : s'.library.Closed n.Common := by
  rintro id' m' found' ⟨id, common⟩ i' hi'
  obtain ⟨m, t, found, there, twin⟩ := mirrors.twin common
  cases there.symm.trans found'
  obtain ⟨i, -, same⟩ :=
    exists_of_forall₂_left (forall₂_of_map fun way ↦ (twin way).imports.symm).flip hi'
  exact ⟨i, same⟩

end

end Numbering

/-- Evaluation on the second side that starts with nodes that both sides have comes to no others. -/
theorem Program.regime_image {σ : Type} {n : Numbering} {s : Setting σ} (p : Program)
    {h : Host σ} {policy : Whitelist} {ok : σ → Prop} (mirrors : n.Mirrors s (p.setting h policy))
    (keeps : h.Keeps (Value.MentionsOnly (n.Image s.library)) ok) :
    Regime (p.setting h policy) (Value.MentionsOnly (n.Image s.library))
      (World.Among (Value.MentionsOnly (n.Image s.library)) ok) := by
  have known : p.library.Has n.Common = n.Image s.library :=
    funext fun ref' ↦ propext (mirrors.has_iff ref')
  refine regime_among rfl (fun _ hr hp ↦ ?_) (fun {ref attr slot code} hr found hc ↦ ?_) keeps
  · exact Value.mentionsOnly_call_iff.mpr ⟨Value.mentionsOnly_node_iff.mp hr, hp⟩
  rw [← known] at hr ⊢
  exact p.among_code mirrors.closed (Value.mentionsOnly_node_iff.mp hr).1 found hc

/-! ### Evaluations -/

namespace Numbering

variable {σ : Type} {n : Numbering} {h : Host σ}

/-- Values that are the same on both sides, with no nodes in them but those of a library on the
first. -/
def ValuesWithin (n : Numbering) (library : Library) (v v' : Value) : Prop :=
  n.Values v v' ∧ v'.MentionsOnly (n.Image library)

/-- Worlds that are the same on both sides, with no nodes in them but those of a library on the
first. -/
def WorldsWithin (n : Numbering) (library : Library) (blind : h.Blind) (ok : σ → Prop)
    (w w' : World σ) : Prop :=
  n.Worlds blind.renumber w w' ∧
    w'.Among (Value.MentionsOnly (n.Image library)) (n.States blind ok)

/-- New worlds, with the same host, are such worlds. -/
theorem worldsWithin_new {blind : h.Blind} {ok : σ → Prop} {state state' : σ} (library : Library)
    (hok : ok state) (same : ∀ way, blind.renumber (n.number way) state = state') :
    n.WorldsWithin library blind ok { host := state, log := some [] }
      { host := state', log := some [] } := by
  refine ⟨fun way ↦ ⟨rfl, fun i ↦ ?_, (same way).symm, rfl⟩, .new ⟨state, hok, same⟩⟩
  simp

/-- If an evaluation on the second side comes to no other nodes, and another one does the same in
all such worlds, then the other one does the same as the first side too. -/
theorem matches_within {library : Library} {blind : h.Blind} {ok : σ → Prop} {x : Eval σ Value}
    {y : Bool → Eval σ Value}
    (same : (confined Bool (World.Among (Value.MentionsOnly (n.Image library))
      (n.States blind ok))).Holds (Value.MentionsOnly (n.Image library)) y)
    (matching : Matches (n.Worlds blind.renumber) n.Values x (y false)) :
    Matches (n.WorldsWithin library blind ok) (n.ValuesWithin library) x (y true) := by
  rintro w w' ⟨worlds, among⟩
  obtain ⟨agree, worlds'⟩ := matching w w' worlds
  obtain ⟨result, w₁, runs, among', image⟩ := same w' among
  rw [runs false] at agree worlds'
  rw [runs true]
  refine ⟨?_, worlds', among'⟩
  cases result with
  | error stop =>
    generalize (x.run.run w).1 = answer at agree
    cases agree
    exact .error stop
  | ok v' =>
    generalize (x.run.run w).1 = answer at agree
    cases agree with
    | ok values => exact .ok ⟨values, image v' rfl⟩

end Numbering

end Formulary
