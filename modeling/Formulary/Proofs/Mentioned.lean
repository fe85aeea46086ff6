import Formulary.Proofs.Faces
import Formulary.Proofs.Graphs
import Formulary.Proofs.Lowered
import Formulary.Proofs.Regime

/-!
# Nodes that are mentioned

Every node that the code of a program mentions is there: it is a node of the module that the code is
written in, or of one that this module imports (`Program.grounded`). So evaluation that is given
nodes of some modules, which with a module also have those that it imports, comes to nodes of these
modules only (`Program.among_code`).
-/

namespace Formulary

/-! ### Nodes in scope -/

/-- If a code is a node, it can be named in a scope. -/
def Code.Reaching (sc : Scope) : Code → Prop
  | node target => sc.Reaches target
  | _ => True

namespace Scope

variable {sc sc' : Scope}

theorem Reaches.mono {target : NodeTarget} (h : sc.Reaches target)
    (drafts : sc.drafts.length ≤ sc'.drafts.length) (imports : ∀ e ∈ sc.imports, e ∈ sc'.imports) :
    sc'.Reaches target := by
  cases target with
  | own index name => exact Nat.lt_of_lt_of_le h drafts
  | imported ref =>
    obtain ⟨e, he, here⟩ := h
    exact ⟨e, imports e he, here⟩

end Scope

/-! ### Scripts -/

/-- The parent of a draft in the `i`th place comes before it or from an imported module, and the
nodes that its members mention can be named. -/
structure Draft.Grounded (sc : Scope) (i : Nat) (d : Draft) : Prop where
  own : ∀ {index name}, d.parent = some (.own index name) → index < i
  imported : ∀ {ref}, d.parent = some (.imported ref) → sc.Reaches (.imported ref)
  members : ∀ m ∈ d.members, ∀ code, m.body.code? = some code → code.Every (Code.Reaching sc)

theorem forall_getElem?_concat {α : Type} {xs : List α} {x : α} {P : Nat → α → Prop}
    (before : ∀ i a, xs[i]? = some a → P i a) (last : P xs.length x) :
    ∀ i a, (xs ++ [x])[i]? = some a → P i a := by
  intro i a h
  rcases Nat.lt_or_ge i xs.length with earlier | later
  · rw [List.getElem?_append_left earlier] at h
    exact before i a h
  · rw [List.getElem?_append_right later] at h
    obtain ⟨bound, rfl⟩ := List.getElem?_eq_some_iff.mp h
    rw [List.length_singleton] at bound
    obtain rfl : i = xs.length := by omega
    simpa using last

namespace Scope

variable {sc sc' : Scope} {line : Line}

/-- All drafts of a scope are grounded in it. -/
def Grounded (sc : Scope) : Prop :=
  ∀ (i : Nat) (d : Draft), sc.drafts[i]? = some d → d.Grounded sc i

theorem Takes.length_drafts_le (h : sc.Takes line sc') : sc.drafts.length ≤ sc'.drafts.length := by
  cases h with
  | again hd known | imports m hd new => exact Nat.le_refl _
  | node hd new hp => simp [drafts]
  | member hd hc hm new acyclic => simp [drafts, hc]

/-- A line that is accepted mentions nodes that can be named. -/
theorem Takes.grounded (h : sc.Takes line sc') (hg : sc.Grounded) : sc'.Grounded := by
  have wider : ∀ {target}, sc.Reaches target → sc'.Reaches target := fun hr ↦
    hr.mono h.length_drafts_le h.imports_subset
  have code : ∀ {code : Code}, code.Every (Code.Reaching sc) → code.Every (Code.Reaching sc') := by
    intro code hc c within
    have here := hc c within
    cases c with
    | node target => exact wider here
    | _ => trivial
  have old : ∀ (i : Nat) (d : Draft), sc.drafts[i]? = some d → d.Grounded sc' i := fun i d hd ↦
    ⟨(hg i d hd).own, fun hp ↦ wider ((hg i d hd).imported hp),
      fun m hm c hc ↦ code ((hg i d hd).members m hm c hc)⟩
  cases h with
  | again hd known => exact hg
  | imports m hd new => exact old
  | @node name path parent hd new hp =>
    have named : ∀ target, parent = some target → sc.Reaches target := by
      rintro target rfl
      cases path with
      | none => cases hp
      | some path =>
        rw [Option.mapM_some] at hp
        obtain ⟨found, resolved, same⟩ := map_eq_ok hp
        cases same
        exact reaches_of_resolveNode resolved
    exact forall_getElem?_concat old
      ⟨fun hparent ↦ named _ hparent, fun hparent ↦ wider (named _ hparent), fun m hm ↦ by cases hm⟩
  | @member d draft m hd hc hm new acyclic =>
    have split : sc.drafts = sc.closed ++ [draft] := by rw [drafts, hc, Option.toList_some]
    rw [split] at old
    have last := old sc.closed.length draft (by simp)
    have named : ∀ c, m.body.code? = some c → c.Every (Code.Reaching sc) := by
      intro c hc
      have used := Definition.scoped_code hm hc
      rw [scope_of_definition? hd] at used
      refine used.every fun n c hn ↦ ?_
      cases c with
      | node target => exact hn
      | _ => trivial
    refine forall_getElem?_concat (fun i d' hd' ↦ old i d' ?_) ⟨last.own, last.imported, ?_⟩
    · rw [List.getElem?_append_left (List.getElem?_eq_some_iff.mp hd').1, hd']
    · refine List.forall_mem_append.mpr ⟨last.members, fun m' hm' c hc' ↦ ?_⟩
      rw [List.mem_singleton.mp hm'] at hc'
      exact code (named c hc')

end Scope

/-! ### Compiled modules -/

/-- A set of modules that with a module also has those that it imports. -/
def Library.Closed (library : Library) (S : Nat → Prop) : Prop :=
  ∀ {id m}, library.module? id = some m → S id → ∀ i ∈ m.imports, S i

/-- If a code that is written in a module is a node, it is there: a node of the module itself, or of
one that it imports. -/
def Code.Grounded (library : Library) (m : Module) : Code → Prop
  | node (.own place _) => place < m.nodes.size
  | node (.imported ref) => ref.module ∈ m.imports ∧ ∃ n, library.node? ref = some n
  | _ => True

/-- A member of a node of the module with number `id`. It is written in a module that this one
reaches through imports, and the nodes that it mentions are there. -/
structure Slot.Grounded (library : Library) (id : Nat) (slot : Slot) : Prop where
  home : ∀ {S}, library.Closed S → S id → S slot.home
  code : ∃ m, library.module? slot.home = some m ∧ ∀ code, slot.member.body.code? = some code →
    code.Every (Code.Grounded library m)

/-- All members in a library are grounded. -/
def Library.Grounded (library : Library) : Prop :=
  ∀ id m, library.module? id = some m → ∀ (i : Nat) (n : Node), m.nodes[i]? = some n →
    ∀ (x : String) (slot : Slot), n.table[x]? = some slot → slot.Grounded library id

namespace Library

variable {library : Library} {m : Module}

theorem module?_push_cases {id : Nat} {t : Module} (h : (library.push m).module? id = some t) :
    library.module? id = some t ∨ id = library.nextId ∧ t = m := by
  rw [module?, push, Array.getElem?_push] at h
  split at h
  · next last =>
    cases h
    exact .inr ⟨last, rfl⟩
  · exact .inl h

theorem node?_push_of_some {ref : NodeRef} {n : Node} (h : library.node? ref = some n) :
    (library.push m).node? ref = some n := by
  obtain ⟨t, ht, hn⟩ := Option.bind_eq_some_iff.mp h
  exact Option.bind_eq_some_iff.mpr ⟨t, Within.push _ m _ _ ht, hn⟩

theorem Closed.of_push {S : Nat → Prop} (h : (library.push m).Closed S) : library.Closed S :=
  fun found ↦ h (Within.push _ m _ _ found)

end Library

theorem Slot.Grounded.push {library : Library} {id : Nat} {slot : Slot}
    (h : slot.Grounded library id) (m : Module) : slot.Grounded (library.push m) id where
  home closed := h.home closed.of_push
  code := by
    obtain ⟨t, found, code⟩ := h.code
    refine ⟨t, Library.Within.push _ m _ _ found, fun c hc d within ↦ ?_⟩
    have here := code c hc d within
    cases d with
    | node target =>
      cases target with
      | own index name => exact here
      | imported ref =>
        obtain ⟨imports, n, hn⟩ := here
        exact ⟨imports, n, Library.node?_push_of_some hn⟩
    | _ => trivial

/-- A member in a node's table is one of those that were defined, or was there before. -/
theorem Node.table_foldl_define {home : Nat} {homeName : String} {members : List Member} {n : Node}
    {x : String} {slot : Slot}
    (h : (members.foldl (fun n m ↦ n.define home homeName m) n).table[x]? = some slot) :
    slot.home = home ∧ slot.member ∈ members ∨ n.table[x]? = some slot := by
  induction members generalizing n with
  | nil => exact .inr h
  | cons m members ih =>
    rcases ih h with ⟨here, later⟩ | before
    · exact .inl ⟨here, List.mem_cons_of_mem _ later⟩
    · rw [getElem?_table_define] at before
      split at before
      · cases before
        exact .inl ⟨rfl, List.mem_cons_self⟩
      · exact .inr before

/-- A script whose lines name nodes that are there is compiled to a module whose members do. -/
theorem Library.Grounded.push {library : Library} (h : library.Grounded) {sc : Scope}
    (hg : sc.Grounded) (imports : sc.ImportsFrom library) (name : String)
    (whitelist : Option Whitelist) :
    (library.push (sc.toModule library name whitelist)).Grounded := by
  let m := sc.toModule library name whitelist
  have size : m.nodes.size = sc.drafts.length :=
    (toModule_induction (P := fun _ _ ↦ True) sc library name whitelist
      fun _ _ _ _ _ ↦ trivial).1
  -- Own members were compiled from this script, the others come with the parent.
  have nodes := toModule_induction sc library name whitelist
    (P := fun _ n ↦ ∀ (x : String) (slot : Slot), n.table[x]? = some slot →
      slot.Grounded (library.push m) library.nextId) <| by
    intro k d nodes hd earlier x slot found
    have grounded := hg k d hd
    rcases Node.table_foldl_define found with ⟨home, member⟩ | inherited
    · refine ⟨fun _ here ↦ home ▸ here, m, home ▸ Registry.module?_nextId_push _ _,
        fun code hc c within ↦ ?_⟩
      have here := grounded.members _ member code hc c within
      cases c with
      | node target =>
        cases target with
        | own index name => exact Nat.lt_of_lt_of_eq here size.symm
        | imported ref =>
          obtain ⟨e, he, id, n, hn⟩ := here
          refine ⟨List.mem_map.mpr ⟨e, he, id.symm⟩, n, node?_push_of_some ?_⟩
          rw [node?, id, imports e he]
          exact hn
      | _ => trivial
    · unfold Draft.base at inherited
      cases hp : d.parent with
      | none =>
        rw [hp] at inherited
        simp at inherited
      | some target =>
        cases target with
        | own index name =>
          obtain ⟨n, hn, table⟩ := earlier index (grounded.own hp)
          rw [hp] at inherited
          simp only [hn] at inherited
          exact table x slot inherited
        | imported ref =>
          obtain ⟨e, he, id, n, hn⟩ := grounded.imported hp
          have there : library.node? ref = some n := by
            rw [node?, id, imports e he]
            exact hn
          rw [hp] at inherited
          simp only [there] at inherited
          have old := (h _ _ (imports e he) _ _ hn _ _ inherited).push m
          refine ⟨fun closed here ↦ old.home closed ?_, old.code⟩
          exact closed (Registry.module?_nextId_push _ _) here e.2.id
            (List.mem_map.mpr ⟨e, he, rfl⟩)
  intro id t found i n hn x slot hs
  rcases module?_push_cases found with before | ⟨rfl, rfl⟩
  · exact (h id t before i n hn x slot hs).push m
  · have bound : i < sc.drafts.length := size ▸ (Array.getElem?_eq_some_iff.mp hn).1
    obtain ⟨n', hn', table⟩ := nodes.2 i bound
    cases hn.symm.trans hn'
    exact table x slot hs

/-- Every node that the code of a program mentions is there. -/
theorem Program.grounded (p : Program) : p.library.Grounded := by
  have compiled := p.compiled
  generalize p.library = library at compiled ⊢
  generalize p.texts = texts at compiled
  induction compiled with
  | nothing => exact fun id m found ↦ by simp [Library.module?] at found
  | script whitelist before accepted imports ih =>
    refine ih.push ?_ imports _ whitelist
    exact Outline.ofLines_induction accepted (fun i d hd ↦ by simp [Scope.drafts] at hd)
      fun sc o line sc' taken hg ↦ taken.grounded hg

/-! ### Values -/

namespace Value

/-- A value that is not a node, nor a call of a node, other than these. -/
def Mentions (known : NodeRef → Prop) : Value → Prop
  | node ref | call _ ref _ => known ref
  | _ => True

/-- No nodes other than these are in a value, at any depth. -/
def MentionsOnly (known : NodeRef → Prop) : Value → Prop := Every (Mentions known)

variable {known : NodeRef → Prop}

theorem mentions_of_ordinary (v : Value) (h : v.Ordinary) : v.Mentions known := by
  cases v <;> first | exact trivial | exact h.elim

theorem mentionsOnly_node_iff {ref : NodeRef} : (node ref).MentionsOnly known ↔ known ref := by
  rw [MentionsOnly, every_iff]
  simp [parts, Mentions]

theorem mentionsOnly_call_iff {env : Nat} {ref : NodeRef} {params : List (Value × Value)} :
    (call env ref params).MentionsOnly known ↔ known ref ∧ (map params).MentionsOnly known := by
  rw [MentionsOnly, every_iff, every_iff]
  simp [parts, Mentions]

/-- No operation makes up nodes. -/
theorem valuesKeep_mentionsOnly (known : NodeRef → Prop) : ValuesKeep (MentionsOnly known) :=
  valuesKeep_every mentions_of_ordinary id

end Value

/-- The nodes of some modules that are there. -/
def Library.Has (library : Library) (S : Nat → Prop) (ref : NodeRef) : Prop :=
  S ref.module ∧ ∃ n, library.node? ref = some n

/-- The code of nodes of some modules, which with a module also have those that it imports, mentions
nodes of these modules only. -/
theorem Program.among_code (p : Program) {S : Nat → Prop} (closed : p.library.Closed S)
    {ref : NodeRef} {attr : String} {slot : Slot} {code : Code} (hr : S ref.module)
    (found : p.library.slot? ref attr = some slot) (hc : slot.member.body.code? = some code) :
    code.Every (Code.Among (Value.MentionsOnly (p.library.Has S)) slot.home slot.homeName) := by
  obtain ⟨n, hn, hs⟩ := Option.bind_eq_some_iff.mp found
  obtain ⟨m, hm, hi⟩ := Option.bind_eq_some_iff.mp hn
  obtain ⟨home, t, ht, grounded⟩ := p.grounded _ _ hm _ _ hi _ _ hs
  intro c within
  have here := grounded code hc c within
  have spelled := p.constants found hc c within
  cases c with
  | const v =>
    obtain ⟨l, rfl⟩ := spelled
    exact Value.every_leaf Value.mentions_of_ordinary (Value.leaf_literal l)
  | node target =>
    refine Value.mentionsOnly_node_iff.mpr ?_
    cases target with
    | own index name =>
      have bound : index < t.nodes.size := here
      refine ⟨home closed hr, t.nodes[index], ?_⟩
      exact Option.bind_eq_some_iff.mpr ⟨t, ht, Array.getElem?_eq_getElem bound⟩
    | imported ref => exact ⟨closed ht (home closed hr) _ here.1, here.2⟩
  | _ => trivial

end Formulary
