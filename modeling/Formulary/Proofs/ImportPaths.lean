import Formulary.Proofs.Coherent
import Formulary.Proofs.Declared

/-!
# Paths of imports

What a module imports is kept under a smaller number than the module itself, so what is kept has no
circular imports. When loading fails because of circular imports, the diagnostic tells a path of
imports from the module that was asked for back to one on the path, and its place is the last import
on it (`Registry.leads_loadWithin`).
-/

namespace Formulary.Registry

open Relation

/-- On a line of one module's script another module is imported. -/
def ImportsOn (r : Registry) (line : Nat) (a b : String) : Prop :=
  ∃ source lines, r.source? a = some source ∧ parse source a = .ok lines ∧
    ∃ l ∈ lines, l.number = line ∧ l.declaration = .imports b

/-- One module's script imports another module. -/
def Imports (r : Registry) (a b : String) : Prop := ∃ line, r.ImportsOn line a b

variable {r q : Registry} {a b name : String}

theorem importsOn_congr (scripts : ∀ x, q.source? x = r.source? x) (line : Nat) (a b : String) :
    q.ImportsOn line a b ↔ r.ImportsOn line a b := by
  unfold ImportsOn
  simp only [scripts]

theorem imports_congr (scripts : ∀ x, q.source? x = r.source? x) (a b : String) :
    q.Imports a b ↔ r.Imports a b :=
  exists_congr fun line ↦ importsOn_congr scripts line a b

/-- The name of an imported module is not empty. -/
theorem Imports.ne_empty (h : r.Imports a b) : b ≠ "" := by
  obtain ⟨line, source, lines, -, read, l, hl, -, hd⟩ := h
  have named := named_of_parse read l hl
  rw [hd] at named
  rintro rfl
  cases named

/-! ### What is kept -/

private theorem Coherent.kept_import (h : r.Coherent) {m : Module} (hm : r.kept? a = some m)
    (imports : r.Imports a b) : ∃ m', r.kept? b = some m' ∧ m'.id < m.id := by
  obtain ⟨lines, sc, before, built⟩ := h.built a m hm
  obtain ⟨line, source, lines', found, read, l, hl, -, hd⟩ := imports
  obtain ⟨source', found', read'⟩ := built.script
  cases found.symm.trans found'
  cases read.symm.trans read'
  obtain ⟨m', mem⟩ := built.taken.imported hl hd
  exact ⟨m', h.keepsImports hm built _ mem, built.id_lt mem⟩

/-- All that a kept module imports, in the end, is kept. -/
theorem Coherent.kept_of_reaches (h : r.Coherent) {m : Module} (hm : r.kept? a = some m)
    (path : ReflTransGen r.Imports a b) : ∃ m', r.kept? b = some m' := by
  induction path with
  | refl => exact ⟨m, hm⟩
  | tail _ last ih =>
    obtain ⟨m₁, hm₁⟩ := ih
    obtain ⟨m', hm', -⟩ := h.kept_import hm₁ last
    exact ⟨m', hm'⟩

private theorem Coherent.id_lt_of_transGen (h : r.Coherent) {m : Module} (hm : r.kept? a = some m)
    (path : TransGen r.Imports a b) : ∃ m', r.kept? b = some m' ∧ m'.id < m.id := by
  induction path with
  | single first => exact h.kept_import hm first
  | tail _ last ih =>
    obtain ⟨m₁, hm₁, smaller⟩ := ih
    obtain ⟨m', hm', smaller'⟩ := h.kept_import hm₁ last
    exact ⟨m', hm', Nat.lt_trans smaller' smaller⟩

/-- A kept module does not import itself, directly or not. -/
theorem Coherent.acyclic (h : r.Coherent) {m : Module} (hm : r.kept? a = some m) :
    ¬TransGen r.Imports a a := by
  intro cycle
  obtain ⟨m', hm', smaller⟩ := h.id_lt_of_transGen hm cycle
  cases hm.symm.trans hm'
  exact Nat.lt_irrefl _ smaller

end Formulary.Registry

namespace Formulary

/-! ### Diagnostics of circular imports -/

/-- A diagnostic reads as one of circular imports. -/
structure Diagnostic.IsCircular (d : Diagnostic) : Prop where
  kind : d.kind = .recursion
  message : ∃ rest, d.message = "circular import: " ++ rest

theorem Diagnostic.orLocated_cases (d : Diagnostic) (module : String) (line : Nat) :
    d.module = "" ∧ d.orLocated module line = d.located module line ∨
      d.module ≠ "" ∧ d.orLocated module line = d := by
  unfold orLocated
  by_cases empty : d.module = ""
  · exact .inl ⟨empty, by simp [empty]⟩
  · exact .inr ⟨empty, by simp [empty]⟩

private theorem Diagnostic.isCircular_orLocated {d : Diagnostic} {module : String} {line : Nat} :
    (d.orLocated module line).IsCircular ↔ d.IsCircular := by
  rcases d.orLocated_cases module line with ⟨-, same⟩ | ⟨-, same⟩
  · rw [same]
    exact ⟨fun h ↦ ⟨h.kind, h.message⟩, fun h ↦ ⟨h.kind, h.message⟩⟩
  · rw [same]

/-- A definition that depends on itself is another matter. -/
theorem Problem.not_isCircular (p : Problem) : ¬p.diagnostic.IsCircular := by
  rintro ⟨kind, rest, message⟩
  cases p with
  | cyclic name node =>
    change "'" ++ name ++ "' depends on itself in node " ++ node = "circular import: " ++ rest
      at message
    have first := congrArg (fun text ↦ text.toList.head?) message
    simp only [String.toList_append] at first
    simp at first
  | _ => cases kind

theorem of_parse_eq_error {source name : String} {d : Diagnostic}
    (h : parse source name = .error d) : d.kind = .parse ∧ d.module = name := by
  unfold parse at h
  split at h
  · cases h
    exact ⟨rfl, rfl⟩
  · dsimp only at h
    split at h
    · cases h
      exact ⟨rfl, rfl⟩
    · cases h

namespace Registry

open Relation

variable {r q : Registry} {name : String}

/-- Loading a module, beneath those that are being loaded already, comes upon circular imports: at
once, when it is one of these, or along a path of imports that leads from it to a module which is on
the path already or one of these. The diagnostic has no place yet in the first case, and in the
second it has the place of the last import. -/
inductive Leads (r : Registry) (loading : List String) (name : String) (d : Diagnostic) : Prop where
  | back (again : name ∈ loading) (diagnostic : d = circular loading name)
  | along (before : List String) (a last : String) (line : Nat)
      (starts : (before ++ [a]).head? = some name)
      (chain : (before ++ [a, last]).IsChain r.Imports)
      (nodup : (loading ++ before ++ [a]).Nodup) (again : last ∈ loading ++ before ++ [a])
      (place : r.ImportsOn line a last)
      (diagnostic : d = (circular (loading ++ before ++ [a]) last).located a line)

/-- Each module on a path of imports, but for the first, is imported by another one. -/
theorem ne_empty_of_isChain {start : String} {path : List String}
    (h : (start :: path).IsChain r.Imports) : ∀ x ∈ path, x ≠ "" := by
  induction path generalizing start with
  | nil => exact fun x hx ↦ by cases hx
  | cons y path ih =>
    obtain ⟨first, rest⟩ := List.isChain_cons_cons.mp h
    exact List.forall_mem_cons.mpr ⟨first.ne_empty, ih rest⟩

/-- One import more at the start of a path. -/
theorem Leads.imported {loading : List String} {next : String} {line : Nat} {d : Diagnostic}
    (other : name ∉ loading) (nodup : loading.Nodup) (imports : r.ImportsOn line name next)
    (h : r.Leads (loading ++ [name]) next d) : r.Leads loading name (d.orLocated name line) := by
  cases h with
  | back again diagnostic =>
    refine .along [] name next line rfl (by simpa using ⟨line, imports⟩) ?_ (by simpa using again)
      imports ?_
    · rw [List.append_nil, List.nodup_append]
      refine ⟨nodup, by simp, ?_⟩
      intro x hx y hy same
      rw [List.mem_singleton.mp hy] at same
      exact other (same ▸ hx)
    · rw [diagnostic, List.append_nil]
      rfl
  | along before a last line' starts chain nodup' again place diagnostic =>
    have chain' : (name :: before ++ [a, last]).IsChain r.Imports := by
      cases before with
      | nil | cons x before =>
        cases starts
        exact List.isChain_cons_cons.mpr ⟨⟨line, imports⟩, chain⟩
    have located : a ≠ "" := ne_empty_of_isChain chain' a (by simp)
    have stays : d.orLocated name line = d := by
      rcases d.orLocated_cases name line with ⟨empty, -⟩ | ⟨-, same⟩
      · rw [diagnostic] at empty
        exact absurd empty located
      · exact same
    rw [stays]
    refine .along (name :: before) a last line' rfl chain' ?_ ?_ place ?_
    · simpa using nodup'
    · simpa using again
    · simpa using diagnostic

theorem Leads.congr {loading : List String} {d : Diagnostic}
    (scripts : ∀ x, q.source? x = r.source? x) (h : q.Leads loading name d) :
    r.Leads loading name d := by
  cases h with
  | back again diagnostic => exact .back again diagnostic
  | along before a last line starts chain nodup again place diagnostic =>
    have chain' := chain.imp fun a b h ↦ (imports_congr scripts a b).mp h
    have place' := (importsOn_congr scripts line a last).mp place
    exact .along before a last line starts chain' nodup again place' diagnostic

/-- A script fails with circular imports only because of a module that it imports. -/
theorem exists_import_of_isCircular {load : String → Loading Registry Module} {sc : Scope}
    {line : Line} {module : String} {d : Diagnostic} (circular : d.IsCircular)
    (failed : ((sc.declareIn module load line).run.run q).1 = .error d) :
    ∃ next d', line.declaration = .imports next ∧ ((load next).run.run q).1 = .error d' ∧
      d = d'.orLocated module line.number := by
  rw [Scope.run_declareIn] at failed
  rcases sc.import_cases line with ⟨next, hd, known⟩ | ⟨next, hd, known⟩ | other
  · rw [Scope.run_declare_of_known hd known] at failed
    cases failed
  · rw [Scope.run_declare_of_import hd known] at failed
    cases loaded : ((load next).run.run q).1 with
    | ok m =>
      rw [loaded] at failed
      cases failed
    | error d' =>
      rw [loaded] at failed
      cases failed
      exact ⟨next, d', hd, loaded, rfl⟩
  · rw [Scope.run_declare_of_other other] at failed
    cases declared : sc.declared line with
    | ok sc' =>
      rw [declared] at failed
      cases failed
    | error problem =>
      rw [declared] at failed
      cases failed
      exact absurd (Diagnostic.isCircular_orLocated.mp circular) problem.not_isCircular

/-- Diagnostics of circular imports are true. -/
theorem leads_loadWithin {depth : Nat} (orderly : r.Orderly) {d : Diagnostic}
    (circular : d.IsCircular) (failed : ((loadWithin depth name).run.run r).1 = .error d) :
    r.Leads r.loading name d := by
  induction depth generalizing r name d with
  | zero =>
    cases failed
    cases circular.kind
  | succ depth ih =>
    have loads := loads_loadWithin depth name r
    rw [failed] at loads
    generalize ((loadWithin (depth + 1) name).run.run r).2 = r' at loads
    cases loads with
    | missing => cases circular.kind
    | circular new found again => exact .back again rfl
    | refused new found other read =>
      have kind := (of_parse_eq_error read).1
      rw [circular.kind] at kind
      cases kind
    | @failed new source found other lines read d q taken =>
      have run := settles_entered (faithful_loadWithin depth) orderly new found other lines
      rw [taken] at run
      obtain ⟨-, -, -, refused⟩ := run
      obtain ⟨line, hl, sc, q₁, orderly₁, extended₁, failed₁⟩ := refused d rfl
      obtain ⟨next, d', hd, loaded, rfl⟩ := exists_import_of_isCircular circular failed₁
      have inner := ih orderly₁ (Diagnostic.isCircular_orLocated.mp circular) loaded
      rw [extended₁.loading] at inner
      have imports : r.ImportsOn line.number name next :=
        ⟨source, lines, found, read, line, hl, rfl, hd⟩
      have scripts (x : String) : q₁.source? x = r.source? x := extended₁.source? x
      have beneath : r.Leads (r.loading ++ [name]) next d' := inner.congr scripts
      exact beneath.imported other orderly.nodup imports

/-! ### New registries -/

/-- A registry of scripts in memory, of which nothing was compiled yet. -/
def ofSources (sources : List (String × String)) (classes : List ClassSignature)
    (whitelist : Option Whitelist) (library : Library) : Registry :=
  { sources, classes, whitelist, library }

theorem coherent_ofSources (sources : List (String × String)) (classes : List ClassSignature)
    (whitelist : Option Whitelist) (library : Library) :
    (ofSources sources classes whitelist library).Coherent where
  built x m hm := by cases hm
  current x m hm := by cases hm
  apart x hx := by cases hx
  scripts x hx := by cases hx
  nodup := .nil

theorem run_load (r : Registry) (name : String) :
    (load name).run.run r = (loadWithin r.depth name).run.run r := run_get_bind _ r

theorem deep_of_depth_le {r : Registry} (memory : r.root = none) {depth : Nat}
    (h : r.depth ≤ depth) : r.Deep depth := by
  refine ⟨memory, ?_⟩
  unfold Registry.depth at h
  omega

end Registry

end Formulary
