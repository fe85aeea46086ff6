import Formulary.Proofs.Graphs
import Formulary.Proofs.Keyed
import Formulary.Proofs.Members
import Formulary.Proofs.Written
import Formulary.Registry
import Mathlib.Data.List.Perm.Subperm

/-!
# What registries keep

A registry is orderly when each module that it keeps was compiled from the script that it has for
the module now, and coherent when all that these modules import is kept now as well. Loading a
module leaves an orderly registry that keeps all that was kept before, and everything that was
compiled meanwhile, whether it succeeds or not (`Registry.faithful_loadWithin`); a coherent one
stays coherent (`Registry.Coherent.extend`). Modules that are being loaded differ and have scripts,
so they nest only so deep: a greater depth makes no difference (`Registry.loadWithin_eq`).
-/

namespace Formulary

/-! ### Libraries that grow -/

/-- The modules of one library are in the other, under the same numbers. -/
def Library.Within (l l' : Library) : Prop :=
  ∀ id m, l.module? id = some m → l'.module? id = some m

namespace Library.Within

theorem refl (l : Library) : l.Within l := fun _ _ h ↦ h

theorem trans {l l' l'' : Library} (h : l.Within l') (h' : l'.Within l'') : l.Within l'' :=
  fun id m hm ↦ h' id m (h id m hm)

theorem push (l : Library) (m : Module) : l.Within (l.push m) := by
  intro id n hn
  have bound : id < l.modules.size := (Array.getElem?_eq_some_iff.mp hn).1
  rw [Library.module?, Library.push, Array.getElem?_push_lt bound,
    ← Array.getElem?_eq_getElem bound]
  exact hn

end Library.Within

theorem Registry.module?_nextId_push (l : Library) (m : Module) :
    (l.push m).module? l.nextId = some m :=
  Array.getElem?_push_size

/-! ### Accepted scripts -/

namespace Scope

/-- Only an import changes what is imported. -/
theorem Takes.imports_eq {sc sc' : Scope} {line : Line} (h : sc.Takes line sc')
    (other : ∀ name, line.declaration ≠ .imports name) : sc'.imports = sc.imports := by
  cases h with
  | again hd known | imports m hd new => exact absurd hd (other _)
  | node hd new hp => rfl
  | member hd hc hm new acyclic => rfl

/-- How a scope changes by lines that are all accepted. -/
inductive TakesAll : Scope → List Line → Scope → Prop where
  | nil (sc : Scope) : TakesAll sc [] sc
  | cons {sc sc₁ sc' : Scope} {line : Line} {lines : List Line} (first : sc.Takes line sc₁)
      (rest : TakesAll sc₁ lines sc') : TakesAll sc (line :: lines) sc'

variable {sc sc' : Scope} {lines : List Line}

theorem TakesAll.imports_subset (h : TakesAll sc lines sc') :
    ∀ e ∈ sc.imports, e ∈ sc'.imports := by
  induction h with
  | nil => exact fun e he ↦ he
  | cons first _ ih => exact fun e he ↦ ih e (first.imports_subset e he)

/-- A module that a line imports is imported in the end. -/
theorem TakesAll.imported (h : TakesAll sc lines sc') {line : Line} {name : String}
    (hl : line ∈ lines) (hd : line.declaration = .imports name) :
    ∃ m, (name, m) ∈ sc'.imports := by
  induction h with
  | nil => cases hl
  | @cons sc sc₁ sc' line' lines first rest ih =>
    rcases List.mem_cons.mp hl with rfl | later
    · suffices here : ∃ m, (name, m) ∈ sc₁.imports by
        obtain ⟨m, hm⟩ := here
        exact ⟨m, rest.imports_subset _ hm⟩
      cases first with
      | again hd' known =>
        cases hd.symm.trans hd'
        obtain ⟨e, he, same⟩ := List.any_eq_true.mp known
        exact ⟨e.2, beq_iff_eq.mp same ▸ he⟩
      | @imports name' m hd' new =>
        cases hd.symm.trans hd'
        refine ⟨m, ?_⟩
        rw [Ordered.put_of_hasKey_eq_false new]
        exact List.mem_append_right _ (List.mem_singleton_self _)
      | node hd' _ _ => cases hd.symm.trans hd'
      | member hd' _ _ _ _ => simp [Line.definition?, hd] at hd'
    · exact ih later

/-- A script that is accepted leads from one scope to the other. -/
theorem takesAll_of_run {ρ : Type} {load : String → Loading ρ Module} {module : String} {q q' : ρ}
    (h : (lines.foldlM (declareIn module load) sc).run.run q = (.ok sc', q')) :
    sc.TakesAll lines sc' := by
  induction lines generalizing sc q with
  | nil =>
    cases h
    exact .nil _
  | cons line lines ih =>
    rw [List.foldlM_cons] at h
    obtain ⟨sc₁, q₁, first, rest⟩ := run_bind_eq_ok h
    exact .cons (takes_of_declare (run_declare_of_declareIn first)) (ih rest)

/-! ### Single declarations -/

/-- What a declaration that imports nothing makes of a scope. -/
def declared (sc : Scope) (line : Line) : Except Problem Scope :=
  match line.declaration with
  | .imports _ => .ok sc
  | .node name parent => sc.openNode name parent
  | .formula name body => sc.defineFormula line.number name body
  | .param name default => sc.defineParam line.number name default

/-- A line imports a module that is in scope, or one that is not, or none. -/
theorem import_cases (sc : Scope) (line : Line) :
    (∃ name, line.declaration = .imports name ∧ Ordered.hasKey name sc.imports = true) ∨
      (∃ name, line.declaration = .imports name ∧ Ordered.hasKey name sc.imports = false) ∨
      ∀ name, line.declaration ≠ .imports name := by
  by_cases importing : ∃ name, line.declaration = .imports name
  · obtain ⟨name, hd⟩ := importing
    cases known : Ordered.hasKey name sc.imports with
    | true => exact .inl ⟨name, hd, known⟩
    | false => exact .inr (.inl ⟨name, hd, known⟩)
  · exact .inr (.inr (not_exists.mp importing))

section

variable {ρ : Type} {load : String → Loading ρ Module} {line : Line} {name : String} {q : ρ}

theorem run_declare_of_other (other : ∀ name, line.declaration ≠ .imports name) :
    (sc.declare load line).run.run q = ((sc.declared line).mapError Problem.diagnostic, q) := by
  unfold declare declared
  cases hd : line.declaration with
  | imports name => exact absurd hd (other name)
  | node name parent | formula name body | param name default => rfl

theorem run_declare_of_known (hd : line.declaration = .imports name)
    (known : Ordered.hasKey name sc.imports = true) :
    (sc.declare load line).run.run q = (.ok sc, q) := by
  rw [declare, hd]
  dsimp only
  rw [importModule, if_pos known]
  rfl

theorem run_declare_of_import (hd : line.declaration = .imports name)
    (new : Ordered.hasKey name sc.imports = false) :
    (sc.declare load line).run.run q =
      (((load name).run.run q).1.map fun m ↦ { sc with imports := Ordered.put name m sc.imports },
        ((load name).run.run q).2) := by
  rw [declare, hd]
  dsimp only
  rw [importModule, if_neg (by simp [new])]
  rw [run_bind]
  cases (load name).run.run q with
  | mk result q' => cases result <;> rfl

theorem run_declareIn (module : String) (load : String → Loading ρ Module) (line : Line) (q : ρ) :
    (sc.declareIn module load line).run.run q =
      (((sc.declare load line).run.run q).1.mapError (·.orLocated module line.number),
        ((sc.declare load line).run.run q).2) := by
  rw [declareIn, run_tryCatch]
  cases (sc.declare load line).run.run q with
  | mk result q' => cases result <;> rfl

/-- A script leads where the modules that it imports lead. -/
theorem leads_ofLines {R : ρ → ρ → Prop} (refl : ∀ q, R q q)
    (trans : ∀ {q q₁ q'}, R q q₁ → R q₁ q' → R q q')
    (loads : ∀ name q, R q ((load name).run.run q).2) (module : String) (lines : List Line)
    (sc : Scope) (q : ρ) : R q ((lines.foldlM (declareIn module load) sc).run.run q).2 := by
  have step (sc : Scope) (line : Line) (q : ρ) :
      R q ((sc.declareIn module load line).run.run q).2 := by
    rw [run_declareIn]
    rcases sc.import_cases line with ⟨name, hd, known⟩ | ⟨name, hd, known⟩ | other
    · rw [run_declare_of_known hd known]
      exact refl q
    · rw [run_declare_of_import hd known]
      exact loads name q
    · rw [run_declare_of_other other]
      exact refl q
  induction lines generalizing sc q with
  | nil => exact refl q
  | cons line lines ih =>
    have here := step sc line q
    cases first : (sc.declareIn module load line).run.run q with
    | mk result q₁ =>
      rw [first] at here
      rw [List.foldlM_cons, run_bind, first]
      cases result with
      | error d => exact here
      | ok sc₁ => exact trans here (ih sc₁ q₁)

end

end Scope

namespace Registry

/-! ### Single steps of loading -/

section

/-- The module that is kept under a name. -/
def kept? (r : Registry) (name : String) : Option Module := Ordered.get? name r.compiled

variable {r r' : Registry} {name : String} {depth : Nat}

theorem kept?_keep (r : Registry) (name x : String) (m : Module) :
    (r.keep name m).kept? x = if x = name then some m else r.kept? x := by
  rw [kept?, keep, Ordered.get?_put, kept?]
  simp only [beq_iff_eq]

theorem leave_enter (r : Registry) (name : String) : (r.enter name).leave = r := by
  simp [enter, leave]

theorem run_get_bind {α : Type} (next : Registry → Loading Registry α) (r : Registry) :
    (get >>= next).run.run r = (next r).run.run r := rfl

theorem run_loadWithin_of_kept {m : Module} (h : r.kept? name = some m) :
    (loadWithin (depth + 1) name).run.run r = (.ok m, r) := by
  rw [kept?] at h
  rw [loadWithin, run_get_bind, h]
  rfl

theorem run_loadWithin_of_missing (new : r.kept? name = none) (missing : r.source? name = none) :
    (loadWithin (depth + 1) name).run.run r = (.error (Diagnostic.notFound name), r) := by
  rw [kept?] at new
  rw [loadWithin, run_get_bind, new]
  dsimp only
  rw [missing]
  rfl

theorem run_loadWithin_of_loading (new : r.kept? name = none) {source : String}
    (found : r.source? name = some source) (again : name ∈ r.loading) :
    (loadWithin (depth + 1) name).run.run r = (.error (circular r.loading name), r) := by
  rw [kept?] at new
  rw [loadWithin, run_get_bind, new]
  dsimp only
  rw [found]
  dsimp only
  rw [if_pos (List.contains_iff_mem.mpr again)]
  rfl

/-- A script that is not kept and not being loaded is compiled while it is being loaded. -/
theorem run_loadWithin_of_new (new : r.kept? name = none) {source : String}
    (found : r.source? name = some source) (other : name ∉ r.loading) :
    (loadWithin (depth + 1) name).run.run r =
      match (compile (loadWithin depth) name r.classes r.whitelist source).run.run
        (r.enter name) with
      | (.ok m, q) => (.ok m, q.leave.keep name m)
      | (.error d, q) => (.error d, q.leave) := by
  rw [kept?] at new
  have entered : (modify (·.enter name) : Loading Registry Unit).run.run r =
      (.ok (), r.enter name) := rfl
  rw [loadWithin, run_get_bind, new]
  dsimp only
  rw [found]
  dsimp only
  rw [if_neg (by simpa using other), run_bind, entered]
  dsimp only
  rw [run_bind, run_finally]
  cases (compile (loadWithin depth) name r.classes r.whitelist source).run.run (r.enter name) with
  | mk result q => cases result <;> rfl

variable {load : String → Loading Registry Module} {classes : List ClassSignature}
  {whitelist : Option Whitelist} {source : String}

theorem run_compile_of_refused {d : Diagnostic} (h : parse source name = .error d) :
    (compile load name classes whitelist source).run.run r = (.error d, r) := by
  rw [compile, h]
  rfl

/-- A script that can be read is compiled by taking its lines. -/
theorem run_compile_of_parse {lines : List Line} (h : parse source name = .ok lines) :
    (compile load name classes whitelist source).run.run r =
      match (Scope.ofLines name classes load lines).run.run r with
      | (.ok sc, q) => (.ok (sc.toModule q.library name whitelist),
          q.pushModule (sc.toModule q.library name whitelist))
      | (.error d, q) => (.error d, q) := by
  have read : (ExceptT.mk (pure (parse source name)) : Loading Registry (List Line)).run.run r =
      (.ok lines, r) := by
    rw [h]
    rfl
  rw [compile, run_bind, read]
  dsimp only
  rw [run_bind]
  cases (Scope.ofLines name classes load lines).run.run r with
  | mk result q => cases result <;> rfl

/-- The ways in which loading a module can go. -/
inductive Loads (depth : Nat) (name : String) (r : Registry) :
    Except Diagnostic Module → Registry → Prop where
  | kept {m : Module} (h : r.kept? name = some m) : Loads depth name r (.ok m) r
  | missing (new : r.kept? name = none) (missing : r.source? name = none) :
      Loads depth name r (.error (Diagnostic.notFound name)) r
  | circular (new : r.kept? name = none) {source : String} (found : r.source? name = some source)
      (again : name ∈ r.loading) : Loads depth name r (.error (circular r.loading name)) r
  | refused (new : r.kept? name = none) {source : String} (found : r.source? name = some source)
      (other : name ∉ r.loading) {d : Diagnostic} (read : parse source name = .error d) :
      Loads depth name r (.error d) r
  | failed (new : r.kept? name = none) {source : String} (found : r.source? name = some source)
      (other : name ∉ r.loading) {lines : List Line} (read : parse source name = .ok lines)
      {d : Diagnostic} {q : Registry}
      (taken : (Scope.ofLines name r.classes (loadWithin depth) lines).run.run (r.enter name) =
        (.error d, q)) : Loads depth name r (.error d) q.leave
  | compiled (new : r.kept? name = none) {source : String} (found : r.source? name = some source)
      (other : name ∉ r.loading) {lines : List Line} (read : parse source name = .ok lines)
      {sc : Scope} {q : Registry}
      (taken : (Scope.ofLines name r.classes (loadWithin depth) lines).run.run (r.enter name) =
        (.ok sc, q)) :
      Loads depth name r (.ok (sc.toModule q.library name r.whitelist))
        ((q.pushModule (sc.toModule q.library name r.whitelist)).leave.keep name
          (sc.toModule q.library name r.whitelist))

theorem loads_loadWithin (depth : Nat) (name : String) (r : Registry) :
    Loads depth name r ((loadWithin (depth + 1) name).run.run r).1
      ((loadWithin (depth + 1) name).run.run r).2 := by
  cases new : r.kept? name with
  | some m =>
    rw [run_loadWithin_of_kept new]
    exact .kept new
  | none =>
    cases found : r.source? name with
    | none =>
      rw [run_loadWithin_of_missing new found]
      exact .missing new found
    | some source =>
      by_cases again : name ∈ r.loading
      · rw [run_loadWithin_of_loading new found again]
        exact .circular new found again
      · rw [run_loadWithin_of_new new found again]
        cases read : parse source name with
        | error d =>
          rw [run_compile_of_refused read]
          dsimp only
          rw [leave_enter]
          exact .refused new found again read
        | ok lines =>
          rw [run_compile_of_parse read]
          cases taken : (Scope.ofLines name r.classes (loadWithin depth) lines).run.run
              (r.enter name) with
          | mk result q =>
            cases result with
            | error d => exact .failed new found again read taken
            | ok sc => exact .compiled new found again read taken

end

/-! ### Registries that grow -/

variable {r r' : Registry} {name : String}

/-- All that a module imports is kept. -/
def UpToDate (r : Registry) (m : Module) : Prop :=
  ∀ id ∈ m.imports, ∃ d, r.library.module? id = some d ∧ r.kept? d.name = some d

theorem UpToDate.mono {m : Module} (h : r.UpToDate m)
    (kept : ∀ x m, r.kept? x = some m → r'.kept? x = some m)
    (within : r.library.Within r'.library) : r'.UpToDate m := by
  intro id hid
  obtain ⟨d, hd, kd⟩ := h id hid
  exact ⟨d, within _ _ hd, kept _ _ kd⟩

/-- The same scripts; everything that is compiled meanwhile is kept, and so is what it imports. -/
structure Extends (r r' : Registry) : Prop where
  same : r' = { r with compiled := r'.compiled, library := r'.library }
  kept : ∀ x m, r.kept? x = some m → r'.kept? x = some m
  within : r.library.Within r'.library
  once : ∀ id m, r'.library.module? id = some m →
    r.library.module? id = some m ∨ r'.kept? m.name = some m
  fresh : ∀ x m, r'.kept? x = some m → r.kept? x = some m ∨ r'.UpToDate m

namespace Extends

theorem refl (r : Registry) : r.Extends r :=
  ⟨rfl, fun _ _ h ↦ h, .refl _, fun _ _ h ↦ .inl h, fun _ _ h ↦ .inl h⟩

theorem trans {q : Registry} (h : r.Extends q) (h' : q.Extends r') : r.Extends r' where
  same := by rw [h'.same, h.same]
  kept x m hm := h'.kept x m (h.kept x m hm)
  within := h.within.trans h'.within
  once id m hm := by
    rcases h'.once id m hm with old | new
    · exact (h.once id m old).imp_right (h'.kept _ m)
    · exact .inr new
  fresh x m hm := by
    rcases h'.fresh x m hm with old | new
    · exact (h.fresh x m old).imp_right fun current ↦ current.mono h'.kept h'.within
    · exact .inr new

variable (h : r.Extends r')
include h

theorem source? (x : String) : r'.source? x = r.source? x := by rw [h.same]; rfl

theorem sources : r'.sources = r.sources := by rw [h.same]

theorem classes : r'.classes = r.classes := by rw [h.same]

theorem whitelist : r'.whitelist = r.whitelist := by rw [h.same]

theorem loading : r'.loading = r.loading := by rw [h.same]

end Extends

/-- A module was compiled from these lines, which are the script that a registry has for it, in this
scope. What it imports was in the library before it. -/
structure Built (r : Registry) (name : String) (m : Module) (lines : List Line) (sc : Scope)
    (before : Library) : Prop where
  script : ∃ source, r.source? name = some source ∧ parse source name = .ok lines
  taken : Scope.TakesAll { classes := r.classes } lines sc
  imports : ∀ e ∈ sc.imports, before.module? e.2.id = some e.2
  named : ∀ e ∈ sc.imports, e.2.name = e.1
  within : before.Within r.library
  module : m = sc.toModule before name r.whitelist
  place : r.library.module? m.id = some m

theorem Built.mono {m : Module} {lines : List Line} {sc : Scope} {before : Library}
    (h : r.Built name m lines sc before) (source : r'.source? name = r.source? name)
    (classes : r'.classes = r.classes) (whitelist : r'.whitelist = r.whitelist)
    (within : r.library.Within r'.library) : r'.Built name m lines sc before where
  script := by
    obtain ⟨text, found, read⟩ := h.script
    exact ⟨text, source.trans found, read⟩
  taken := by
    rw [classes]
    exact h.taken
  imports := h.imports
  named := h.named
  within := h.within.trans within
  module := by
    rw [whitelist]
    exact h.module
  place := within _ _ h.place

/-- What a module imports has a smaller number. -/
theorem Built.id_lt {m : Module} {lines : List Line} {sc : Scope} {before : Library}
    (h : r.Built name m lines sc before) {e : String × Module} (he : e ∈ sc.imports) :
    e.2.id < m.id := by
  have bound := (Array.getElem?_eq_some_iff.mp (h.imports e he)).1
  rw [h.module]
  exact bound

/-- The modules that a scope imports are those that are kept under their names. -/
def KeepsImports (r : Registry) (sc : Scope) : Prop := ∀ e ∈ sc.imports, r.kept? e.1 = some e.2

theorem Built.keepsImports {m : Module} {lines : List Line} {sc : Scope} {before : Library}
    (h : r.Built name m lines sc before) (current : r.UpToDate m) : r.KeepsImports sc := by
  intro e he
  have numbered : e.2.id ∈ m.imports := by
    rw [h.module]
    exact List.mem_map_of_mem he
  obtain ⟨d, found, kept⟩ := current _ numbered
  cases (h.within _ _ (h.imports e he)).symm.trans found
  rw [← h.named e he]
  exact kept

/-- All that is kept was compiled from the scripts that are there now; what is being loaded has a
script and is not kept yet. -/
structure Orderly (r : Registry) : Prop where
  built : ∀ x m, r.kept? x = some m → ∃ lines sc before, r.Built x m lines sc before
  apart : ∀ x ∈ r.loading, r.kept? x = none
  scripts : ∀ x ∈ r.loading, ∃ source, r.source? x = some source
  nodup : r.loading.Nodup

theorem Orderly.place (h : r.Orderly) {x : String} {m : Module} (hm : r.kept? x = some m) :
    r.library.module? m.id = some m := by
  obtain ⟨_, _, _, built⟩ := h.built x m hm
  exact built.place

theorem Orderly.name_eq (h : r.Orderly) {x : String} {m : Module} (hm : r.kept? x = some m) :
    m.name = x := by
  obtain ⟨_, _, _, built⟩ := h.built x m hm
  rw [built.module]
  rfl

/-- What a kept module imports has a smaller number. -/
theorem Orderly.id_lt_of_import (h : r.Orderly) {x : String} {m d : Module} {id : Nat}
    (hm : r.kept? x = some m) (hid : id ∈ m.imports) (hd : r.library.module? id = some d) :
    d.id < m.id := by
  obtain ⟨lines, sc, before, built⟩ := h.built x m hm
  rw [built.module] at hid
  obtain ⟨e, he, rfl⟩ := List.mem_map.mp hid
  cases (built.within _ _ (built.imports e he)).symm.trans hd
  exact built.id_lt he

/-- A module may begin to be loaded if it has a script and is neither kept nor being loaded. -/
theorem Orderly.enter (h : r.Orderly) (new : r.kept? name = none) {source : String}
    (found : r.source? name = some source) (other : name ∉ r.loading) :
    (r.enter name).Orderly where
  built := by
    intro x m hm
    obtain ⟨lines, sc, before, built⟩ := h.built x m hm
    exact ⟨lines, sc, before, built.mono rfl rfl rfl (.refl _)⟩
  apart := by
    intro x hx
    rcases List.mem_append.mp hx with old | here
    · exact h.apart x old
    · rw [List.mem_singleton.mp here]
      exact new
  scripts := by
    intro x hx
    rcases List.mem_append.mp hx with old | here
    · exact h.scripts x old
    · rw [List.mem_singleton.mp here]
      exact ⟨source, found⟩
  nodup := by
    change (r.loading ++ [name]).Nodup
    rw [List.nodup_append]
    refine ⟨h.nodup, by simp, ?_⟩
    intro x hx y hy same
    rw [List.mem_singleton.mp hy] at same
    exact other (same ▸ hx)

section

variable {q : Registry}

/-- What was loaded on behalf of a module counts when the module's own loading has ended. -/
theorem Extends.leave (h : (r.enter name).Extends q) : r.Extends q.leave where
  same := by
    rw [h.same]
    simp [enter, Registry.leave]
  kept := h.kept
  within := h.within
  once := h.once
  fresh := h.fresh

theorem Orderly.leave (h : q.Orderly) : q.leave.Orderly where
  built := by
    intro x m hm
    obtain ⟨lines, sc, before, built⟩ := h.built x m hm
    exact ⟨lines, sc, before, built.mono rfl rfl rfl (.refl _)⟩
  apart x hx := h.apart x (List.dropLast_subset _ hx)
  scripts x hx := h.scripts x (List.dropLast_subset _ hx)
  nodup := h.nodup.sublist (List.dropLast_sublist _)

variable {m : Module}

theorem Extends.mem_loading (h : (r.enter name).Extends q) : name ∈ q.loading := by
  rw [h.loading]
  exact List.mem_append_right _ (List.mem_singleton_self name)

/-- What is kept stays kept when a module is done that was being loaded. -/
theorem kept?_done {x : String} (new : q.kept? name = none) (hm : q.kept? x = some m)
    (m' : Module) : ((q.pushModule m').leave.keep name m').kept? x = some m := by
  have other : x ≠ name := by
    rintro rfl
    rw [new] at hm
    cases hm
  rw [kept?_keep, if_neg other]
  exact hm

/-- A module that was just compiled may be kept. -/
theorem Orderly.done (h : q.Orderly) (extended : (r.enter name).Extends q)
    (other : name ∉ r.loading) {lines : List Line} {sc : Scope} {source : String}
    (found : r.source? name = some source) (read : parse source name = .ok lines)
    (taken : Scope.TakesAll { classes := r.classes } lines sc)
    (kept : q.KeepsImports sc) (hm : m = sc.toModule q.library name r.whitelist) :
    ((q.pushModule m).leave.keep name m).Orderly := by
  -- The module was being loaded all the time, so nothing is kept under its name that is replaced.
  have new : q.kept? name = none := h.apart name (extended.mem_loading)
  have grown : q.library.Within ((q.pushModule m).leave.keep name m).library := .push _ _
  have loading : ((q.pushModule m).leave.keep name m).loading = r.loading := by
    change q.loading.dropLast = r.loading
    rw [extended.loading]
    simp [Registry.enter]
  have scripts (x : String) : ((q.pushModule m).leave.keep name m).source? x = r.source? x :=
    extended.source? x
  refine ⟨?_, ?_, ?_, ?_⟩
  · intro x n hn
    rw [kept?_keep] at hn
    split at hn
    · next same =>
      cases hn
      subst same
      refine ⟨lines, sc, q.library, ?_⟩
      exact {
        script := ⟨source, (scripts x).trans found, read⟩
        taken := by
          change Scope.TakesAll { classes := q.classes } lines sc
          rw [extended.classes]
          exact taken
        imports := fun e he ↦ h.place (kept e he)
        named := fun e he ↦ h.name_eq (kept e he)
        within := grown
        module := by
          change m = sc.toModule q.library x q.whitelist
          rw [extended.whitelist]
          exact hm
        place := by
          rw [hm]
          exact module?_nextId_push _ _ }
    · obtain ⟨lines', sc', before, built⟩ := h.built x n hn
      exact ⟨lines', sc', before, built.mono rfl rfl rfl grown⟩
  · intro x hx
    have mine : x ≠ name := by
      rintro rfl
      exact other (loading ▸ hx)
    rw [kept?_keep, if_neg mine]
    rw [loading] at hx
    exact h.apart x (by rw [extended.loading]; exact List.mem_append_left _ hx)
  · intro x hx
    rw [loading] at hx
    obtain ⟨text, hx⟩ := h.scripts x (by rw [extended.loading]; exact List.mem_append_left _ hx)
    exact ⟨text, hx⟩
  · rw [loading]
    have nodup := h.nodup
    rw [extended.loading] at nodup
    exact nodup.sublist (List.sublist_append_left _ _)

theorem Extends.done (extended : (r.enter name).Extends q) (new : q.kept? name = none)
    (hname : m.name = name) (current : q.UpToDate m) :
    r.Extends ((q.pushModule m).leave.keep name m) where
  same := by
    rw [extended.same]
    simp [Registry.enter, Registry.leave, pushModule, keep]
  kept x n hn := kept?_done new (extended.kept x n hn) m
  within := extended.within.trans (.push _ _)
  once id n hn := by
    rcases Nat.lt_trichotomy id q.library.modules.size with old | here | beyond
    · have hq : q.library.module? id = some n := by
        change (q.library.modules.push m)[id]? = some n at hn
        rw [Array.getElem?_push_lt old, ← Array.getElem?_eq_getElem old] at hn
        exact hn
      exact (extended.once id n hq).imp_right fun kept ↦ kept?_done new kept m
    · right
      change (q.library.modules.push m)[id]? = some n at hn
      rw [here, Array.getElem?_push_size] at hn
      cases hn
      rw [hname, kept?_keep, if_pos rfl]
    · change (q.library.modules.push m)[id]? = some n at hn
      have bound := (Array.getElem?_eq_some_iff.mp hn).1
      rw [Array.size_push] at bound
      omega
  fresh x n hn := by
    have grown {n : Module} (h : q.UpToDate n) :
        ((q.pushModule m).leave.keep name m).UpToDate n :=
      h.mono (fun _ _ hn ↦ kept?_done new hn m) (.push _ _)
    rw [kept?_keep] at hn
    split at hn
    · cases hn
      exact .inr (grown current)
    · exact (extended.fresh x n hn).imp_right grown

/-- A scope that imports what is kept gives a module that does so. -/
theorem upToDate_toModule (h : q.Orderly) {sc : Scope} (kept : q.KeepsImports sc)
    (library : Library) (name : String) (whitelist : Option Whitelist) :
    q.UpToDate (sc.toModule library name whitelist) := by
  intro id hid
  obtain ⟨e, he, rfl⟩ := List.mem_map.mp hid
  refine ⟨e.2, h.place (kept e he), ?_⟩
  rw [h.name_eq (kept e he)]
  exact kept e he

end

/-! ### What loading keeps -/

/-- From one orderly registry to another one that keeps all that was kept, and what was asked
for. -/
structure Settles (r : Registry) (name : String) (result : Except Diagnostic Module)
    (r' : Registry) : Prop where
  orderly : r'.Orderly
  extended : r.Extends r'
  kept : ∀ m, result = .ok m → r'.kept? name = some m

/-- A loader by which orderly registries stay orderly. -/
def Faithful (load : String → Loading Registry Module) : Prop :=
  ∀ (name : String) (r : Registry), r.Orderly →
    r.Settles name ((load name).run.run r).1 ((load name).run.run r).2

section

variable {load : String → Loading Registry Module} {sc : Scope} {q : Registry}

/-- One line: the registry stays orderly, and the scope imports what is kept. -/
theorem settles_declareIn (module : String) (line : Line) (faithful : Faithful load)
    (orderly : q.Orderly) (imports : q.KeepsImports sc) :
    let run := (sc.declareIn module load line).run.run q
    run.2.Orderly ∧ q.Extends run.2 ∧
      ∀ sc', run.1 = .ok sc' → sc.Takes line sc' ∧ run.2.KeepsImports sc' := by
  rw [Scope.run_declareIn]
  dsimp only
  suffices declared : ((sc.declare load line).run.run q).2.Orderly ∧
      q.Extends ((sc.declare load line).run.run q).2 ∧
      ∀ sc', ((sc.declare load line).run.run q).1 = .ok sc' →
        ((sc.declare load line).run.run q).2.KeepsImports sc' by
    obtain ⟨orderly', extended, kept⟩ := declared
    refine ⟨orderly', extended, ?_⟩
    intro sc' hsc
    cases ran : ((sc.declare load line).run.run q).1 with
    | error d =>
      rw [ran] at hsc
      cases hsc
    | ok sc₁ =>
      rw [ran] at hsc
      cases hsc
      exact ⟨Scope.takes_of_declare (Prod.ext ran rfl), kept _ ran⟩
  rcases sc.import_cases line with ⟨name, hd, known⟩ | ⟨name, hd, known⟩ | other
  · rw [Scope.run_declare_of_known hd known]
    refine ⟨orderly, .refl q, ?_⟩
    intro sc' hsc
    cases hsc
    exact imports
  · rw [Scope.run_declare_of_import hd known]
    obtain ⟨orderly', extended, kept⟩ := faithful name q orderly
    refine ⟨orderly', extended, ?_⟩
    intro sc' hsc
    obtain ⟨m, hm, rfl⟩ := map_eq_ok hsc
    intro e he
    rw [Ordered.put_of_hasKey_eq_false known] at he
    rcases List.mem_append.mp he with old | here
    · exact extended.kept _ _ (imports e old)
    · rw [List.mem_singleton.mp here]
      exact kept m hm
  · rw [Scope.run_declare_of_other other]
    refine ⟨orderly, .refl q, ?_⟩
    intro sc' hsc
    have declared : (sc.declare load line).run.run q = (.ok sc', q) := by
      rw [Scope.run_declare_of_other other, Prod.mk.injEq]
      exact ⟨hsc, rfl⟩
    intro e he
    rw [(Scope.takes_of_declare declared).imports_eq other] at he
    exact imports e he

/-- A whole script: if it is accepted, the scope imports what is kept; if not, then because of one
line of it. -/
theorem settles_ofLines (module : String) (faithful : Faithful load) (lines : List Line)
    (orderly : q.Orderly) (imports : q.KeepsImports sc) :
    let run := (lines.foldlM (Scope.declareIn module load) sc).run.run q
    run.2.Orderly ∧ q.Extends run.2 ∧
      (∀ sc', run.1 = .ok sc' → sc.TakesAll lines sc' ∧ run.2.KeepsImports sc') ∧
      ∀ d, run.1 = .error d → ∃ line ∈ lines, ∃ sc₁ q₁, q₁.Orderly ∧ q.Extends q₁ ∧
        ((Scope.declareIn module load sc₁ line).run.run q₁).1 = .error d := by
  induction lines generalizing sc q with
  | nil =>
    refine ⟨orderly, .refl q, ?_, ?_⟩
    · intro sc' hsc
      cases hsc
      exact ⟨.nil sc, imports⟩
    · intro d hd
      cases hd
  | cons line lines ih =>
    dsimp only
    rw [List.foldlM_cons, run_bind]
    obtain ⟨orderly₁, extended₁, kept₁⟩ :=
      settles_declareIn module line faithful orderly imports
    cases first : (sc.declareIn module load line).run.run q with
    | mk result q₁ =>
      rw [first] at orderly₁ extended₁ kept₁
      cases result with
      | error d =>
        refine ⟨orderly₁, extended₁, fun sc' hsc ↦ (by cases hsc), ?_⟩
        intro d' hd'
        cases hd'
        exact ⟨line, List.mem_cons_self, sc, q, orderly, .refl q, by rw [first]⟩
      | ok sc₁ =>
        obtain ⟨taken, imports₁⟩ := kept₁ sc₁ rfl
        obtain ⟨orderly', extended', accepted, refused⟩ := ih orderly₁ imports₁
        refine ⟨orderly', extended₁.trans extended', ?_, ?_⟩
        · intro sc' hsc
          obtain ⟨rest, kept⟩ := accepted sc' hsc
          exact ⟨.cons taken rest, kept⟩
        · intro d hd
          obtain ⟨line', hl, sc₂, q₂, orderly₂, extended₂, failed⟩ := refused d hd
          exact ⟨line', List.mem_cons_of_mem _ hl, sc₂, q₂, orderly₂, extended₁.trans extended₂,
            failed⟩

end

/-- A script that is compiled while its module is being loaded. -/
theorem settles_entered {load : String → Loading Registry Module} (faithful : Faithful load)
    (h : r.Orderly) (new : r.kept? name = none) {source : String}
    (found : r.source? name = some source) (other : name ∉ r.loading) (lines : List Line) :
    let run := (Scope.ofLines name r.classes load lines).run.run (r.enter name)
    run.2.Orderly ∧ (r.enter name).Extends run.2 ∧
      (∀ sc, run.1 = .ok sc →
        Scope.TakesAll { classes := r.classes } lines sc ∧ run.2.KeepsImports sc) ∧
      ∀ d, run.1 = .error d → ∃ line ∈ lines, ∃ sc q, q.Orderly ∧ (r.enter name).Extends q ∧
        ((Scope.declareIn name load sc line).run.run q).1 = .error d :=
  settles_ofLines name faithful lines (h.enter new found other) fun e he ↦ by cases he

/-- Loading, to any depth, is faithful. -/
theorem faithful_loadWithin (depth : Nat) : Faithful (loadWithin depth) := by
  induction depth with
  | zero => exact fun name r h ↦ ⟨h, .refl r, fun m hm ↦ by cases hm⟩
  | succ depth ih =>
    intro name r h
    have loads := loads_loadWithin depth name r
    generalize ((loadWithin (depth + 1) name).run.run r).1 = result at loads ⊢
    generalize ((loadWithin (depth + 1) name).run.run r).2 = r' at loads ⊢
    cases loads with
    | kept hm => exact ⟨h, .refl r, fun m hm' ↦ by cases hm'; exact hm⟩
    | missing | circular | refused => exact ⟨h, .refl r, fun m hm ↦ by cases hm⟩
    | @failed new source found other lines read d q taken =>
      have run := settles_entered ih h new found other lines
      rw [taken] at run
      obtain ⟨orderly, extended, -⟩ := run
      exact ⟨orderly.leave, extended.leave, fun m hm ↦ by cases hm⟩
    | @compiled new source found other lines read sc q taken =>
      have run := settles_entered ih h new found other lines
      rw [taken] at run
      obtain ⟨orderly, extended, accepted, -⟩ := run
      obtain ⟨takes, kept⟩ := accepted sc rfl
      have new' := orderly.apart name (extended.mem_loading)
      have current := upToDate_toModule orderly kept q.library name r.whitelist
      refine ⟨orderly.done extended other found read takes kept rfl,
        extended.done new' rfl current, ?_⟩
      intro m hm
      cases hm
      rw [kept?_keep, if_pos rfl]

/-- An orderly registry in which all that kept modules import is kept. -/
structure Coherent (r : Registry) : Prop extends Orderly r where
  current : ∀ x m, r.kept? x = some m → r.UpToDate m

theorem Coherent.extend (h : r.Coherent) (orderly : r'.Orderly) (extended : r.Extends r') :
    r'.Coherent where
  toOrderly := orderly
  current x m hm := by
    rcases extended.fresh x m hm with old | new
    · exact (h.current x m old).mono extended.kept extended.within
    · exact new

theorem Coherent.keepsImports (h : r.Coherent) {m : Module} {lines : List Line} {sc : Scope}
    {before : Library} (hm : r.kept? name = some m) (built : r.Built name m lines sc before) :
    r.KeepsImports sc :=
  built.keepsImports (h.current name m hm)

/-! ### Depth -/

theorem source?_of_memory (memory : r.root = none) (x : String) :
    r.source? x = Ordered.get? x r.sources := by
  have nowhere : r.pathOf x = none := by
    rw [pathOf, memory]
    split <;> rfl
  rw [Registry.source?, nowhere]
  cases Ordered.get? x r.sources <;> rfl

/-- No more modules are being loaded than there are scripts. -/
theorem Orderly.length_loading_le (h : r.Orderly) (memory : r.root = none) :
    r.loading.length ≤ r.sources.length := by
  have known : r.loading ⊆ r.sources.map Prod.fst := by
    intro x hx
    obtain ⟨source, found⟩ := h.scripts x hx
    rw [source?_of_memory memory] at found
    exact List.mem_map_of_mem (Ordered.entry_mem_of_get?_eq_some found)
  calc r.loading.length ≤ (r.sources.map Prod.fst).length :=
        (h.nodup.subperm known).length_le
    _ = r.sources.length := List.length_map _

/-- Every script can be loaded within the depth, beneath those that are being loaded. -/
structure Deep (r : Registry) (depth : Nat) : Prop where
  memory : r.root = none
  enough : r.sources.length < depth + r.loading.length

theorem Deep.extend {depth : Nat} (h : r.Deep depth) (extended : r.Extends r') : r'.Deep depth := by
  rw [extended.same]
  exact ⟨h.memory, h.enough⟩

theorem Deep.enter {depth : Nat} (h : r.Deep (depth + 1)) (name : String) :
    (r.enter name).Deep depth := by
  refine ⟨h.memory, ?_⟩
  have enough := h.enough
  change r.sources.length < depth + (r.loading ++ [name]).length
  rw [List.length_append, List.length_singleton]
  omega

theorem Deep.ne_zero {depth : Nat} (h : r.Deep depth) (orderly : r.Orderly) : depth ≠ 0 := by
  have bound := orderly.length_loading_le h.memory
  have enough := h.enough
  omega

/-- Loaders that agree on what a script imports compile it to the same. -/
theorem ofLines_congr {load load' : String → Loading Registry Module} (faithful : Faithful load)
    (agree : ∀ x q, q.Orderly → r.Extends q → (load x).run.run q = (load' x).run.run q)
    (module : String) (lines : List Line) {sc : Scope} {q : Registry} (orderly : q.Orderly)
    (extended : r.Extends q) (imports : q.KeepsImports sc) :
    (lines.foldlM (Scope.declareIn module load) sc).run.run q =
      (lines.foldlM (Scope.declareIn module load') sc).run.run q := by
  induction lines generalizing sc q with
  | nil => rfl
  | cons line lines ih =>
    have same : (sc.declare load line).run.run q = (sc.declare load' line).run.run q := by
      rcases sc.import_cases line with ⟨name, hd, known⟩ | ⟨name, hd, known⟩ | other
      · rw [Scope.run_declare_of_known hd known, Scope.run_declare_of_known hd known]
      · rw [Scope.run_declare_of_import hd known, Scope.run_declare_of_import hd known,
          agree name q orderly extended]
      · rw [Scope.run_declare_of_other other, Scope.run_declare_of_other other]
    have first : (sc.declareIn module load line).run.run q =
        (sc.declareIn module load' line).run.run q := by
      rw [Scope.run_declareIn, Scope.run_declareIn, same]
    obtain ⟨orderly', extended', kept⟩ :=
      settles_declareIn module line faithful orderly imports
    rw [List.foldlM_cons, List.foldlM_cons, run_bind, run_bind, ← first]
    cases ran : (sc.declareIn module load line).run.run q with
    | mk result q' =>
      rw [ran] at orderly' extended' kept
      cases result with
      | error d => rfl
      | ok sc' => exact ih orderly' (extended.trans extended') (kept sc' rfl).2

/-- Any depth that is enough for all scripts gives the same. -/
theorem loadWithin_eq {depth depth' : Nat} {r : Registry} (orderly : r.Orderly)
    (deep : r.Deep depth) (deep' : r.Deep depth') (name : String) :
    (loadWithin depth name).run.run r = (loadWithin depth' name).run.run r := by
  induction depth generalizing depth' r name with
  | zero => exact absurd rfl (deep.ne_zero orderly)
  | succ depth ih =>
    cases depth' with
    | zero => exact absurd rfl (deep'.ne_zero orderly)
    | succ depth' =>
      cases new : r.kept? name with
      | some m => rw [run_loadWithin_of_kept new, run_loadWithin_of_kept new]
      | none =>
        cases found : r.source? name with
        | none => rw [run_loadWithin_of_missing new found, run_loadWithin_of_missing new found]
        | some source =>
          by_cases again : name ∈ r.loading
          · rw [run_loadWithin_of_loading new found again,
              run_loadWithin_of_loading new found again]
          · rw [run_loadWithin_of_new new found again, run_loadWithin_of_new new found again]
            have same : (compile (loadWithin depth) name r.classes r.whitelist source).run.run
                (r.enter name) = (compile (loadWithin depth') name r.classes r.whitelist
                  source).run.run (r.enter name) := by
              cases read : parse source name with
              | error d => rw [run_compile_of_refused read, run_compile_of_refused read]
              | ok lines =>
                rw [run_compile_of_parse read, run_compile_of_parse read, Scope.ofLines,
                  Scope.ofLines, ofLines_congr (faithful_loadWithin depth) _ name lines
                    (orderly.enter new found again) (.refl _) fun e he ↦ by cases he]
                intro x q hq extended
                -- One level less to go, but one more module that is being loaded.
                have below := (deep.enter name).extend extended
                exact ih hq below ((deep'.enter name).extend extended) x
            rw [same]

end Registry

end Formulary
