import Formulary.Proofs.ImportPaths
import Formulary.Proofs.ScriptFiles

/-!
# Where diagnostics arise

A script is refused because of the first of its declarations that is not accepted: what comes after
it plays no part, and the diagnostic has its place, unless it is an import and the diagnostic comes
from another module (`Scope.Refuses`). So what a registry reports has the place where it arose,
however far down the imports that is (`Registry.ArisesIn`). Both together are
`first_problem_reported`. What is reported about imports themselves is true too
(`Registry.imports_reported_truly`).
-/

namespace Formulary

/-! ### Runs over lists -/

section

variable {ε ρ α β : Type} {f : β → α → ExceptT ε (StateM ρ) β} {b b' : β} {r r' q : ρ}

/-- A run over a list goes on from where its first part leads. -/
theorem run_foldlM_append {before : List α} (h : (before.foldlM f b).run.run r = (.ok b', q))
    (rest : List α) :
    ((before ++ rest).foldlM f b).run.run r = (rest.foldlM f b').run.run q := by
  rw [List.foldlM_append, run_bind, h]

/-- A run that fails does so at one element, and succeeds up to there. -/
theorem exists_of_foldlM_error {as : List α} {e : ε}
    (failed : (as.foldlM f b).run.run r = (.error e, r')) :
    ∃ before a after b' q, as = before ++ a :: after ∧
      (before.foldlM f b).run.run r = (.ok b', q) ∧ (f b' a).run.run q = (.error e, r') := by
  induction as generalizing b r with
  | nil => cases failed
  | cons a as ih =>
    cases first : (f b a).run.run r with
    | mk result q =>
      cases result with
      | error e' =>
        rw [List.foldlM_cons, run_bind, first] at failed
        cases failed
        exact ⟨[], a, as, b, r, rfl, rfl, first⟩
      | ok b₁ =>
        rw [run_foldlM_cons first] at failed
        obtain ⟨before, a', after, b', q', rfl, accepted, refused⟩ := ih failed
        refine ⟨a :: before, a', after, b', q', rfl, ?_, refused⟩
        rw [run_foldlM_cons first]
        exact accepted

end

/-! ### Scripts -/

namespace Scope

variable {ρ : Type} {load : String → Loading ρ Module} {module : String} {sc : Scope} {line : Line}
  {lines : List Line} {q q' : ρ} {d : Diagnostic}

/-- Why a declaration is refused, and with which diagnostic. One that imports a module has the
resolver's, with the place of the declaration if it has none yet. -/
inductive Refuses (load : String → Loading ρ Module) (module : String) (sc : Scope) (line : Line)
    (q : ρ) : Diagnostic → ρ → Prop where
  | problem {p : Problem} (other : ∀ name, line.declaration ≠ .imports name)
      (refused : sc.declared line = .error p) :
      Refuses load module sc line q (p.diagnostic.located module line.number) q
  | unplaced {name : String} {d : Diagnostic} {q' : ρ} (hd : line.declaration = .imports name)
      (new : Ordered.hasKey name sc.imports = false)
      (failed : (load name).run.run q = (.error d, q')) (empty : d.module = "") :
      Refuses load module sc line q (d.located module line.number) q'
  | passed {name : String} {d : Diagnostic} {q' : ρ} (hd : line.declaration = .imports name)
      (new : Ordered.hasKey name sc.imports = false)
      (failed : (load name).run.run q = (.error d, q')) (placed : d.module ≠ "") :
      Refuses load module sc line q d q'

/-- A refused declaration is where the diagnostic has its place, unless it is an import and the
diagnostic had one before. -/
theorem Refuses.place (h : sc.Refuses load module line q d q') :
    d.module = module ∧ d.line = line.number ∨
      ∃ name, line.declaration = .imports name ∧ (load name).run.run q = (.error d, q') ∧
        d.module ≠ "" := by
  cases h with
  | problem | unplaced => exact .inl ⟨rfl, rfl⟩
  | passed hd new failed placed => exact .inr ⟨_, hd, failed, placed⟩

theorem refuses_of_declareIn (failed : (sc.declareIn module load line).run.run q = (.error d, q')) :
    sc.Refuses load module line q d q' := by
  rw [run_declareIn] at failed
  rcases sc.import_cases line with ⟨name, hd, known⟩ | ⟨name, hd, known⟩ | other
  · rw [run_declare_of_known hd known] at failed
    cases failed
  · rw [run_declare_of_import hd known] at failed
    cases loaded : (load name).run.run q with
    | mk result q₁ =>
      rw [loaded] at failed
      cases result with
      | ok m => cases failed
      | error d₁ =>
        cases failed
        change sc.Refuses load module line q (d₁.orLocated module line.number) q₁
        rcases d₁.orLocated_cases module line.number with ⟨empty, same⟩ | ⟨placed, same⟩
        · rw [same]
          exact .unplaced hd known loaded empty
        · rw [same]
          exact .passed hd known loaded placed
  · rw [run_declare_of_other other] at failed
    cases declared : sc.declared line with
    | ok sc' =>
      rw [declared] at failed
      cases failed
    | error p =>
      rw [declared] at failed
      cases failed
      exact .problem other declared

end Scope

namespace Registry

open Relation

variable {r r' q : Registry} {a name : String} {d : Diagnostic}

/-! ### What loading leaves as it is -/

/-- Registries that differ in what was compiled alone. -/
def OnlyCompiles (r r' : Registry) : Prop :=
  r' = { r with compiled := r'.compiled, library := r'.library }

namespace OnlyCompiles

theorem refl (r : Registry) : r.OnlyCompiles r := rfl

theorem trans (h : r.OnlyCompiles q) (h' : q.OnlyCompiles r') : r.OnlyCompiles r' := by
  rw [OnlyCompiles] at h h' ⊢
  rw [h', h]

theorem leave (h : (r.enter name).OnlyCompiles q) : r.OnlyCompiles q.leave := by
  rw [OnlyCompiles] at h ⊢
  rw [h]
  simp [enter, Registry.leave]

theorem done (h : (r.enter name).OnlyCompiles q) (m : Module) :
    r.OnlyCompiles ((q.pushModule m).leave.keep name m) := by
  rw [OnlyCompiles] at h ⊢
  rw [h]
  simp [enter, Registry.leave, pushModule, keep]

variable (h : r.OnlyCompiles r')
include h

theorem source? (x : String) : r'.source? x = r.source? x := by
  rw [OnlyCompiles] at h
  rw [h]
  rfl

theorem classes : r'.classes = r.classes := by
  rw [OnlyCompiles] at h
  rw [h]

theorem loading : r'.loading = r.loading := by
  rw [OnlyCompiles] at h
  rw [h]

end OnlyCompiles

private theorem onlyCompiles_loadWithin (depth : Nat) (name : String) (r : Registry) :
    r.OnlyCompiles ((loadWithin depth name).run.run r).2 := by
  induction depth generalizing name r with
  | zero => exact .refl r
  | succ depth ih =>
    have loads := loads_loadWithin depth name r
    generalize ((loadWithin (depth + 1) name).run.run r).1 = result at loads
    generalize ((loadWithin (depth + 1) name).run.run r).2 = r' at loads ⊢
    have inside (lines : List Line) : (r.enter name).OnlyCompiles
        ((Scope.ofLines name r.classes (loadWithin depth) lines).run.run (r.enter name)).2 :=
      Scope.leads_ofLines .refl .trans ih name lines _ _
    cases loads with
    | kept | missing | circular | refused => exact .refl r
    | @failed new source found other lines read d q taken =>
      have run := inside lines
      rw [taken] at run
      exact run.leave
    | @compiled new source found other lines read sc q taken =>
      have run := inside lines
      rw [taken] at run
      exact run.done _

/-! ### Where diagnostics arise -/

/-- The lines of a module's script before one of them are accepted, and lead to a scope. -/
def ComesTo (r : Registry) (a : String) (line : Line) (sc : Scope) : Prop :=
  ∃ source before after, r.source? a = some source ∧
    parse source a = .ok (before ++ line :: after) ∧
    Scope.TakesAll { classes := r.classes } before sc

/-- A diagnostic arises in a module's script and has its place there: the script cannot be read, or
the first line that is not accepted has a problem, or it imports a module that has no script or that
leads back here. -/
inductive ArisesIn (r : Registry) (a : String) : Diagnostic → Prop where
  | unreadable {source : String} {d : Diagnostic} (found : r.source? a = some source)
      (read : parse source a = .error d) : ArisesIn r a d
  | problem {line : Line} {sc : Scope} {p : Problem} (here : r.ComesTo a line sc)
      (refused : sc.declared line = .error p) :
      ArisesIn r a (p.diagnostic.located a line.number)
  | missing {line : Line} {sc : Scope} {next : String} (here : r.ComesTo a line sc)
      (hd : line.declaration = .imports next) (missing : r.source? next = none) :
      ArisesIn r a ((Diagnostic.notFound next).located a line.number)
  | circular {line : Line} {sc : Scope} {next : String} {path : List String}
      (here : r.ComesTo a line sc) (hd : line.declaration = .imports next)
      (back : ReflTransGen r.Imports next a) (again : next ∈ path) :
      ArisesIn r a ((circular path next).located a line.number)

theorem ArisesIn.module (h : r.ArisesIn a d) : d.module = a := by
  cases h with
  | unreadable found read => exact (of_parse_eq_error read).2
  | problem | missing | circular => rfl

/-- A module that is not found has no script. -/
theorem ArisesIn.missing_of_kind (h : r.ArisesIn a d) (kind : d.kind = .moduleNotFound) :
    ∃ x, r.Imports a x ∧ r.source? x = none ∧ d.message = (Diagnostic.notFound x).message := by
  cases h with
  | unreadable found read => cases (of_parse_eq_error read).1.symm.trans kind
  | @problem _ _ p => cases p <;> cases kind
  | @missing line _ next here hd missing =>
    obtain ⟨source, before, after, found, read, -⟩ := here
    exact ⟨next, ⟨line.number, source, _, found, read, line, by simp, rfl, hd⟩, missing, rfl⟩
  | circular => cases kind

theorem ArisesIn.congr (scripts : ∀ x, q.source? x = r.source? x) (classes : q.classes = r.classes)
    (h : q.ArisesIn a d) : r.ArisesIn a d := by
  have comes : ∀ {line sc}, q.ComesTo a line sc → r.ComesTo a line sc := by
    intro line sc h
    unfold ComesTo at h ⊢
    rwa [scripts, classes] at h
  cases h with
  | unreadable found read => exact .unreadable ((scripts a).symm.trans found) read
  | problem here refused => exact .problem (comes here) refused
  | missing here hd missing => exact .missing (comes here) hd ((scripts _).symm.trans missing)
  | circular here hd back again =>
    have back' := ReflTransGen.mono (fun x y ↦ (imports_congr scripts x y).mp) _ _ back
    exact .circular (comes here) hd back' again

/-- A module is to be loaded beneath those that are being loaded. These differ, have scripts and
lead to it by their imports, and there is room for as many more as can have scripts. -/
structure Beneath (r : Registry) (depth : Nat) (name : String) : Prop where
  nodup : r.loading.Nodup
  scripts : ∀ x ∈ r.loading, ∃ source, r.source? x = some source
  leads : ∀ x ∈ r.loading, ReflTransGen r.Imports x name
  room : ∀ names : List String, names.Nodup →
    (∀ x ∈ names, ∃ source, r.source? x = some source) →
      names.length < depth + r.loading.length

private theorem beneath_depth (idle : r.loading = []) (name : String) : r.Beneath r.depth name where
  nodup := by
    rw [idle]
    exact .nil
  scripts x hx := by
    rw [idle] at hx
    cases hx
  leads x hx := by
    rw [idle] at hx
    cases hx
  room names nodup scripts := by
    have bound := length_le_of_scripts nodup scripts
    unfold depth
    omega

private theorem Beneath.depth_ne_zero {depth : Nat} (h : r.Beneath depth name) : depth ≠ 0 := by
  have room := h.room r.loading h.nodup h.scripts
  omega

/-- What a module imports is loaded beneath it, one level less deep. -/
theorem Beneath.next {depth : Nat} {source next : String} (h : r.Beneath (depth + 1) name)
    (found : r.source? name = some source) (other : name ∉ r.loading)
    (only : (r.enter name).OnlyCompiles q) (imports : r.Imports name next) :
    q.Beneath depth next := by
  have sources (x : String) : q.source? x = r.source? x := only.source? x
  have loading : q.loading = r.loading ++ [name] := only.loading
  have among : ∀ x ∈ q.loading, x ∈ r.loading ∨ x = name := by
    intro x hx
    rw [loading, List.mem_append] at hx
    exact hx.imp_right List.mem_singleton.mp
  refine ⟨?_, fun x hx ↦ ?_, fun x hx ↦ ?_, fun names nodup scripts ↦ ?_⟩
  · rw [loading, List.nodup_append]
    refine ⟨h.nodup, by simp, fun x hx y hy same ↦ ?_⟩
    rw [List.mem_singleton.mp hy] at same
    exact other (same ▸ hx)
  · rw [sources]
    rcases among x hx with old | rfl
    · exact h.scripts x old
    · exact ⟨source, found⟩
  · have step : q.Imports name next := (imports_congr sources name next).mpr imports
    rcases among x hx with old | rfl
    · have path := ReflTransGen.mono (fun x y ↦ (imports_congr sources x y).mpr) _ _ (h.leads x old)
      exact path.tail step
    · exact .single step
  · simp only [sources] at scripts
    have room := h.room names nodup scripts
    rw [loading, List.length_append, List.length_singleton]
    omega

/-- A diagnostic of loading arises where its place is, in a module that is imported in the end. It
has no place if the module itself has no script or is being loaded. -/
theorem arises_loadWithin {depth : Nat} (beneath : r.Beneath depth name)
    (failed : ((loadWithin depth name).run.run r).1 = .error d) :
    r.source? name = none ∧ d = Diagnostic.notFound name ∨
      name ∈ r.loading ∧ d = circular r.loading name ∨
      ∃ a, ReflTransGen r.Imports name a ∧ r.ArisesIn a d := by
  induction depth generalizing r name d with
  | zero => exact absurd rfl beneath.depth_ne_zero
  | succ depth ih =>
    have loads := loads_loadWithin depth name r
    rw [failed] at loads
    generalize ((loadWithin (depth + 1) name).run.run r).2 = r' at loads
    cases loads with
    | missing new missing => exact .inl ⟨missing, rfl⟩
    | circular new found again => exact .inr (.inl ⟨again, rfl⟩)
    | refused new found other read => exact .inr (.inr ⟨name, .refl, .unreadable found read⟩)
    | @failed new source found other lines read d q taken =>
      obtain ⟨before, line, after, sc, q₁, rfl, accepted, refused⟩ := exists_of_foldlM_error taken
      have here : r.ComesTo name line sc :=
        ⟨source, before, after, found, read, Scope.takesAll_of_run accepted⟩
      have only : (r.enter name).OnlyCompiles q₁ := by
        have run := Scope.leads_ofLines .refl .trans (onlyCompiles_loadWithin depth) name before
          { classes := r.classes } (r.enter name)
        rwa [accepted] at run
      have scripts (x : String) : q₁.source? x = r.source? x := only.source? x
      have imports : ∀ next, line.declaration = .imports next → r.Imports name next :=
        fun next hd ↦ ⟨line.number, source, _, found, read, line, by simp, rfl, hd⟩
      right
      right
      cases Scope.refuses_of_declareIn refused with
      | problem other' problem => exact ⟨name, .refl, .problem here problem⟩
      | @unplaced next d' _ hd fresh loaded empty =>
        have below := beneath.next found other only (imports next hd)
        rcases ih below (congrArg Prod.fst loaded) with
          ⟨missing, rfl⟩ | ⟨again, rfl⟩ | ⟨a, path, arises⟩
        · rw [scripts] at missing
          exact ⟨name, .refl, .missing here hd missing⟩
        · have back : ReflTransGen r.Imports next name := by
            rw [only.loading] at again
            rcases List.mem_append.mp again with old | last
            · exact beneath.leads next old
            · rw [List.mem_singleton.mp last]
          exact ⟨name, .refl, .circular here hd back again⟩
        · -- The diagnostic has the name of an imported module, which is not empty.
          have placed : a ≠ "" := by
            rcases ReflTransGen.cases_tail path with same | ⟨b, -, last⟩
            · rw [same]
              exact (imports next hd).ne_empty
            · exact last.ne_empty
          exact absurd (arises.module.symm.trans empty) placed
      | @passed next _ _ hd fresh loaded placed =>
        have below := beneath.next found other only (imports next hd)
        rcases ih below (congrArg Prod.fst loaded) with
          ⟨missing, rfl⟩ | ⟨again, rfl⟩ | ⟨a, path, arises⟩
        · exact absurd rfl placed
        · exact absurd rfl placed
        · have path' := ReflTransGen.mono (fun x y ↦ (imports_congr scripts x y).mp) _ _ path
          exact ⟨a, .head (imports next hd) path', arises.congr scripts only.classes⟩

/-- Loading from scripts in memory ends, and what it says about imports is true. Being allowed to
nest deeper makes no difference, so it never fails for want of depth. When it succeeds, all modules
that are imported, directly or not, have a script, and none of them imports itself, directly or not.
When it fails because a module is not found, that is the module that was asked for or an imported
one, and it has no script. When it fails with a diagnostic of circular imports, this tells a path of
imports from the module that was asked for to one that is on the path already, all others being
different, and it has the place of the last import. -/
theorem imports_reported_truly (sources : List (String × String)) (classes : List ClassSignature)
    (whitelist : Option Whitelist) (library : Library) (name : String) :
    let r := ofSources sources classes whitelist library
    (∀ depth, r.depth ≤ depth →
        (loadWithin depth name).run.run r = (load name).run.run r) ∧
      (∀ m r', (load name).run.run r = (.ok m, r') → ∀ x, ReflTransGen r.Imports name x →
        (∃ source, Ordered.get? x sources = some source) ∧ ¬TransGen r.Imports x x) ∧
      (∀ d r', (load name).run.run r = (.error d, r') → d.kind = .moduleNotFound →
        ∃ x, ReflTransGen r.Imports name x ∧ Ordered.get? x sources = none ∧
          d.message = (Diagnostic.notFound x).message) ∧
      ∀ d r', (load name).run.run r = (.error d, r') → d.IsCircular →
        ∃ path a last, path.head? = some name ∧ path.getLast? = some a ∧
          (path ++ [last]).IsChain r.Imports ∧ path.Nodup ∧ last ∈ path ∧
          d.message = "circular import: " ++ String.intercalate " -> " (path ++ [last]) ∧
          d.module = a ∧ r.ImportsOn d.line a last := by
  intro r
  have coherent : r.Coherent := coherent_ofSources sources classes whitelist library
  have memory : r.root = none := rfl
  simp only [run_load]
  refine ⟨?_, ?_, ?_, ?_⟩
  · intro depth enough
    have deep := deep_of_depth_le memory (Nat.le_refl r.depth)
    exact loadWithin_eq coherent.toOrderly (deep_of_depth_le memory enough) deep name
  · intro m r' loaded x path
    have settled := faithful_loadWithin r.depth name r coherent.toOrderly
    rw [loaded] at settled
    have coherent' := coherent.extend settled.orderly settled.extended
    have imports (a b : String) : r.Imports a b ↔ r'.Imports a b :=
      (imports_congr settled.extended.source? a b).symm
    obtain ⟨m', hm'⟩ := coherent'.kept_of_reaches (settled.kept m rfl)
      (ReflTransGen.mono (fun a b ↦ (imports a b).mp) _ _ path)
    obtain ⟨lines, sc, before, built⟩ := coherent'.built x m' hm'
    obtain ⟨source, found, -⟩ := built.script
    rw [settled.extended.source?, source?_of_memory memory] at found
    refine ⟨⟨source, found⟩, fun cycle ↦ coherent'.acyclic hm' ?_⟩
    exact TransGen.mono (fun a b ↦ (imports a b).mp) _ _ cycle
  · intro d r' failed kind
    have scripts : ∀ x, r.source? x = Ordered.get? x sources := source?_of_memory memory
    rcases arises_loadWithin (beneath_depth rfl name) (congrArg Prod.fst failed) with
      ⟨missing, rfl⟩ | ⟨again, -⟩ | ⟨a, path, arises⟩
    · exact ⟨name, .refl, (scripts name).symm.trans missing, rfl⟩
    · cases again
    · obtain ⟨x, imports, missing, message⟩ := arises.missing_of_kind kind
      exact ⟨x, path.tail imports, (scripts x).symm.trans missing, message⟩
  · intro d r' failed circular
    have leads := leads_loadWithin coherent.toOrderly circular (congrArg Prod.fst failed)
    cases leads with
    | back again => cases again
    | along before a last line starts chain nodup again place diagnostic =>
      refine ⟨before ++ [a], a, last, starts, by simp, by simpa using chain, nodup, again, ?_⟩
      rw [diagnostic]
      exact ⟨rfl, rfl, place⟩

end Registry

open Relation in
/-- Diagnostics name the first declaration that is refused.

Let a script be compiled with any way to load modules, from any state, and be refused. Then there is
a line of it such that the script up to there is accepted, and every script that goes on with this
line is refused with the same diagnostic. Its place is that line in this module, unless the line
imports a module and loading that fails with a diagnostic that has a place already; this is passed
on as it is.

So if a registry in which nothing is being loaded fails to load a module, then the module has no
script, or the diagnostic arose in a module that is imported in the end, and has its place there:
the script of that module cannot be read, or it is accepted up to the line of the diagnostic. -/
theorem first_problem_reported :
    (∀ {ρ : Type} (load : String → Loading ρ Module) (module : String)
      (classes : List ClassSignature) (lines : List Line) (q q' : ρ) (d : Diagnostic),
      (Scope.ofLines module classes load lines).run.run q = (.error d, q') →
      ∃ before line after sc q₁, lines = before ++ line :: after ∧
        (Scope.ofLines module classes load before).run.run q = (.ok sc, q₁) ∧
        (∀ rest, (Scope.ofLines module classes load (before ++ line :: rest)).run.run q =
          (.error d, q')) ∧
        sc.Refuses load module line q₁ d q' ∧
        (d.module = module ∧ d.line = line.number ∨
          ∃ name, line.declaration = .imports name ∧ (load name).run.run q₁ = (.error d, q') ∧
            d.module ≠ "")) ∧
    ∀ (r r' : Registry) (name : String) (d : Diagnostic), r.loading = [] →
      (Registry.load name).run.run r = (.error d, r') →
      r.source? name = none ∧ d = Diagnostic.notFound name ∨
        ∃ a, ReflTransGen r.Imports name a ∧ r.ArisesIn a d ∧ d.module = a := by
  constructor
  · intro ρ load module classes lines q q' d failed
    obtain ⟨before, line, after, sc, q₁, rfl, accepted, refused⟩ := exists_of_foldlM_error failed
    have refuses := Scope.refuses_of_declareIn refused
    refine ⟨before, line, after, sc, q₁, rfl, accepted, fun rest ↦ ?_, refuses, refuses.place⟩
    rw [Scope.ofLines, run_foldlM_append accepted, List.foldlM_cons, run_bind, refused]
  · intro r r' name d idle failed
    rw [Registry.run_load] at failed
    rcases Registry.arises_loadWithin (Registry.beneath_depth idle name)
        (congrArg Prod.fst failed) with missing | ⟨again, -⟩ | ⟨a, path, arises⟩
    · exact .inl missing
    · rw [idle] at again
      cases again
    · exact .inr ⟨a, path, arises, arises.module⟩

end Formulary
