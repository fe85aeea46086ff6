import Formulary.Proofs.Outcomes
import Formulary.Whitelist.Standard

/-!
# Replaced scripts

A new script for a module makes the registry forget what was compiled of the old one, but not what
was compiled of modules that import it. Loading a module looks at no other modules than those that
it imports, directly or not (`Registry.matches_loadWithin`). So if those among them that are kept
are up to date, it goes as it does on a new registry with the present scripts
(`Registry.scripts_take_effect`); if not, it may return a module that no new registry returns
(`Edited.circle_unnoticed`).
-/

namespace Formulary

open Relation

/-! ### Steps that look at the same -/

section

variable {ε ρ ρ' α β : Type} {I : ρ → ρ' → Prop} {P : α → β → Prop}

theorem matches_get : Matches I I (get : ExceptT ε (StateM ρ) ρ) (get : ExceptT ε (StateM ρ') ρ') :=
  fun _ _ related ↦ ⟨.ok related, related⟩

theorem matches_modify {f : ρ → ρ} {g : ρ' → ρ'} (h : ∀ r r', I r r' → I (f r) (g r')) :
    Matches I (fun _ _ ↦ True) (modify f : ExceptT ε (StateM ρ) PUnit)
      (modify g : ExceptT ε (StateM ρ') PUnit) :=
  fun r r' related ↦ ⟨.ok trivial, h r r' related⟩

/-- What is done in the end is done on both sides. -/
theorem Matches.finally {x : ExceptT ε (StateM ρ) α} {y : ExceptT ε (StateM ρ') β} {f : ρ → ρ}
    {g : ρ' → ρ'} (h : Matches I P x y) (last : ∀ r r', I r r' → I (f r) (g r')) :
    Matches I P (try x finally modify f) (try y finally modify g) := by
  intro r r' related
  rw [run_finally, run_finally]
  obtain ⟨agree, related'⟩ := h r r' related
  exact ⟨agree, last _ _ related'⟩

theorem Matches.foldlM {γ : Type} {I : ρ → ρ → Prop} {f : γ → α → ExceptT ε (StateM ρ) γ}
    (as : List α) (c : γ) (h : ∀ a ∈ as, ∀ c, Matches I Eq (f c a) (f c a)) :
    Matches I Eq (as.foldlM f c) (as.foldlM f c) := by
  induction as generalizing c with
  | nil => exact matches_pure rfl
  | cons a as ih =>
    rw [List.foldlM_cons]
    refine (h a List.mem_cons_self c).bind ?_
    rintro c' _ rfl
    exact ih c' fun b hb ↦ h b (List.mem_cons_of_mem _ hb)

end

namespace Registry

/-! ### What loading looks at -/

variable {S : String → Prop} {r r' : Registry}

/-- Registries that differ at most in what they keep under names that are not among some; the
scripts of these import only such modules. -/
structure AgreeOn (S : String → Prop) (r r' : Registry) : Prop where
  same : r' = { r with compiled := r'.compiled }
  kept : ∀ x, S x → r'.kept? x = r.kept? x
  closed : ∀ a b, S a → r.Imports a b → S b

namespace AgreeOn

theorem enter (h : AgreeOn S r r') (name : String) : AgreeOn S (r.enter name) (r'.enter name) where
  same := by
    rw [h.same]
    rfl
  kept := h.kept
  closed := h.closed

theorem leave (h : AgreeOn S r r') : AgreeOn S r.leave r'.leave where
  same := by
    rw [h.same]
    rfl
  kept := h.kept
  closed := h.closed

theorem keep (h : AgreeOn S r r') (name : String) (m : Module) :
    AgreeOn S (r.keep name m) (r'.keep name m) where
  same := by
    rw [h.same]
    rfl
  kept x hx := by rw [kept?_keep, kept?_keep, h.kept x hx]
  closed := h.closed

theorem pushModule (h : AgreeOn S r r') (m : Module) :
    AgreeOn S (r.pushModule m) (r'.pushModule m) where
  same := by
    rw [h.same]
    rfl
  kept := h.kept
  closed := h.closed

theorem source? (h : AgreeOn S r r') (x : String) : r'.source? x = r.source? x := by
  rw [h.same]
  rfl

end AgreeOn

/-- A line of a script, where the loader does the same on both sides for the module that the line
imports, if it does. -/
theorem matches_declareIn {load : String → Loading Registry Module} (module : String) {line : Line}
    (loads : ∀ x, line.declaration = .imports x → Matches (AgreeOn S) Eq (load x) (load x))
    (sc : Scope) :
    Matches (AgreeOn S) Eq (sc.declareIn module load line) (sc.declareIn module load line) := by
  have settled (x : Except Problem Scope) :
      Matches (AgreeOn S) Eq (Scope.settle x) (Scope.settle x) :=
    fun r r' related ↦ ⟨.refl _, related⟩
  refine Matches.tryCatch ?_ fun d ↦ matches_throw _
  unfold Scope.declare
  cases hd : line.declaration with
  | imports x =>
    dsimp only
    unfold Scope.importModule
    split
    · exact matches_pure rfl
    · refine (loads x hd).bind ?_
      rintro m _ rfl
      exact matches_pure rfl
  | node name parent | formula name body | param name default => exact settled _

/-- A script, where the loader does the same on both sides for all modules that the script
imports. -/
theorem matches_compile {load : String → Loading Registry Module} (name : String)
    (classes : List ClassSignature) (whitelist : Option Whitelist) {source : String}
    (loads : ∀ lines, parse source name = .ok lines → ∀ l ∈ lines, ∀ x,
      l.declaration = .imports x → Matches (AgreeOn S) Eq (load x) (load x)) :
    Matches (AgreeOn S) Eq (compile load name classes whitelist source)
      (compile load name classes whitelist source) := by
  unfold compile
  cases read : parse source name with
  | error d => exact matches_throw d
  | ok lines =>
    refine Matches.bind (P := fun taken taken' ↦ taken = lines ∧ taken' = lines)
      (fun _ _ related ↦ ⟨.ok ⟨rfl, rfl⟩, related⟩) ?_
    rintro taken taken' ⟨here, there⟩
    rw [here, there]
    refine (Matches.foldlM lines _ fun l hl sc ↦
      matches_declareIn name (loads lines read l hl) sc).bind ?_
    rintro sc _ rfl
    refine matches_get.bind fun r r' related ↦ ?_
    have library : r'.library = r.library := by rw [related.same]
    rw [library]
    exact (matches_modify fun _ _ related ↦ related.pushModule _).bind fun _ _ _ ↦ matches_pure rfl

/-- Loading a module is the same wherever the same is kept of the modules that it imports, directly
or not. -/
theorem matches_loadWithin (depth : Nat) {name : String} (hn : S name) :
    Matches (AgreeOn S) Eq (loadWithin depth name) (loadWithin depth name) := by
  induction depth generalizing name with
  | zero => exact matches_throw _
  | succ depth ih =>
    refine matches_get.bind fun r r' related ↦ ?_
    have kept : Ordered.get? name r'.compiled = Ordered.get? name r.compiled := related.kept name hn
    have loading : r'.loading = r.loading := by rw [related.same]
    have classes : r'.classes = r.classes := by rw [related.same]
    have whitelist : r'.whitelist = r.whitelist := by rw [related.same]
    rw [kept, related.source?, loading, classes, whitelist]
    split
    · exact matches_pure rfl
    · split
      · exact matches_throw _
      · next source found =>
        split
        · exact matches_throw _
        · refine (matches_modify fun _ _ related ↦ related.enter name).bind fun _ _ _ ↦ ?_
          refine Matches.bind (Matches.finally (matches_compile name r.classes r.whitelist ?_)
            fun _ _ related ↦ related.leave) ?_
          · intro lines read l hl x hd
            -- The loader is asked for modules of the set only, since it is closed.
            have imports : r.Imports name x :=
              ⟨l.number, source, lines, found, read, l, hl, rfl, hd⟩
            exact ih (related.closed name x hn imports)
          · rintro m _ rfl
            exact (matches_modify fun _ _ related ↦ related.keep name m).bind fun _ _ _ ↦
              matches_pure rfl

/-! ### Histories -/

theorem kept?_addSource (r : Registry) (name source x : String) :
    (r.addSource name source).kept? x = if x = name then none else r.kept? x := by
  have forgotten := r.kept?_forget (· == name) x
  simp only [beq_iff_eq] at forgotten
  exact forgotten

theorem source?_addSource (r : Registry) (name source x : String) :
    (r.addSource name source).source? x = if x = name then some source else r.source? x := by
  rw [Registry.source?, addSource, Ordered.get?_put]
  by_cases same : x = name
  · rw [if_pos (beq_iff_eq.mpr same), if_pos same]
  · rw [if_neg (by simpa using same), if_neg same]
    rfl

theorem Orderly.addSource (h : r.Orderly) (name source : String) :
    (r.addSource name source).Orderly where
  built x m hm := by
    rw [kept?_addSource] at hm
    split at hm
    · cases hm
    · next other =>
      obtain ⟨lines, sc, before, built⟩ := h.built x m hm
      refine ⟨lines, sc, before, built.mono ?_ rfl rfl (.refl _)⟩
      rw [source?_addSource, if_neg other]
  apart x hx := by
    rw [kept?_addSource, h.apart x hx]
    exact ite_self none
  scripts x hx := by
    obtain ⟨text, found⟩ := h.scripts x hx
    rw [source?_addSource]
    split
    · exact ⟨source, rfl⟩
    · exact ⟨text, found⟩
  nodup := h.nodup

/-- Any request leaves an orderly registry that is done with loading, and all that was compiled. -/
theorem Orderly.serve (h : r.Orderly) (idle : r.Idle) (request : Request) :
    (r.serve request).Orderly ∧ (r.serve request).Idle ∧
      r.library.Within (r.serve request).library := by
  cases request with
  | script name source => exact ⟨h.addSource name source, ⟨idle.memory, idle.loading⟩, .refl _⟩
  | engine name =>
    have settled := h.settles_load name
    exact ⟨settled.orderly, idle.extend settled.extended, settled.extended.within⟩

/-- So do any requests one after another. -/
theorem Orderly.after (h : r.Orderly) (idle : r.Idle) (requests : List Request) :
    (r.after requests).Orderly ∧ (r.after requests).Idle ∧
      r.library.Within (r.after requests).library := by
  induction requests generalizing r with
  | nil => exact ⟨h, idle, .refl _⟩
  | cons request requests ih =>
    obtain ⟨orderly, idle', within⟩ := h.serve idle request
    obtain ⟨orderly', idle'', within'⟩ := ih orderly idle'
    exact ⟨orderly', idle'', within.trans within'⟩

/-! ### Modules that are up to date -/

/-- What a scope imports in the end was imported before or is imported by a line. -/
theorem exists_import_of_takesAll {sc sc' : Scope} {lines : List Line} (h : sc.TakesAll lines sc')
    {e : String × Module} (he : e ∈ sc'.imports) :
    e ∈ sc.imports ∨ ∃ l ∈ lines, l.declaration = .imports e.1 := by
  induction h with
  | nil => exact .inl he
  | @cons sc sc₁ sc' line lines first rest ih =>
    rcases ih he with old | ⟨l, hl, hd⟩
    · by_cases importing : ∃ name, line.declaration = .imports name
      · obtain ⟨name, hd⟩ := importing
        rcases first.import_cases hd with ⟨-, rfl⟩ | ⟨-, m, rfl⟩
        · exact .inl old
        · rcases List.mem_append.mp old with old | here
          · exact .inl old
          · rw [List.mem_singleton.mp here]
            exact .inr ⟨line, List.mem_cons_self, hd⟩
      · rw [first.imports_eq (not_exists.mp importing)] at old
        exact .inl old
    · exact .inr ⟨l, List.mem_cons_of_mem _ hl, hd⟩

/-- A module whose number is among the imports of a kept module is imported by its script. -/
theorem Orderly.imports_of_mem (h : r.Orderly) {a : String} {m d : Module}
    (hm : r.kept? a = some m) {id : Nat} (hid : id ∈ m.imports)
    (hd : r.library.module? id = some d) : r.Imports a d.name := by
  obtain ⟨lines, sc, before, built⟩ := h.built a m hm
  obtain ⟨source, found, read⟩ := built.script
  rw [built.module] at hid
  obtain ⟨e, he, rfl⟩ := List.mem_map.mp hid
  cases (built.within _ _ (built.imports e he)).symm.trans hd
  rw [built.named e he]
  rcases exists_import_of_takesAll built.taken he with none | ⟨l, hl, hd⟩
  · cases none
  · exact ⟨l.number, source, lines, found, read, l, hl, rfl, hd⟩

/-- All that is kept of a module and of those that it imports, directly or not, is up to date. -/
def Current (r : Registry) (name : String) : Prop :=
  ∀ a m, ReflTransGen r.Imports name a → r.kept? a = some m → r.UpToDate m

/-- No other module that is kept imports a module of the name. -/
def Unused (r : Registry) (name : String) : Prop :=
  ∀ x m, x ≠ name → r.kept? x = some m →
    ∀ id ∈ m.imports, ∀ d, r.library.module? id = some d → d.name ≠ name

/-- After a new script for a module that is not in use, all that is kept is still up to date. -/
theorem Coherent.addSource {name : String} (h : r.Coherent) (unused : r.Unused name)
    (source : String) : (r.addSource name source).Coherent where
  toOrderly := h.toOrderly.addSource name source
  current x m hm := by
    rw [kept?_addSource] at hm
    split at hm
    · cases hm
    · next other =>
      intro id hid
      obtain ⟨d, found, kept⟩ := h.current x m hm id hid
      refine ⟨d, found, ?_⟩
      rw [kept?_addSource, if_neg (unused x m other hm id hid d found)]
      exact kept

open Classical in
/-- The registry without what has nothing to do with a module. -/
noncomputable def narrow (r : Registry) (name : String) : Registry :=
  r.forget fun x ↦ !decide (ReflTransGen r.Imports name x)

theorem kept?_narrow {name x : String} (path : ReflTransGen r.Imports name x) :
    (r.narrow name).kept? x = r.kept? x := by
  rw [narrow, kept?_forget, if_neg (by simpa using path)]

theorem agreeOn_narrow (r : Registry) (name : String) :
    AgreeOn (ReflTransGen r.Imports name) r (r.narrow name) where
  same := rfl
  kept _ path := kept?_narrow path
  closed _ _ path last := path.tail last

theorem Orderly.coherent_narrow (h : r.Orderly) {name : String} (current : r.Current name) :
    (r.narrow name).Coherent := by
  refine h.coherent_forget fun x m hm stays id hid ↦ ?_
  have path : ReflTransGen r.Imports name x := by simpa using stays
  obtain ⟨d, found, kept⟩ := current x m path hm id hid
  refine ⟨d, found, kept, ?_⟩
  simpa using path.tail (h.imports_of_mem hm hid found)

theorem run_load_narrow (r : Registry) (name : String) :
    ((load name).run.run (r.narrow name)).1 = ((load name).run.run r).1 ∧
      ((load name).run.run (r.narrow name)).2.library = ((load name).run.run r).2.library := by
  have depth : (r.narrow name).depth = r.depth := rfl
  obtain ⟨agree, related⟩ := matches_loadWithin r.depth .refl r (r.narrow name)
    (agreeOn_narrow r name)
  rw [run_load, run_load, depth]
  refine ⟨agree.eq.symm, ?_⟩
  rw [related.same]

/-- If all that is kept of a module and of those that it imports is up to date, a request for it has
the outcome that it has on a new registry with the present scripts. -/
theorem Orderly.sameOutcome_of_current (h : r.Orderly) (idle : r.Idle) {name : String}
    (current : r.Current name) (library : Library) {σ : Type} {host : Host σ} (blind : host.Blind)
    (rules : Whitelist) (depth : Nat) {l : Library}
    (later : ((load name).run.run r).2.library.Within l) :
    SameOutcome blind rules depth l ((load name).run.run (r.anew library)).2.library
      ((load name).run.run r).1 ((load name).run.run (r.anew library)).1 := by
  -- What the module does not reach may be outdated; without it the registry is coherent.
  obtain ⟨result, grown⟩ := run_load_narrow r name
  rw [← result]
  rw [← grown] at later
  have scripts : (r.narrow name).anew library = r.anew library := rfl
  rw [← scripts]
  exact (h.coherent_narrow current).sameOutcome_anew ⟨idle.memory, idle.loading⟩ library blind rules
    depth name later

section

variable (sources : List (String × String)) (classes : List ClassSignature)
  (whitelist : Option Whitelist) (library library' : Library)

/-- New scripts take effect where all is up to date. After any requests to a registry of scripts in
memory, of engines and to set scripts, a request for an engine has the outcome that it has on a new
registry with the present scripts, provided that all that is kept of the module and of those that it
imports, directly or not, is up to date: what it imports is what is kept. The engine goes on to be
the same whatever is asked for later, and those modules are shared by all who import them. -/
theorem scripts_take_effect {σ : Type} {host : Host σ} (blind : host.Blind) (rules : Whitelist)
    (depth : Nat) (history later : List Request) (name : String)
    (current : ((ofSources sources classes whitelist library).after history).Current name) :
    let r := (ofSources sources classes whitelist library).after history
    let loaded := (load name).run.run r
    let afresh := (load name).run.run (r.anew library')
    SameOutcome blind rules depth (loaded.2.after later).library afresh.2.library loaded.1
        afresh.1 ∧
      ∀ a m, ReflTransGen r.Imports name a → loaded.2.kept? a = some m → loaded.2.Shared m := by
  have fresh := coherent_ofSources sources classes whitelist library
  obtain ⟨orderly, idle, -⟩ := fresh.toOrderly.after ⟨rfl, rfl⟩ history
  have settled := orderly.settles_load name
  obtain ⟨-, -, within⟩ := settled.orderly.after (idle.extend settled.extended) later
  refine ⟨orderly.sameOutcome_of_current idle current library' blind rules depth within, ?_⟩
  intro a m path hm
  have named := settled.orderly.name_eq hm
  have upToDate : ((load name).run.run ((ofSources sources classes whitelist library).after
      history)).2.UpToDate m := by
    rcases settled.extended.fresh a m hm with old | new
    · exact (current a m path old).mono settled.extended.kept settled.extended.within
    · exact new
  exact settled.orderly.shared (named ▸ hm) upToDate

end

end Registry

/-! ### A script that is replaced -/

namespace Edited

open Registry

/-- Loading a module whose script is one import. -/
theorem run_loadWithin_of_import {r : Registry} {d : Nat} {name source x : String} {line : Line}
    (new : r.kept? name = none) (found : r.source? name = some source) (other : name ∉ r.loading)
    (read : parse source name = .ok [line]) (hd : line.declaration = .imports x) :
    (loadWithin (d + 1) name).run.run r =
      match (loadWithin d x).run.run (r.enter name) with
      | (.ok m, q) =>
        let sc : Scope := { classes := r.classes, imports := [(x, m)] }
        (.ok (sc.toModule q.library name r.whitelist),
          (q.pushModule (sc.toModule q.library name r.whitelist)).leave.keep name
            (sc.toModule q.library name r.whitelist))
      | (.error problem, q) => (.error (problem.orLocated name line.number), q.leave) := by
  rw [run_loadWithin_of_new new found other, run_compile_of_parse read, Scope.ofLines,
    List.foldlM_cons, run_bind, Scope.run_declareIn, Scope.run_declare_of_import hd rfl]
  cases (loadWithin d x).run.run (r.enter name) with
  | mk result q => cases result <;> rfl

def sources : List (String × String) := [("Lib", ""), ("Main", "import Lib\n")]

theorem parse_lib : parse "" "Lib" = .ok [] := by
  have lexed : Token.tokens "" = .ok [⟨.eof, 0, 0⟩] := by decide +kernel
  have read : (Reader.script (Lines.ofText "")).run' (Cursor.ofTokens [⟨.eof, 0, 0⟩]) =
    .ok [] := rfl
  simp only [parse, lexed, read]

/-- The tokens of a line that imports a module. -/
def tokens (name : String) (stop : Nat) : List Token :=
  [⟨.kwImport, 0, 6⟩, ⟨.const name, 7, stop⟩, ⟨.newline, stop, stop + 1⟩,
    ⟨.eof, stop + 1, stop + 1⟩]

theorem parse_main : parse "import Lib\n" "Main" = .ok [⟨1, ⟨0, 10⟩, .imports "Lib"⟩] := by
  have lexed : Token.tokens "import Lib\n" = .ok (tokens "Lib" 10) := by decide +kernel
  have read : (Reader.script (Lines.ofText "import Lib\n")).run'
    (Cursor.ofTokens (tokens "Lib" 10)) = .ok [⟨1, ⟨0, 10⟩, .imports "Lib"⟩] := rfl
  simp only [parse, lexed, read]

theorem parse_back : parse "import Main\n" "Lib" = .ok [⟨1, ⟨0, 11⟩, .imports "Main"⟩] := by
  have lexed : Token.tokens "import Main\n" = .ok (tokens "Main" 11) := by decide +kernel
  have read : (Reader.script (Lines.ofText "import Main\n")).run'
    (Cursor.ofTokens (tokens "Main" 11)) = .ok [⟨1, ⟨0, 11⟩, .imports "Main"⟩] := rfl
  simp only [parse, lexed, read]

def lib : Module := Scope.toModule { classes := [] } {} "Lib" none

def main : Module :=
  Scope.toModule { classes := [], imports := [("Lib", lib)] } (Library.push {} lib) "Main" none

/-- The registry that keeps both modules. -/
def both : Registry where
  sources := sources
  compiled := [("Lib", lib), ("Main", main)]
  library := (Library.push {} lib).push main

theorem load_lib : (loadWithin 3 "Lib").run.run ((ofSources sources [] none {}).enter "Main") =
    (.ok lib, ⟨sources, none, {}, [], none, [("Lib", lib)], ["Main"], Library.push {} lib⟩) := by
  have found : ((ofSources sources [] none {}).enter "Main").source? "Lib" = some "" := rfl
  rw [run_loadWithin_of_new rfl found (by decide), run_compile_of_parse parse_lib]
  rfl

theorem load_main : (load "Main").run.run (ofSources sources [] none {}) = (.ok main, both) := by
  have found : (ofSources sources [] none {}).source? "Main" = some "import Lib\n" := rfl
  have loaded := run_loadWithin_of_import (d := 3) rfl found (by decide) parse_main rfl
  have depth : (ofSources sources [] none {}).depth = 3 + 1 := rfl
  rw [run_load, depth, loaded, load_lib]
  rfl

theorem after_main (name source : String) :
    (ofSources sources [] none {}).after [.engine "Main", .script name source] =
      both.addSource name source := by
  rw [Registry.after, List.foldl_cons, List.foldl_cons, List.foldl_nil, serve, serve, load_main]

theorem coherent_both : both.Coherent := by
  have fresh := coherent_ofSources sources [] none {}
  have settled := fresh.toOrderly.settles_load "Main"
  rw [load_main] at settled
  exact fresh.extend settled.orderly settled.extended

theorem unused_main : both.Unused "Main" := by
  intro x m other hm id hid
  by_cases same : x = "Lib"
  · have found : both.kept? "Lib" = some lib := rfl
    have imports : lib.imports = [] := rfl
    rw [same, found] at hm
    rw [← Option.some.inj hm, imports] at hid
    cases hid
  · simp [kept?, both, Ordered.get?, same, other] at hm

/-- `Main`, which nothing imports, gets a new script and is loaded again; the new script that `Lib`
gets then is too late to matter. -/
theorem main_takes_effect :
    let r := both.addSource "Main" "import Lib\n"
    let loaded := (load "Main").run.run r
    let afresh := (load "Main").run.run (r.anew {})
    r.Current "Main" ∧ SameOutcome Samples.blind .standard defaultDepth
        (loaded.2.after [.script "Lib" "import Main\n"]).library afresh.2.library loaded.1
        afresh.1 ∧
      ∀ a m, ReflTransGen r.Imports "Main" a → loaded.2.kept? a = some m → loaded.2.Shared m := by
  have coherent := coherent_both.addSource unused_main "import Lib\n"
  have current : (both.addSource "Main" "import Lib\n").Current "Main" :=
    fun a m _ hm ↦ coherent.current a m hm
  rw [← after_main] at current ⊢
  exact ⟨current, scripts_take_effect sources [] none {} {} Samples.blind .standard defaultDepth
    [.engine "Main", .script "Main" "import Lib\n"] [.script "Lib" "import Main\n"] "Main" current⟩

/-- The scripts when `Lib` imports `Main` as well. -/
def circle : List (String × String) := [("Lib", "import Main\n"), ("Main", "import Lib\n")]

theorem load_circle : ((load "Main").run.run (ofSources circle [] none {})).1 =
    .error ⟨.recursion, "circular import: Main -> Lib -> Main", "Lib", 1⟩ := by
  have found : (ofSources circle [] none {}).source? "Main" = some "import Lib\n" := rfl
  have found' : ((ofSources circle [] none {}).enter "Main").source? "Lib" =
    some "import Main\n" := rfl
  have found'' : (((ofSources circle [] none {}).enter "Main").enter "Lib").source? "Main" =
    some "import Lib\n" := rfl
  have again : "Main" ∈ (((ofSources circle [] none {}).enter "Main").enter "Lib").loading := by
    decide
  have outer := run_loadWithin_of_import (d := 3) rfl found (by decide) parse_main rfl
  have inner := run_loadWithin_of_import (d := 2) rfl found' (by decide) parse_back rfl
  have depth : (ofSources circle [] none {}).depth = 3 + 1 := rfl
  rw [run_load, depth, outer, inner, run_loadWithin_of_loading rfl found'' again]
  rfl

/-- When `Lib` gets a script that imports `Main` after `Main` was loaded, `Main` is returned as
before, with an engine for the old `Lib`. A new registry with the same scripts reports circular
imports. -/
theorem circle_unnoticed :
    let r := (ofSources sources [] none {}).after [.engine "Main", .script "Lib" "import Main\n"]
    ((load "Main").run.run r).1 = .ok main ∧
      ((load "Main").run.run (r.anew {})).1 =
        .error ⟨.recursion, "circular import: Main -> Lib -> Main", "Lib", 1⟩ := by
  have kept : (both.addSource "Lib" "import Main\n").kept? "Main" = some main := rfl
  have scripts : (both.addSource "Lib" "import Main\n").anew {} = ofSources circle [] none {} := rfl
  rw [after_main]
  dsimp only
  rw [run_load_of_kept kept, scripts]
  exact ⟨rfl, load_circle⟩

end Edited

end Formulary
