import Formulary.Proofs.ImportPaths
import Formulary.Proofs.Lockstep
import Formulary.Proofs.RequestOrder

/-!
# Outcomes of requests

A registry is asked for engines. Two coherent registries with the same scripts give the same
diagnostics, and engines that nothing tells apart (`Registry.Abreast.sameOutcome`): the modules that
both keep are twins, so they are common to both libraries. So the requests that came before make no
difference, and each module is compiled once for all who import it
(`Registry.requests_do_not_interfere`).
-/

namespace Formulary

variable {σ : Type}

/-- The names of a compiled module's nodes are those of the script. -/
theorem Scope.names_toModule (sc : Scope) (library : Library) (name : String)
    (whitelist : Option Whitelist) :
    (sc.toModule library name whitelist).nodes.toList.map Node.name = sc.drafts.map Draft.name := by
  obtain ⟨size, named⟩ := toModule_induction
    (P := fun j n ↦ sc.drafts[j]?.map Draft.name = some n.name) sc library name whitelist
    fun k d nodes hd _ ↦ by rw [hd, Option.map_some, name_toNode]
  refine List.ext_getElem? fun j ↦ ?_
  rw [List.getElem?_map, List.getElem?_map, Array.getElem?_toList]
  by_cases bound : j < sc.drafts.length
  · obtain ⟨n, hn, same⟩ := named j bound
    rw [hn, same]
    rfl
  · rw [Array.getElem?_eq_none (by omega), List.getElem?_eq_none (by omega)]
    rfl

/-- A node of the script is found in the compiled module at the place where it is in the script. -/
theorem Scope.node?_toModule {sc : Scope} {x : String} {target : NodeTarget}
    (h : sc.ownNode? x = some target) (library : Library) (name : String)
    (whitelist : Option Whitelist) :
    (sc.toModule library name whitelist).node? x = some (target.ref library.nextId name) := by
  obtain ⟨index, found, rfl⟩ := Option.map_eq_some_iff.mp h
  have listed : (sc.toModule library name whitelist).nodes.findIdx? (fun n ↦ n.name == x) =
      sc.drafts.findIdx? fun d ↦ d.name == x := by
    have names := congrArg (List.findIdx? (· == x)) (sc.names_toModule library name whitelist)
    simp only [List.findIdx?_map, Function.comp_def] at names
    rw [← names, ← List.findIdx?_toArray, Array.toArray_toList]
  rw [Module.node?, listed, found]
  rfl

/-- An engine for a module of a library. -/
def Library.engine (l : Library) (host : Host σ) (rules : Whitelist) (depth : Nat) (m : Module) :
    Engine σ where
  setting := { library := l, host, whitelist := rules, builtIns := Value.send }
  module := m
  depth := depth

namespace Registry

variable {r r' : Registry} {l l' : Library}

/-! ### Modules that two registries keep -/

/-- Numbers in another registry, in two ways that differ on all modules that are not kept in
both. -/
def eitherNumber (r r' : Registry) (way : Bool) : Nat → Nat :=
  -- Even and odd distances beyond the other library: the two ways never meet there.
  r.number r' fun id ↦ r'.library.nextId + 2 * id + way.toNat

theorem eitherNumber_of_counterpart? {id : Nat} {m' : Module}
    (found : r.counterpart? r' id = some m') (way : Bool) : r.eitherNumber r' way id = m'.id := by
  rw [eitherNumber, number, found]

theorem eitherNumber_of_none {id : Nat} (missing : r.counterpart? r' id = none) (way : Bool) :
    r.eitherNumber r' way id = r'.library.nextId + 2 * id + way.toNat := by
  rw [eitherNumber, number, missing]

/-- The number of a kept module is one of the library. -/
theorem Orderly.id_lt_nextId (h : r.Orderly) {x : String} {m : Module} (hm : r.kept? x = some m) :
    m.id < r.library.nextId :=
  (Array.getElem?_eq_some_iff.mp (h.place hm)).1

/-- Modules that are kept have numbers of their own. -/
theorem Orderly.name_inj (h : r.Orderly) {x y : String} {m n : Module} (hm : r.kept? x = some m)
    (hn : r.kept? y = some n) (same : m.id = n.id) : x = y := by
  have place := h.place hm
  rw [same, h.place hn] at place
  cases place
  exact (h.name_eq hm).symm.trans (h.name_eq hn)

theorem eitherNumber_injective (h' : r'.Orderly) (way : Bool) :
    Function.Injective (r.eitherNumber r' way) := by
  intro a b same
  cases ha : r.counterpart? r' a with
  | some m =>
    obtain ⟨x, mx, hx, hx', rfl⟩ := kept_of_counterpart? ha
    cases hb : r.counterpart? r' b with
    | some n =>
      obtain ⟨y, my, hy, hy', rfl⟩ := kept_of_counterpart? hb
      rw [eitherNumber_of_counterpart? ha, eitherNumber_of_counterpart? hb] at same
      cases h'.name_inj hx' hy' same
      cases hx.symm.trans hy
      rfl
    | none =>
      rw [eitherNumber_of_counterpart? ha, eitherNumber_of_none hb] at same
      have bound := h'.id_lt_nextId hx'
      omega
  | none =>
    cases hb : r.counterpart? r' b with
    | some n =>
      obtain ⟨y, my, hy, hy', rfl⟩ := kept_of_counterpart? hb
      rw [eitherNumber_of_none ha, eitherNumber_of_counterpart? hb] at same
      have bound := h'.id_lt_nextId hy'
      omega
    | none =>
      rw [eitherNumber_of_none ha, eitherNumber_of_none hb] at same
      omega

/-- The numberings by which two registries have those modules in common that both keep. -/
def numbering (r : Registry) {r' : Registry} (h' : r'.Orderly) : Numbering where
  number := r.eitherNumber r'
  injective := eitherNumber_injective h'

theorem exists_counterpart? {id id' : Nat} (same : ∀ way, r.eitherNumber r' way id = id') :
    ∃ m', r.counterpart? r' id = some m' := by
  cases found : r.counterpart? r' id with
  | some m' => exact ⟨m', rfl⟩
  | none =>
    have one := same true
    have other := same false
    rw [eitherNumber_of_none found] at one other
    simp only [Bool.toNat_true, Bool.toNat_false] at one other
    omega

/-- Modules that coherent registries with the same scripts both keep are common to their
libraries. -/
theorem Coherent.mirrors (h : r.Coherent) (h' : r'.Coherent) (same : r.SameScripts r')
    (host : Host σ) (rules : Whitelist) :
    (r.numbering h'.toOrderly).Mirrors ⟨r.library, host, rules, Value.send⟩
      ⟨r'.library, host, rules, Value.send⟩ where
  host := rfl
  whitelist := rfl
  builtIns := ⟨rfl, rfl⟩
  twin := by
    intro id id' common
    obtain ⟨m', found⟩ := exists_counterpart? common
    obtain ⟨x, m, hm, hm', rfl⟩ := kept_of_counterpart? found
    refine ⟨m, m', h.place hm, ?_, fun _ ↦ ?_⟩
    · rw [← common true]
      exact (congrArg _ (eitherNumber_of_counterpart? found true)).trans (h'.place hm')
    · exact h.twin h' same (renumbers_number h.toOrderly _) hm hm'

theorem Coherent.engine_mirrors (h : r.Coherent) (h' : r'.Coherent) (same : r.SameScripts r')
    {x : String} {m m' : Module} (hm : r.kept? x = some m) (hm' : r'.kept? x = some m')
    (host : Host σ) (rules : Whitelist) (depth : Nat) :
    Engine.Mirrors (r.numbering h'.toOrderly) (r.library.engine host rules depth m)
      (r'.library.engine host rules depth m') where
  setting := h.mirrors h' same host rules
  module _ := h.twin h' same (renumbers_number h.toOrderly _) hm hm'
  depth := rfl

/-! ### Two registries that are asked for a module -/

/-- The same becomes of a request to two registries: the same diagnostic, or a module for which
their engines cannot be told apart. -/
def SameOutcome {host : Host σ} (blind : host.Blind) (rules : Whitelist) (depth : Nat)
    (l l' : Library) : Except Diagnostic Module → Except Diagnostic Module → Prop :=
  Agree fun m m' ↦ ∃ n, Engine.Indistinct n blind.renumber (l.engine host rules depth m)
    (l'.engine host rules depth m')

/-- What else is in the library makes no difference to a coherent registry. -/
theorem Coherent.widen (h : r.Coherent) (within : r.library.Within l) :
    ({ r with library := l } : Registry).Coherent where
  built x m hm := by
    obtain ⟨lines, sc, before, built⟩ := h.built x m hm
    exact ⟨lines, sc, before, built.mono rfl rfl rfl within⟩
  apart := h.apart
  scripts := h.scripts
  nodup := h.nodup
  current x m hm := (h.current x m hm).mono (fun _ _ kept ↦ kept) within

/-- What has been loaded in two registries abreast evaluates in the same way, then and later. -/
theorem Abreast.sameOutcome {limit : Nat} (h : Abreast limit r r') {host : Host σ}
    (blind : host.Blind) (rules : Whitelist) (depth : Nat) (name : String)
    (later : ((loadWithin limit name).run.run r).2.library.Within l)
    (later' : ((loadWithin limit name).run.run r').2.library.Within l') :
    SameOutcome blind rules depth l l' ((loadWithin limit name).run.run r).1
      ((loadWithin limit name).run.run r').1 := by
  have agree := verdicts limit name r r' h
  have settled := faithful_loadWithin limit name r h.left.toOrderly
  have settled' := faithful_loadWithin limit name r' h.right.toOrderly
  have abreast := h.extend settled.orderly settled'.orderly settled.extended settled'.extended
  generalize ((loadWithin limit name).run.run r).1 = result at agree settled ⊢
  generalize ((loadWithin limit name).run.run r').1 = result' at agree settled' ⊢
  cases agree with
  | error d => exact .error d
  | @ok m m' _ =>
    -- Each registry keeps its module, also with what came into its library since.
    have mirrors := (abreast.left.widen later).engine_mirrors (abreast.right.widen later')
      ⟨abreast.same.source?, abreast.same.classes, abreast.same.whitelist⟩ (settled.kept m rfl)
      (settled'.kept m' rfl) host rules depth
    exact .ok ⟨_, mirrors.indistinct blind⟩

/-- A registry of scripts in memory that loads nothing at present. -/
structure Idle (r : Registry) : Prop where
  memory : r.root = none
  loading : r.loading = []

theorem Idle.extend (h : r.Idle) (extended : r.Extends r') : r'.Idle where
  memory := by
    rw [extended.same]
    exact h.memory
  loading := extended.loading.trans h.loading

/-- A new registry with the scripts that a registry has, of which nothing is compiled. -/
def anew (r : Registry) (library : Library) : Registry :=
  ofSources r.sources r.classes r.whitelist library

theorem Coherent.abreast_anew (h : r.Coherent) (idle : r.Idle) (library : Library) :
    Abreast r.depth r (r.anew library) where
  left := h
  right := coherent_ofSources r.sources r.classes r.whitelist library
  same.source? x := by
    rw [source?_of_memory idle.memory, source?_of_memory rfl]
    rfl
  same.classes := rfl
  same.whitelist := rfl
  loading := idle.loading.symm
  deep := deep_of_depth_le idle.memory (Nat.le_refl _)
  deep' := deep_of_depth_le rfl (by simp [Registry.depth, anew, ofSources])

/-- A request to a coherent registry has the outcome that it has on a new one. -/
theorem Coherent.sameOutcome_anew (h : r.Coherent) (idle : r.Idle) (library : Library)
    {host : Host σ} (blind : host.Blind) (rules : Whitelist) (depth : Nat) (name : String)
    (later : ((load name).run.run r).2.library.Within l) :
    SameOutcome blind rules depth l ((load name).run.run (r.anew library)).2.library
      ((load name).run.run r).1 ((load name).run.run (r.anew library)).1 := by
  have abreast := h.abreast_anew idle library
  have enough : (load name).run.run (r.anew library) =
      (loadWithin r.depth name).run.run (r.anew library) := by
    rw [run_load]
    exact loadWithin_eq abreast.right.toOrderly (deep_of_depth_le rfl (Nat.le_refl _))
      abreast.deep' name
  rw [run_load r] at later
  rw [enough, run_load r]
  exact abreast.sameOutcome blind rules depth name later (.refl _)

theorem run_load_of_kept {name : String} {m : Module} (h : r.kept? name = some m) :
    (load name).run.run r = (.ok m, r) :=
  (run_load r name).trans (run_loadWithin_of_kept h)

/-! ### Shared modules -/

/-- A module is the one that is returned for its name. It was compiled, from the script that is
there for it, with the modules as its imports that are returned for their names, and a path in it
means the node that an engine for the path's module has. -/
def Shared (r : Registry) (m : Module) : Prop :=
  (load m.name).run.run r = (.ok m, r) ∧ ∃ lines sc before, r.Built m.name m lines sc before ∧
    (∀ e ∈ sc.imports, (load e.1).run.run r = (.ok e.2, r)) ∧
    ∀ path target, sc.resolveNode path = .ok target →
      ∃ d, (load (path.module.getD m.name)).run.run r = (.ok d, r) ∧
        d.node? path.name = some (target.ref m.id m.name)

theorem Orderly.shared (h : r.Orderly) {m : Module} (hm : r.kept? m.name = some m)
    (current : r.UpToDate m) : r.Shared m := by
  obtain ⟨lines, sc, before, built⟩ := h.built m.name m hm
  have imports := built.keepsImports current
  refine ⟨run_load_of_kept hm, lines, sc, before, built,
    fun e he ↦ run_load_of_kept (imports e he), ?_⟩
  intro path target resolved
  unfold Scope.resolveNode at resolved
  cases hp : path.module with
  | none =>
    rw [hp] at resolved
    dsimp only at resolved
    split at resolved
    · next own =>
      cases resolved
      refine ⟨m, run_load_of_kept hm, ?_⟩
      have found := Scope.node?_toModule own before m.name r.whitelist
      rw [← built.module] at found
      rw [found, built.module]
      rfl
    · cases resolved
  | some module =>
    rw [hp] at resolved
    dsimp only at resolved
    split at resolved
    · cases resolved
    · next d found =>
      split at resolved
      · next ref here =>
        cases resolved
        have kept := imports _ (Ordered.entry_mem_of_get?_eq_some found)
        exact ⟨d, run_load_of_kept kept, here⟩
      · cases resolved

/-! ### Sequences of requests -/

theorem Orderly.settles_load (h : r.Orderly) (name : String) :
    r.Settles name ((load name).run.run r).1 ((load name).run.run r).2 := by
  rw [run_load]
  exact faithful_loadWithin r.depth name r h

/-- What a registry is asked to do. -/
inductive Request where
  /-- Sets the script of a module. -/
  | script (name source : String)
  /-- Returns an engine for a module. -/
  | engine (name : String)

/-- The registry after a request. -/
def serve (r : Registry) : Request → Registry
  | .script name source => r.addSource name source
  | .engine name => ((load name).run.run r).2

/-- The registry after requests. -/
def after (r : Registry) (requests : List Request) : Registry := requests.foldl serve r

/-- Engines may be asked for, whatever becomes of it. -/
theorem Orderly.after_engines (h : r.Orderly) (names : List String) :
    (r.after (names.map .engine)).Orderly ∧ r.Extends (r.after (names.map .engine)) := by
  induction names generalizing r with
  | nil => exact ⟨h, .refl r⟩
  | cons name names ih =>
    have settled := h.settles_load name
    obtain ⟨orderly, extended⟩ := ih settled.orderly
    exact ⟨orderly, settled.extended.trans extended⟩

section

variable (sources : List (String × String)) (classes : List ClassSignature)
  (whitelist : Option Whitelist) (library library' : Library)

/-- Requests for engines do not interfere. Whatever engines a registry of scripts in memory was
asked for before, and with whatever success, a request has the outcome that it has on a new
registry, and engines go on to be the same whatever is asked for later. The modules that are being
loaded are the same before and after a request. Every module that was compiled is the one that is
returned for its name and that all import. -/
theorem requests_do_not_interfere {host : Host σ} (blind : host.Blind) (rules : Whitelist)
    (depth : Nat) (earlier later : List String) (name : String) :
    let r := (ofSources sources classes whitelist library).after (earlier.map .engine)
    let loaded := (load name).run.run r
    let q := loaded.2.after (later.map .engine)
    let afresh := (load name).run.run (ofSources sources classes whitelist library')
    SameOutcome blind rules depth q.library afresh.2.library loaded.1 afresh.1 ∧
      loaded.2.loading = r.loading ∧
      ∀ id m, q.library.module? id = some m → library.module? id = some m ∨ q.Shared m := by
  have fresh := coherent_ofSources sources classes whitelist library
  have idle : (ofSources sources classes whitelist library).Idle := ⟨rfl, rfl⟩
  obtain ⟨orderly, extended⟩ := fresh.toOrderly.after_engines earlier
  have scripts : ((ofSources sources classes whitelist library).after
      (earlier.map .engine)).anew library' = ofSources sources classes whitelist library' := by
    rw [anew, extended.sources, extended.classes, extended.whitelist]
    rfl
  have coherent := fresh.extend orderly extended
  have settled := orderly.settles_load name
  obtain ⟨orderly', extended'⟩ := settled.orderly.after_engines later
  have whole := (extended.trans settled.extended).trans extended'
  rw [← scripts]
  refine ⟨coherent.sameOutcome_anew (idle.extend extended) library' blind rules depth name
    extended'.within, settled.extended.loading, ?_⟩
  intro id m hm
  refine (whole.once id m hm).imp_right fun kept ↦ ?_
  exact orderly'.shared kept ((fresh.extend orderly' whole).current m.name m kept)

end

end Registry

end Formulary
