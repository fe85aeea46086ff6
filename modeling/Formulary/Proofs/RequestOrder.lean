import Formulary.Proofs.Twins

/-!
# The order of requests

Whether a module can be loaded, and if not for what reason, is decided by the scripts alone: two
registries with the same scripts agree on it, whatever each has compiled before
(`Registry.verdicts`).
-/

namespace Formulary.Registry

variable {r r' : Registry}

/-! ### Numbers of one registry and of another -/

/-- The module that another registry keeps under the name of the kept module with a number. -/
def counterpart? (r r' : Registry) (id : Nat) : Option Module :=
  (r.library.module? id).bind fun m ↦ (r.kept? m.name).bind fun n ↦
    if n.id = id then r'.kept? m.name else none

/-- The number that the module with a number here has in another registry; a module that is not kept
in both gets one from outside. -/
def number (r r' : Registry) (outside : Nat → Nat) (id : Nat) : Nat :=
  match r.counterpart? r' id with
  | some m' => m'.id
  | none => outside id

theorem counterpart?_of_kept (h : r.Orderly) {x : String} {m m' : Module}
    (hm : r.kept? x = some m) (hm' : r'.kept? x = some m') :
    r.counterpart? r' m.id = some m' := by
  rw [counterpart?, h.place hm, Option.bind_some, h.name_eq hm, hm, Option.bind_some, if_pos rfl,
    hm']

theorem kept_of_counterpart? {id : Nat} {m' : Module} (found : r.counterpart? r' id = some m') :
    ∃ x m, r.kept? x = some m ∧ r'.kept? x = some m' ∧ m.id = id := by
  obtain ⟨n, -, found⟩ := Option.bind_eq_some_iff.mp found
  obtain ⟨m, hm, found⟩ := Option.bind_eq_some_iff.mp found
  split at found
  · next same => exact ⟨n.name, m, hm, found, same⟩
  · cases found

theorem renumbers_number (h : r.Orderly) (outside : Nat → Nat) :
    Renumbers (r.number r' outside) r r' := by
  intro x m m' hm hm'
  rw [number, counterpart?_of_kept h hm hm']

/-- What is kept under one name offers the same. -/
theorem Coherent.offers (h : r.Coherent) (h' : r'.Coherent) (same : r.SameScripts r') {x : String}
    {m m' : Module} (hm : r.kept? x = some m) (hm' : r'.kept? x = some m') :
    m.offers = m'.offers :=
  (h.twin h' same (renumbers_number h.toOrderly id) hm hm').offers

/-! ### Forgetting -/

/-- The registry without some of the modules that it keeps. -/
def forget (r : Registry) (gone : String → Bool) : Registry :=
  { r with compiled := r.compiled.filter fun e ↦ !gone e.1 }

theorem kept?_forget (r : Registry) (gone : String → Bool) (x : String) :
    (r.forget gone).kept? x = if gone x then none else r.kept? x := by
  cases hx : gone x with
  | false =>
    rw [if_neg Bool.false_ne_true]
    refine Ordered.get?_filter (fun y ↦ !gone y) (fun y same ↦ ?_) r.compiled
    rw [← beq_iff_eq.mp same, hx]
    rfl
  | true =>
    rw [if_pos rfl, kept?, forget]
    cases found : Ordered.get? x (r.compiled.filter fun e ↦ !gone e.1) with
    | none => rfl
    | some m =>
      have stays := (List.mem_filter.mp (Ordered.entry_mem_of_get?_eq_some found)).2
      rw [hx] at stays
      cases stays

theorem Orderly.forget (h : r.Orderly) (gone : String → Bool) : (r.forget gone).Orderly where
  built x m hm := by
    rw [kept?_forget] at hm
    split at hm
    · cases hm
    · obtain ⟨lines, sc, before, built⟩ := h.built x m hm
      exact ⟨lines, sc, before, built.mono rfl rfl rfl (.refl _)⟩
  apart x hx := by
    rw [kept?_forget, h.apart x hx]
    exact ite_self none
  scripts := h.scripts
  nodup := h.nodup

/-- Without all modules that import what is gone, a registry is coherent. -/
theorem Orderly.coherent_forget (h : r.Orderly) {gone : String → Bool}
    (closed : ∀ x m, r.kept? x = some m → gone x = false → ∀ id ∈ m.imports,
      ∃ d, r.library.module? id = some d ∧ r.kept? d.name = some d ∧ gone d.name = false) :
    (r.forget gone).Coherent where
  toOrderly := h.forget gone
  current x m hm := by
    rw [kept?_forget] at hm
    split at hm
    · cases hm
    · next stays =>
      intro id hid
      obtain ⟨d, found, kept, stays⟩ := closed x m hm (by simpa using stays) id hid
      refine ⟨d, found, ?_⟩
      rw [kept?_forget, stays]
      exact kept

/-! ### Scripts whose imports are all kept -/

/-- A script that was accepted is accepted again at once where all is kept that it imports. -/
theorem run_ofLines_of_kept {module : String} {depth : Nat} {lines : List Line} {sc sc' : Scope}
    {q : Registry} (taken : sc.TakesAll lines sc') (kept : q.KeepsImports sc') :
    (lines.foldlM (Scope.declareIn module (loadWithin (depth + 1))) sc).run.run q =
      (.ok sc', q) := by
  induction taken with
  | nil => rfl
  | @cons sc sc₁ sc' line lines first rest ih =>
    have declared : (sc.declare (loadWithin (depth + 1)) line).run.run q = (.ok sc₁, q) := by
      by_cases importing : ∃ name, line.declaration = .imports name
      · obtain ⟨name, hd⟩ := importing
        rcases first.import_cases hd with ⟨known, rfl⟩ | ⟨new, m, rfl⟩
        · exact Scope.run_declare_of_known hd known
        · have here : (name, m) ∈ sc'.imports :=
            rest.imports_subset _ (List.mem_append_right _ (List.mem_singleton_self _))
          rw [Scope.run_declare_of_import hd new, run_loadWithin_of_kept (kept _ here)]
          dsimp only [Except.map]
          rw [Ordered.put_of_hasKey_eq_false new]
      · have other := not_exists.mp importing
        rw [Scope.run_declare_of_other other, first.declared other]
        rfl
    rw [List.foldlM_cons, run_bind, Scope.run_declareIn, declared]
    exact ih kept

/-! ### Two registries side by side -/

/-- Two coherent registries with the same scripts, in which the same modules are being loaded, and
in which all scripts can be loaded within the depth. -/
structure Abreast (depth : Nat) (r r' : Registry) : Prop where
  left : r.Coherent
  right : r'.Coherent
  same : r.SameScripts r'
  loading : r'.loading = r.loading
  deep : r.Deep depth
  deep' : r'.Deep depth

namespace Abreast

variable {depth : Nat}

theorem symm (h : Abreast depth r r') : Abreast depth r' r where
  left := h.right
  right := h.left
  same := ⟨fun x ↦ (h.same.source? x).symm, h.same.classes.symm, h.same.whitelist.symm⟩
  loading := h.loading.symm
  deep := h.deep'
  deep' := h.deep

theorem extend (h : Abreast depth r r') {q q' : Registry} (left : q.Orderly) (right : q'.Orderly)
    (extended : r.Extends q) (extended' : r'.Extends q') : Abreast depth q q' where
  left := h.left.extend left extended
  right := h.right.extend right extended'
  same.source? x := by rw [extended.source?, extended'.source?, h.same.source?]
  same.classes := by rw [extended.classes, extended'.classes, h.same.classes]
  same.whitelist := by rw [extended.whitelist, extended'.whitelist, h.same.whitelist]
  loading := by rw [extended.loading, extended'.loading, h.loading]
  deep := h.deep.extend extended
  deep' := h.deep'.extend extended'

theorem enter (h : Abreast (depth + 1) r r') {name source : String} (new : r.kept? name = none)
    (new' : r'.kept? name = none) (found : r.source? name = some source)
    (other : name ∉ r.loading) : Abreast depth (r.enter name) (r'.enter name) where
  left := ⟨h.left.enter new found other, h.left.current⟩
  right := ⟨h.right.enter new' ((h.same.source? name).trans found) (h.loading ▸ other),
    h.right.current⟩
  same := ⟨h.same.source?, h.same.classes, h.same.whitelist⟩
  loading := by
    change r'.loading ++ [name] = r.loading ++ [name]
    rw [h.loading]
  deep := h.deep.enter name
  deep' := h.deep'.enter name

theorem resembles (h : Abreast depth r r') {sc sc' : Scope} (kept : r.KeepsImports sc)
    (kept' : r'.KeepsImports sc') (face : sc.face = sc'.face) : sc.Resembles sc' where
  face := face
  left := ⟨r.library, fun e he ↦ h.left.place (kept e he)⟩
  right := ⟨r'.library, fun e he ↦ h.right.place (kept' e he)⟩

end Abreast

/-- Within some depth, registries abreast agree on what can be loaded and what it offers. -/
def Verdicts (depth : Nat) : Prop :=
  ∀ name r r', Abreast depth r r' → Agree (fun m m' ↦ m.offers = m'.offers)
    ((loadWithin depth name).run.run r).1 ((loadWithin depth name).run.run r').1

section

variable {depth : Nat} {sc sc' : Scope}

/-- One line is accepted in both or refused for the same reason. -/
theorem agree_declareIn (verdicts : Verdicts depth) (module : String) (line : Line)
    (h : Abreast depth r r') (kept : r.KeepsImports sc) (kept' : r'.KeepsImports sc')
    (face : sc.face = sc'.face) :
    Agree (fun sc sc' ↦ sc.face = sc'.face)
      ((sc.declareIn module (loadWithin depth) line).run.run r).1
      ((sc'.declareIn module (loadWithin depth) line).run.run r').1 := by
  have resembles := h.resembles kept kept' face
  rw [Scope.run_declareIn, Scope.run_declareIn]
  refine Agree.mapError ?_ _
  rcases sc.import_cases line with ⟨name, hd, old⟩ | ⟨name, hd, new⟩ | other
  · have old' := (resembles.hasKey name).symm.trans old
    rw [Scope.run_declare_of_known hd old, Scope.run_declare_of_known hd old']
    exact .ok face
  · have new' := (resembles.hasKey name).symm.trans new
    rw [Scope.run_declare_of_import hd new, Scope.run_declare_of_import hd new']
    refine (verdicts name r r' h).map fun m m' offers ↦ ?_
    rw [Ordered.put_of_hasKey_eq_false new, Ordered.put_of_hasKey_eq_false new']
    exact Scope.face_import face offers name
  · rw [Scope.run_declare_of_other other, Scope.run_declare_of_other other]
    exact ((resembles.declared line).imp fun _ _ same ↦ same.face).mapError _

/-- So is a whole script. -/
theorem agree_ofLines (verdicts : Verdicts depth) (module : String) (lines : List Line)
    (sc sc' : Scope) (h : Abreast depth r r') (kept : r.KeepsImports sc)
    (kept' : r'.KeepsImports sc') (face : sc.face = sc'.face) :
    Agree (fun sc sc' ↦ sc.face = sc'.face)
      ((lines.foldlM (Scope.declareIn module (loadWithin depth)) sc).run.run r).1
      ((lines.foldlM (Scope.declareIn module (loadWithin depth)) sc').run.run r').1 := by
  induction lines generalizing sc sc' r r' with
  | nil => exact .ok face
  | cons line lines ih =>
    have agree := agree_declareIn verdicts module line h kept kept' face
    obtain ⟨left, extended, accepted⟩ :=
      settles_declareIn module line (faithful_loadWithin depth) h.left.toOrderly kept
    obtain ⟨right, extended', accepted'⟩ :=
      settles_declareIn module line (faithful_loadWithin depth) h.right.toOrderly kept'
    rw [List.foldlM_cons, List.foldlM_cons, run_bind, run_bind]
    cases first : (sc.declareIn module (loadWithin depth) line).run.run r with
    | mk result q =>
      cases first' : (sc'.declareIn module (loadWithin depth) line).run.run r' with
      | mk result' q' =>
        rw [first] at agree left extended accepted
        rw [first'] at agree right extended' accepted'
        cases agree with
        | error d => exact .error d
        | ok faces =>
          exact ih _ _ (h.extend left right extended extended') (accepted _ rfl).2
            (accepted' _ rfl).2 faces

/-! ### What can be loaded -/

/-- What two registries have both loaded offers the same. -/
theorem Abreast.offers {q q' : Registry} {name : String} {result result' : Except Diagnostic Module}
    (h : Abreast depth r r') (settles : r.Settles name result q)
    (settles' : r'.Settles name result' q') (agree : Agree (fun _ _ ↦ True) result result') :
    Agree (fun m m' ↦ m.offers = m'.offers) result result' := by
  cases agree with
  | error d => exact .error d
  | ok _ =>
    have abreast := h.extend settles.orderly settles'.orderly settles.extended settles'.extended
    exact .ok (abreast.left.offers abreast.right abreast.same (settles.kept _ rfl)
      (settles'.kept _ rfl))

/-- A module that neither registry keeps is loaded in both or refused for the same reason. -/
theorem agree_of_new (verdicts : Verdicts depth) {name : String} (h : Abreast (depth + 1) r r')
    (new : r.kept? name = none) (new' : r'.kept? name = none) :
    Agree (fun _ _ ↦ True) ((loadWithin (depth + 1) name).run.run r).1
      ((loadWithin (depth + 1) name).run.run r').1 := by
  cases found : r.source? name with
  | none =>
    rw [run_loadWithin_of_missing new found,
      run_loadWithin_of_missing new' ((h.same.source? name).trans found)]
    exact .error _
  | some source =>
    have found' := (h.same.source? name).trans found
    by_cases again : name ∈ r.loading
    · rw [run_loadWithin_of_loading new found again,
        run_loadWithin_of_loading new' found' (h.loading ▸ again), h.loading]
      exact .error _
    · rw [run_loadWithin_of_new new found again,
        run_loadWithin_of_new new' found' (h.loading ▸ again), h.same.classes, h.same.whitelist]
      cases read : parse source name with
      | error d =>
        rw [run_compile_of_refused read, run_compile_of_refused read]
        exact .error d
      | ok lines =>
        rw [run_compile_of_parse read, run_compile_of_parse read]
        have agree := agree_ofLines verdicts name lines { classes := r.classes }
          { classes := r.classes } (h.enter new new' found again) (fun e he ↦ by cases he)
          (fun e he ↦ by cases he) rfl
        rw [Scope.ofLines]
        cases ran : (lines.foldlM (Scope.declareIn name (loadWithin depth))
            { classes := r.classes }).run.run (r.enter name) with
        | mk result q =>
          cases ran' : (lines.foldlM (Scope.declareIn name (loadWithin depth))
              { classes := r.classes }).run.run (r'.enter name) with
          | mk result' q' =>
            rw [ran, ran'] at agree
            cases agree with
            | error d => exact .error d
            | ok _ => exact .ok trivial

/-- The registry as it was before it kept a module: without all whose numbers are not smaller. -/
def before (r : Registry) (m : Module) : Registry :=
  r.forget fun x ↦ (r.kept? x).any fun n ↦ m.id ≤ n.id

theorem kept?_before_of_lt {m n : Module} {x : String} (hn : r.kept? x = some n)
    (earlier : n.id < m.id) : (r.before m).kept? x = some n := by
  rw [before, kept?_forget, hn]
  simpa using earlier

theorem kept?_before_self {m : Module} {x : String} (hm : r.kept? x = some m) :
    (r.before m).kept? x = none := by
  rw [before, kept?_forget, hm]
  simp

theorem Abreast.before (h : Abreast depth r r') (m : Module) :
    Abreast depth (r.before m) r' where
  left := by
    refine h.left.toOrderly.coherent_forget fun x n hn stays id hid ↦ ?_
    obtain ⟨d, found, kept⟩ := h.left.current x n hn id hid
    refine ⟨d, found, kept, ?_⟩
    have smaller := h.left.toOrderly.id_lt_of_import hn hid found
    rw [hn] at stays
    rw [kept]
    simp only [Option.any_some, decide_eq_false_iff_not] at stays ⊢
    omega
  right := h.right
  same := ⟨h.same.source?, h.same.classes, h.same.whitelist⟩
  loading := h.loading
  deep := ⟨h.deep.memory, h.deep.enough⟩
  deep' := h.deep'

/-- What one registry keeps can be loaded by the other one. -/
theorem agree_of_kept (verdicts : Verdicts depth) {name : String} {m : Module}
    (h : Abreast (depth + 1) r r') (hm : r.kept? name = some m) (new' : r'.kept? name = none) :
    ∃ m', ((loadWithin (depth + 1) name).run.run r').1 = .ok m' := by
  -- Before it was kept, all was kept that it imports, so that it could be compiled at once.
  obtain ⟨lines, sc, library, built⟩ := h.left.built name m hm
  obtain ⟨source, found, read⟩ := built.script
  have abreast := h.before m
  have new := kept?_before_self hm
  have found : (r.before m).source? name = some source := found
  have other : name ∉ (r.before m).loading := by
    intro again
    have apart := h.left.apart name again
    rw [hm] at apart
    cases apart
  have kept : ((r.before m).enter name).KeepsImports sc :=
    fun e he ↦ kept?_before_of_lt (h.left.keepsImports hm built e he) (built.id_lt he)
  have agree := agree_of_new verdicts abreast new new'
  have enough := (abreast.deep.enter name).ne_zero (abreast.left.enter new found other)
  obtain ⟨lower, rfl⟩ := Nat.exists_eq_succ_of_ne_zero enough
  have taken : Scope.TakesAll { classes := (r.before m).classes } lines sc := built.taken
  rw [run_loadWithin_of_new new found other, run_compile_of_parse read, Scope.ofLines,
    run_ofLines_of_kept taken kept] at agree
  obtain ⟨m', hm', -⟩ := agree.exists_right
  exact ⟨m', hm'⟩

/-- Registries with the same scripts agree on what can be loaded. -/
theorem verdicts (depth : Nat) : Verdicts depth := by
  induction depth with
  | zero => exact fun name r r' h ↦ absurd rfl (h.deep.ne_zero h.left.toOrderly)
  | succ depth ih =>
    intro name r r' h
    refine h.offers (faithful_loadWithin _ name r h.left.toOrderly)
      (faithful_loadWithin _ name r' h.right.toOrderly) ?_
    cases hm : r.kept? name with
    | some m =>
      cases hm' : r'.kept? name with
      | some m' =>
        rw [run_loadWithin_of_kept hm, run_loadWithin_of_kept hm']
        exact .ok trivial
      | none =>
        obtain ⟨m', loaded⟩ := agree_of_kept ih h hm hm'
        rw [run_loadWithin_of_kept hm, loaded]
        exact .ok trivial
    | none =>
      cases hm' : r'.kept? name with
      | some m' =>
        obtain ⟨m, loaded⟩ := agree_of_kept ih h.symm hm' hm
        rw [run_loadWithin_of_kept hm', loaded]
        exact .ok trivial
      | none => exact agree_of_new ih h hm hm'

end

end Formulary.Registry
