import Formulary.Proofs.Replacement

/-!
# Registries hold programs

Whatever a registry is asked to load, and whether that succeeds or not, its library stays one that
was compiled from scripts (`Registry.Sound.loadWithin`). So the library of a registry with any
history is that of a program (`Registry.exists_program`).
-/

namespace Formulary.Registry

variable {r : Registry}

/-- An orderly registry whose library was compiled from scripts. -/
structure Sound (r : Registry) : Prop where
  orderly : r.Orderly
  compiles : ∃ texts, Compiles texts r.library

theorem Sound.loadWithin (h : r.Sound) (depth : Nat) (name : String) :
    ((Registry.loadWithin depth name).run.run r).2.Sound := by
  induction depth generalizing name r with
  | zero => exact h
  | succ depth ih =>
    refine ⟨(faithful_loadWithin (depth + 1) name r h.orderly).orderly, ?_⟩
    have loads := loads_loadWithin depth name r
    generalize ((Registry.loadWithin (depth + 1) name).run.run r).1 = result at loads
    generalize ((Registry.loadWithin (depth + 1) name).run.run r).2 = r' at loads ⊢
    -- What a script imports is loaded, line by line, before the module itself is added.
    have inside (lines : List Line) (entered : (r.enter name).Sound) :
        ((Scope.ofLines name r.classes (Registry.loadWithin depth) lines).run.run
          (r.enter name)).2.Sound :=
      Scope.leads_ofLines (R := fun q q' : Registry ↦ q.Sound → q'.Sound) (fun _ sound ↦ sound)
        (fun first rest sound ↦ rest (first sound)) (fun name _ sound ↦ ih sound name) name lines
        _ _ entered
    cases loads with
    | kept | missing | circular | refused => exact h.compiles
    | @failed new source found other lines read d q taken =>
      have sound := inside lines ⟨h.orderly.enter new found other, h.compiles⟩
      rw [taken] at sound
      exact sound.compiles
    | @compiled new source found other lines read sc q taken =>
      have sound := inside lines ⟨h.orderly.enter new found other, h.compiles⟩
      have settled := settles_entered (faithful_loadWithin depth) h.orderly new found other lines
      rw [taken] at sound settled
      obtain ⟨texts, compiles⟩ := sound.compiles
      obtain ⟨o, accepted⟩ := exists_outline taken
      have kept := (settled.2.2.1 sc rfl).2
      exact ⟨_, .script r.whitelist compiles accepted fun e he ↦ sound.orderly.place (kept e he)⟩

/-- A new script leaves the library as it is. -/
theorem Sound.serve (h : r.Sound) (request : Request) : (r.serve request).Sound := by
  cases request with
  | script name source => exact ⟨h.orderly.addSource name source, h.compiles⟩
  | engine name =>
    have loaded := h.loadWithin r.depth name
    rwa [← run_load] at loaded

theorem Sound.after (h : r.Sound) (requests : List Request) : (r.after requests).Sound := by
  induction requests generalizing r with
  | nil => exact h
  | cons request requests ih => exact ih (h.serve request)

/-- A registry that starts with nothing compiled holds a program, whatever it was asked since and
with whatever success. -/
theorem exists_program (sources : List (String × String)) (classes : List ClassSignature)
    (whitelist : Option Whitelist) (requests : List Request) :
    ∃ p : Program,
      p.library = ((ofSources sources classes whitelist {}).after requests).library := by
  have start : (ofSources sources classes whitelist {}).Sound :=
    ⟨(coherent_ofSources sources classes whitelist {}).toOrderly, [], .nothing⟩
  obtain ⟨texts, compiles⟩ := (start.after requests).compiles
  exact ⟨⟨texts, _, compiles⟩, rfl⟩

end Formulary.Registry
