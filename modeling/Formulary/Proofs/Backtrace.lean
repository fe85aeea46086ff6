import Formulary.Proofs.Watching

/-!
# Backtraces

The frames of a fault are those of the attributes that were being computed when it was made, from
the one that was asked for down to the one that failed (`Program.backtrace_eq_stack`). An evaluation
adds one frame at a time to a fault that passes by; a watched evaluation gives a fault the frames of
the whole stack at once, at the moment it is made. Both come to the same.
-/

namespace Formulary

variable {σ : Type}

/-- A stack is part of the frames of every fault that is made while it is there, and what else they
hold was entered later. -/
theorem Watches.fault {named : Prop} {m : Eval σ Value} {m' : Watched σ Value}
    (h : Watches named m m') {x y : Watch σ} {g : Fault}
    (failed : m'.run.run x = (.error (.fault g), y)) :
    ∃ f : Fault, m.run.run x.world = (.error (.fault f), y.world) ∧
      g = ⟨f.cause, x.frames ++ f.frames⟩ := by
  obtain ⟨-, notes, ran, -⟩ := h x
  rw [ran] at failed
  cases here : m.run.run x.world with
  | mk result w =>
    rw [here] at failed
    cases result with
    | ok v => cases failed
    | error stop =>
      cases stop with
      | disorder | exhausted => cases failed
      | fault f =>
        cases failed
        exact ⟨f, rfl, rfl⟩

namespace Program

/-- A compiled member leaves the frame of the definition that it was made of. -/
theorem frame_slot? (p : Program) (node : NodeRef) (attr : String) :
    (p.library.slot? node attr).map Slot.frame =
      (definition? attr (p.lineage node)).map Located.frame := by
  have rel := p.slot?_rel node attr
  cases found : p.library.slot? node attr with
  | none =>
    rw [found] at rel
    cases defined : definition? attr (p.lineage node) with
    | none => rfl
    | some l =>
      rw [defined] at rel
      cases rel
  | some slot =>
    obtain ⟨l, defined, holds⟩ := exists_of_rel_right rel found
    rw [defined, Option.map_some, Option.map_some, Slot.frame, Located.frame, holds.homeName,
      Definition.name_of_member holds.member, Definition.line_of_member holds.member]

/-- Backtraces are the stack of the attributes that are being computed.

Whatever the engine of a module is asked and in whichever world, an evaluation that gives every
fault the frames of all attributes being computed when it is made, outermost first, and takes off
those outside where a fault is taken as a value, has the same result, and leaves the same world and
no attribute on the stack. The same holds in the middle of an evaluation: a fault of an attribute
that is read there gets the frames of the stack there in front, and if it is taken as a value, that
holds the frames behind them. The frame of an attribute is that of the nearest definition on the
line of descent: the module and the line where it is written, and its name. -/
theorem backtrace_eq_stack (p : Program) (module : Fin p.library.modules.size) (host : Host σ)
    (whitelist : Whitelist) (depth : Nat) :
    let e := p.engine module host whitelist depth
    let watched := Watch.readAttr (p.setting host whitelist) depth
    (∀ (request : Request) (w : World σ), ∃ notes,
      (request.watch e).run.run { world := w } =
        (((request.answer e).run.run w).1, ⟨((request.answer e).run.run w).2, [], notes⟩)) ∧
    (∀ (held : List Nat) (env : Nat) (node : NodeRef) (attr : String) (x : Watch σ), ∃ notes,
      (watched held env node attr).run.run x =
        (((e.read held env node attr).run.run x.world).1.mapError (Stop.beneath x.frames),
          ⟨((e.read held env node attr).run.run x.world).2, x.stack, x.notes ++ notes⟩)) ∧
    (∀ (held : List Nat) (env : Nat) (node : NodeRef) (attr : String) (x y : Watch σ) (g : Fault),
      (watched held env node attr).run.run x = (.error (.fault g), y) →
      ∃ inside, g.frames = x.frames ++ inside ∧
        (NodeCall.safe (e.read held env node) (.str attr)).run.run x.world =
          (.ok (Fault.toValue ⟨g.cause, inside⟩), y.world)) ∧
    ∀ (node : NodeRef) (attr : String), (p.library.slot? node attr).map Slot.frame =
      (definition? attr (p.lineage node)).map Located.frame := by
  intro e watched
  -- Names need not be found for a watcher to have no influence.
  have reads : WatchesReads False e.read watched := watches_readAttr rfl False.elim depth
  refine ⟨fun request w ↦ ?_, fun held env node attr x ↦ ?_,
    fun held env node attr x y g failed ↦ ?_, p.frame_slot?⟩
  · obtain ⟨-, notes, ran, -⟩ := (watches_answer (e := e) rfl False.elim request).whole w
    exact ⟨notes, ran⟩
  · obtain ⟨-, notes, ran, -⟩ := reads held env node attr x
    exact ⟨notes, ran⟩
  · obtain ⟨f, ran, rfl⟩ := (reads held env node attr).fault failed
    refine ⟨f.frames, rfl, ?_⟩
    change (Eval.safely (e.read held env node attr)).run.run x.world = _
    unfold Eval.safely
    rw [run_tryCatch, ran]
    rfl

end Program

end Formulary
