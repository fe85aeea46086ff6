import Formulary.Proofs.Nearest
import Formulary.Proofs.TwoNumberings

/-!
# Evaluations in lockstep

Code that is the same in both of two numberings does the same on both sides
(`Numbering.InStep.run`). So does reading an attribute of a node that both sides have
(`Numbering.Mirrors.readAttr`), by induction on how deep attributes nest. Engines for a module that
both sides have cannot be told apart by any request (`Engine.Mirrors.indistinct`).
-/

namespace Formulary

namespace Numbering

variable {σ : Type} {n : Numbering} {s s' : Setting σ} {read read' : Read (Eval σ)}

/-- Code runs in the same place on both sides. -/
abbrev Contexts (n : Numbering) (cx cx' : Context) : Prop := ∀ way, cx.renumber (n.number way) = cx'

section

variable {cx cx' : Context} (h : n.Contexts cx cx')
include h

theorem Contexts.env : cx'.env = cx.env := by rw [← h true, Context.renumber]

theorem Contexts.held : cx'.held = cx.held := by rw [← h true, Context.renumber]

theorem Contexts.node : n.Refs cx.node cx'.node := fun way ↦ by rw [← h way, Context.renumber]

theorem Contexts.home (way : Bool) : n.number way cx.home = cx'.home := by
  rw [← h way, Context.renumber]

theorem Contexts.homeName : cx'.homeName = cx.homeName := by rw [← h true, Context.renumber]

end

/-! ### Operations -/

theorem matches_applyBinary {state : (Nat → Nat) → σ → σ} (hread : n.Reads state read read')
    (held : List Nat) (op : BinaryOp) {a a' b b' : Value} (ha : n.Values a a')
    (hb : n.Values b b') :
    Matches (n.Worlds state) n.Values (applyBinary read held op a b)
      (applyBinary read' held op a' b') := by
  have plain : Matches (n.Worlds state) n.Values (Eval.ofExcept (Value.binary op a b))
      (Eval.ofExcept (Value.binary op a' b')) := by
    refine matches_ofExcept (agree fun way ↦ ?_)
    rw [← ha way, ← hb way, Value.binary_renumber (n.injective way)]
  cases a with
  | call env ref params =>
    obtain ⟨ref', params', rfl, hr, hp⟩ := values_call_cases ha
    cases op with
    | div => exact matches_safe (hread.attr held env hr hp) hb
    | mod => exact matches_strict (hread.attr held env hr hp) hb
    | add =>
      cases b with
      | map extra =>
        obtain ⟨extra', rfl, he⟩ := values_map_cases hb
        exact matches_amend hr hp he
      | _ =>
        rw [← hb true] at plain ⊢
        exact plain
    | _ => exact plain
  | _ =>
    rw [← ha true] at plain ⊢
    exact plain

theorem matches_collect {α β : Type} {state : (Nat → Nat) → σ → σ} {R : α → β → Prop} (pair : Bool)
    {vars vars' items items' : List Value} {filter filter' : List Value → Eval σ Bool}
    {body : List Value → Eval σ α} {body' : List Value → Eval σ β} (hvars : n.Lists vars vars')
    (hitems : n.Lists items items') (hfilter : ∀ vars vars', n.Lists vars vars' →
      Matches (n.Worlds state) Eq (filter vars) (filter' vars'))
    (hbody : ∀ vars vars', n.Lists vars vars' →
      Matches (n.Worlds state) R (body vars) (body' vars')) :
    Matches (n.Worlds state) (List.Forall₂ R) (collect pair vars items filter body)
      (collect pair vars' items' filter' body') := by
  refine Matches.filterMapM (forall₂_of_map hitems) fun item item' hitem ↦ ?_
  refine (matches_ofExcept (P := n.Lists) (agree fun way ↦ ?_)).bind fun bound bound' hbound ↦ ?_
  · rw [← hitem way, bindItem_renumber]
  have here := lists_append hbound hvars
  refine (hfilter _ _ here).bind ?_
  rintro passes _ rfl
  cases passes with
  | true => exact (hbody _ _ here).bind fun a b h ↦ matches_pure (.some h)
  | false => exact matches_pure .none

/-- The two sides of an evaluation: settings, ways to read attributes, and places of the code. -/
structure InStep (n : Numbering) {s : Setting σ} (blind : s.host.Blind) (s' : Setting σ)
    (read read' : Read (Eval σ)) (cx cx' : Context) : Prop where
  mirrors : n.Mirrors s s'
  reads : n.Reads blind.renumber read read'
  contexts : n.Contexts cx cx'

namespace InStep

variable {blind : s.host.Blind} {cx cx' : Context}

theorem getAttr (h : n.InStep blind s' read read' cx cx') {v v' : Value} (hv : n.Values v v')
    (attr : String) :
    Matches (n.Worlds blind.renumber) n.Values (Access.getAttr s read cx v attr)
      (Access.getAttr s' read' cx' v' attr) := by
  have called : Matches (n.Worlds blind.renumber) n.Values
      (tryCatch (s.callMethod cx.home v attr []) fun stop ↦
        throw (Access.asAttribute v attr stop))
      (tryCatch (s'.callMethod cx'.home v' attr []) fun stop ↦
        throw (Access.asAttribute v' attr stop)) := by
    refine (h.mirrors.callMethod blind h.contexts.home attr hv fun way ↦ rfl).tryCatch fun stop ↦ ?_
    have same : Access.asAttribute v' attr stop = Access.asAttribute v attr stop := by
      cases stop with
      | fault fault => rw [Access.asAttribute, Access.asAttribute, ← hv true,
          Value.typeName_renumber]
      | disorder | exhausted => rfl
    rw [same]
    exact matches_throw _
  have looked : n.Values ((v.lookupText? attr).getD .nil) ((v'.lookupText? attr).getD .nil) := by
    refine values_getD fun way ↦ ?_
    rw [Value.lookupText?_eq, Value.lookupText?_eq, ← hv way,
      ← Value.lookup?_renumber (n.injective way)]
    rfl
  have field : n.Values ((v.field? attr).getD .nil) ((v'.field? attr).getD .nil) := by
    refine values_getD fun way ↦ ?_
    rw [← hv way, Value.field?_renumber]
  cases v with
  | call env ref params =>
    obtain ⟨ref', params', rfl, hr, hp⟩ := values_call_cases hv
    rw [Access.getAttr, Access.getAttr, h.contexts.held]
    exact h.reads.attr cx.held env hr hp attr
  | node ref =>
    obtain ⟨ref', rfl, hr⟩ := values_node_cases hv
    rw [Access.getAttr, Access.getAttr, h.contexts.env, h.contexts.held]
    exact h.reads cx.held cx.env attr hr
  | nil =>
    rw [← hv true]
    exact matches_pure fun way ↦ rfl
  | map entries =>
    rw [← hv true] at looked ⊢
    exact matches_pure looked
  | record type fields =>
    rw [← hv true] at field ⊢
    exact matches_pure field
  | _ =>
    rw [← hv true] at called ⊢
    exact called

theorem index (h : n.InStep blind s' read read' cx cx') {v v' : Value} {args args' : List Value}
    (hv : n.Values v v') (hargs : n.Lists args args') :
    Matches (n.Worlds blind.renumber) n.Values (Access.index s read cx v args)
      (Access.index s' read' cx' v' args') := by
  have named : Matches (n.Worlds blind.renumber) n.Values (do
        let name ← Eval.ofExcept (Access.nameArg v args)
        Access.getAttr s read cx v name) (do
        let name ← Eval.ofExcept (Access.nameArg v' args')
        Access.getAttr s' read' cx' v' name) := by
    rw [← hv true, ← hargs true, Access.nameArg_renumber, hv true]
    refine (matches_ofExcept (Agree.refl _)).bind ?_
    rintro name _ rfl
    exact h.getAttr hv name
  have looked : Matches (n.Worlds blind.renumber) n.Values (do
        let key ← Eval.ofExcept (Access.singleArg v args)
        return (v.lookup? key).getD .nil) (do
        let key ← Eval.ofExcept (Access.singleArg v' args')
        return (v'.lookup? key).getD .nil) := by
    refine (matches_ofExcept (P := n.Values) (agree fun way ↦ ?_)).bind fun key key' hkey ↦
      matches_pure (values_getD fun way ↦ ?_)
    · rw [← hv way, ← hargs way, Access.singleArg_renumber]
    · rw [← hv way, ← hkey way, Value.lookup?_renumber (n.injective way)]
  have items : Matches (n.Worlds blind.renumber) n.Values (Eval.ofExcept (selectItems v args))
      (Eval.ofExcept (selectItems v' args')) := by
    refine matches_ofExcept (agree fun way ↦ ?_)
    rw [← hv way, ← hargs way, selectItems_renumber]
  have chars : Matches (n.Worlds blind.renumber) n.Values (Eval.ofExcept (selectChars v args))
      (Eval.ofExcept (selectChars v' args')) := by
    refine matches_ofExcept (agree fun way ↦ ?_)
    rw [← hv way, ← hargs way, selectChars_renumber]
  rw [← hv true] at named looked items chars ⊢
  cases v with
  | nil => exact matches_pure fun way ↦ rfl
  | map entries => exact looked
  | call env ref params | node ref | record type fields => exact named
  | list items => exact items
  | str text => exact chars
  | _ => exact matches_throw _

/-- A binary operation on what two codes compute, other than the two that may skip the second. -/
theorem operands (h : n.InStep blind s' read read' cx cx') (op : BinaryOp)
    {a a' b b' : Eval σ Value} (ha : Matches (n.Worlds blind.renumber) n.Values a a')
    (hb : Matches (n.Worlds blind.renumber) n.Values b b') :
    Matches (n.Worlds blind.renumber) n.Values
      (do
        let a ← a
        let b ← b
        applyBinary read cx.held op a b)
      (do
        let a ← a'
        let b ← b'
        applyBinary read' cx'.held op a b) := by
  rw [h.contexts.held]
  exact ha.bind fun _ _ ha ↦ hb.bind fun _ _ hb ↦ matches_applyBinary h.reads cx.held op ha hb

theorem truthy_eq {v v' : Value} (h : n.Values v v') : v'.truthy = v.truthy := by
  rw [← h true, Value.truthy_renumber]

theorem refs_of_target {target : NodeTarget} (h : n.InStep blind s' read read' cx cx')
    (closed : target.renumber (n.number false) = target.renumber (n.number true)) :
    n.Refs (target.ref cx.home cx.homeName)
      ((target.renumber (n.number true)).ref cx'.home cx'.homeName) := by
  intro way
  cases target with
  | own index name =>
    simp only [NodeTarget.ref, NodeTarget.renumber, NodeRef.renumber, h.contexts.home way,
      h.contexts.homeName]
  | imported ref =>
    simp only [NodeTarget.renumber, NodeTarget.imported.injEq] at closed
    exact forall_way (g := fun way ↦ NodeRef.renumber (n.number way)) closed way

mutual

/-- Code that is the same in both numberings, and so mentions common modules only, does the same on
both sides. -/
theorem run (h : n.InStep blind s' read read' cx cx') {vars vars' : List Value}
    (hvars : n.Lists vars vars') :
    ∀ c : Code, c.renumber (n.number false) = c.renumber (n.number true) →
      Matches (n.Worlds blind.renumber) n.Values (run s read cx vars c)
        (run s' read' cx' vars' (c.renumber (n.number true)))
  | .const v, closed => by
    simp only [Code.renumber, Code.const.injEq] at closed ⊢
    simp only [Formulary.run]
    exact matches_pure (forall_way closed)
  | .attr name, _ => by
    simp only [Code.renumber, Formulary.run, h.contexts.env, h.contexts.held]
    exact h.reads cx.held cx.env name h.contexts.node
  | .var i, _ => by
    simp only [Code.renumber, Formulary.run]
    rcases rel_cases (rel_getElem? (forall₂_of_map hvars) i) with ⟨hv, hv'⟩ | ⟨v, v', hv, hv', same⟩
    · rw [hv, hv']
      exact matches_throw _
    · rw [hv, hv']
      exact matches_pure same
  | .params, _ => by
    simp only [Code.renumber, Formulary.run, h.contexts.env]
    exact (matches_visibleParams cx.env).bind fun es es' hs ↦ matches_pure (values_map hs)
  | .node target, closed => by
    simp only [Code.renumber, Code.node.injEq] at closed ⊢
    simp only [Formulary.run]
    exact matches_pure (values_node (h.refs_of_target closed))
  | .hostClass name, _ => by
    simp only [Code.renumber, Formulary.run]
    exact matches_pure fun way ↦ rfl
  | .unary op a, closed => by
    simp only [Code.renumber, Code.unary.injEq] at closed ⊢
    simp only [Formulary.run]
    refine (run h hvars a closed.2).bind fun v v' hv ↦ matches_ofExcept (agree fun way ↦ ?_)
    rw [← hv way, Value.unary_renumber]
  | .binary op a b, closed => by
    simp only [Code.renumber, Code.binary.injEq] at closed ⊢
    have ha := run h hvars a closed.2.1
    have hb := run h hvars b closed.2.2
    cases op
    case and =>
      simp only [Formulary.run]
      refine ha.bind fun v v' hv ↦ ?_
      rw [truthy_eq hv]
      split
      · exact hb
      · exact matches_pure hv
    case or =>
      simp only [Formulary.run]
      refine ha.bind fun v v' hv ↦ ?_
      rw [truthy_eq hv]
      split
      · exact matches_pure hv
      · exact hb
    all_goals
      simp only [Formulary.run]
      exact h.operands _ ha hb
  | .cond test positive negative, closed => by
    simp only [Code.renumber, Code.cond.injEq] at closed ⊢
    simp only [Formulary.run]
    have hp := run h hvars positive closed.2.1
    have hn := run h hvars negative closed.2.2
    refine (run h hvars test closed.1).bind fun v v' hv ↦ ?_
    rw [truthy_eq hv]
    split
    · exact hp
    · exact hn
  | .getAttr receiver name, closed => by
    simp only [Code.renumber, Code.getAttr.injEq] at closed ⊢
    simp only [Formulary.run]
    exact (run h hvars receiver closed.1).bind fun v v' hv ↦ h.getAttr hv name
  | .index receiver args, closed => by
    simp only [Code.renumber, Code.index.injEq] at closed ⊢
    simp only [Formulary.run]
    have ha := runAll h hvars args closed.2
    exact (run h hvars receiver closed.1).bind fun v v' hv ↦ ha.bind fun vs vs' hs ↦ h.index hv hs
  | .method receiver name args, closed => by
    simp only [Code.renumber, Code.method.injEq] at closed ⊢
    simp only [Formulary.run]
    have ha := runAll h hvars args closed.2.2
    exact (run h hvars receiver closed.1).bind fun v v' hv ↦ ha.bind fun vs vs' hs ↦
      h.mirrors.callMethod blind h.contexts.home name hv hs
  | .function type name args, closed => by
    simp only [Code.renumber, Code.function.injEq] at closed ⊢
    simp only [Formulary.run]
    exact (runAll h hvars args closed.2.2).bind fun vs vs' hs ↦
      h.mirrors.callFunction blind type name hs
  | .call target args, closed => by
    simp only [Code.renumber, Code.call.injEq] at closed ⊢
    simp only [Formulary.run]
    have ha := runEntries h hvars args closed.2
    exact (run h hvars target closed.1).bind fun v v' hv ↦ ha.bind fun es es' hs ↦
      matches_apply h.contexts.node hv (entries_ofEntries hs)
  | .raise args, closed => by
    simp only [Code.renumber, Code.raise.injEq] at closed ⊢
    simp only [Formulary.run]
    refine (runAll h hvars args closed).bind fun vs vs' hs ↦ ?_
    have same : vs'.map Value.text = vs.map Value.text := by
      rw [← hs true, List.map_map]
      exact List.map_congr_left fun v _ ↦ Value.text_renumber _ v
    rw [same]
    exact matches_throw _
  | .list items, closed => by
    simp only [Code.renumber, Code.list.injEq] at closed ⊢
    simp only [Formulary.run]
    exact (runAll h hvars items closed).bind fun vs vs' hs ↦ matches_pure (values_list hs)
  | .set items, closed => by
    simp only [Code.renumber, Code.set.injEq] at closed ⊢
    simp only [Formulary.run]
    exact (runAll h hvars items closed).bind fun vs vs' hs ↦ matches_pure (values_set hs)
  | .map entries, closed => by
    simp only [Code.renumber, Code.map.injEq] at closed ⊢
    simp only [Formulary.run]
    exact (runEntries h hvars entries closed).bind fun es es' hs ↦
      matches_pure (values_map (entries_ofEntries hs))
  | .comprehension yield pair source filter, closed => by
    simp only [Code.renumber, Code.comprehension.injEq] at closed ⊢
    simp only [Formulary.run]
    refine (run h hvars source closed.2.2.1).bind fun v v' hv ↦ ?_
    refine (matches_ofExcept (P := n.Lists) (agree fun way ↦ ?_)).bind fun items items' hitems ↦ ?_
    · rw [← hv way, Value.iterate_renumber]
    exact runYield h hvars pair hitems
      (fun vars vars' hvars ↦ runFilter h hvars filter closed.2.2.2) yield closed.1

/-- Codes that are the same in both numberings do the same on both sides. -/
theorem runAll (h : n.InStep blind s' read read' cx cx') {vars vars' : List Value}
    (hvars : n.Lists vars vars') :
    ∀ cs : List Code, Code.renumberAll (n.number false) cs = Code.renumberAll (n.number true) cs →
      Matches (n.Worlds blind.renumber) n.Lists (runAll s read cx vars cs)
        (runAll s' read' cx' vars' (Code.renumberAll (n.number true) cs))
  | [], _ => by
    simp only [Code.renumberAll, Formulary.runAll]
    exact matches_pure fun way ↦ rfl
  | c :: cs, closed => by
    simp only [Code.renumberAll, List.cons.injEq] at closed ⊢
    simp only [Formulary.runAll]
    have hs := runAll h hvars cs closed.2
    exact (run h hvars c closed.1).bind fun v v' hv ↦ hs.bind fun vs vs' hs ↦
      matches_pure (lists_cons hv hs)

/-- Entries that are the same in both numberings do the same on both sides. -/
theorem runEntries (h : n.InStep blind s' read read' cx cx') {vars vars' : List Value}
    (hvars : n.Lists vars vars') :
    ∀ es : List (Entry Code Code),
      Code.renumberEntries (n.number false) es = Code.renumberEntries (n.number true) es →
      Matches (n.Worlds blind.renumber) n.Entries (runEntries s read cx vars es)
        (runEntries s' read' cx' vars' (Code.renumberEntries (n.number true) es))
  | [], _ => by
    simp only [Code.renumberEntries, Formulary.runEntries]
    exact matches_pure fun way ↦ rfl
  | .pair k v :: rest, closed => by
    simp only [Code.renumberEntries, List.cons.injEq, Entry.pair.injEq] at closed ⊢
    simp only [Formulary.runEntries]
    have hv := run h hvars v closed.1.2
    have hs := runEntries h hvars rest closed.2
    exact (run h hvars k closed.1.1).bind fun k k' hk ↦ hv.bind fun v v' hv ↦
      hs.bind fun es es' hs ↦ matches_pure (entries_cons hk hv hs)
  | .spread c :: rest, closed => by
    simp only [Code.renumberEntries, List.cons.injEq, Entry.spread.injEq] at closed ⊢
    simp only [Formulary.runEntries]
    have hs := runEntries h hvars rest closed.2
    refine (run h hvars c closed.1).bind fun v v' hv ↦ ?_
    refine (matches_ofExcept (P := n.Entries) (agree fun way ↦ ?_)).bind fun fs fs' hfs ↦
      hs.bind fun es es' hs ↦ matches_pure (entries_append hfs hs)
    rw [← hv way, spreadEntries_renumber]

/-- A filter that is the same in both numberings lets the same pass. -/
theorem runFilter (h : n.InStep blind s' read read' cx cx') {vars vars' : List Value}
    (hvars : n.Lists vars vars') :
    ∀ filter : Option Code,
      Code.renumberOptional (n.number false) filter = Code.renumberOptional (n.number true) filter →
      Matches (n.Worlds blind.renumber) Eq (runFilter s read cx vars filter)
        (runFilter s' read' cx' vars' (Code.renumberOptional (n.number true) filter))
  | none, _ => by
    simp only [Code.renumberOptional, Formulary.runFilter]
    exact matches_pure rfl
  | some c, closed => by
    simp only [Code.renumberOptional, Option.some.injEq] at closed ⊢
    simp only [Formulary.runFilter]
    exact (run h hvars c closed).bind fun v v' hv ↦ matches_pure (truthy_eq hv).symm

/-- A comprehension with a body that is the same in both numberings collects the same. -/
theorem runYield (h : n.InStep blind s' read read' cx cx') {vars vars' : List Value}
    (hvars : n.Lists vars vars')
    (pair : Bool) {items items' : List Value} {filter filter' : List Value → Eval σ Bool}
    (hitems : n.Lists items items') (hfilter : ∀ vars vars', n.Lists vars vars' →
      Matches (n.Worlds blind.renumber) Eq (filter vars) (filter' vars')) :
    ∀ yield : Yield Code,
      Code.renumberYield (n.number false) yield = Code.renumberYield (n.number true) yield →
      Matches (n.Worlds blind.renumber) n.Values (runYield s read cx vars pair items filter yield)
        (runYield s' read' cx' vars' pair items' filter'
          (Code.renumberYield (n.number true) yield))
  | .list c, closed => by
    simp only [Code.renumberYield, Yield.list.injEq] at closed ⊢
    simp only [Formulary.runYield]
    refine (matches_collect pair hvars hitems hfilter fun vars vars' hvars ↦
      run h hvars c closed).bind fun vs vs' hs ↦ matches_pure (values_list (map_of_forall₂ hs))
  | .set c, closed => by
    simp only [Code.renumberYield, Yield.set.injEq] at closed ⊢
    simp only [Formulary.runYield]
    refine (matches_collect pair hvars hitems hfilter fun vars vars' hvars ↦
      run h hvars c closed).bind fun vs vs' hs ↦ matches_pure (values_set (map_of_forall₂ hs))
  | .map k v, closed => by
    simp only [Code.renumberYield, Yield.map.injEq] at closed ⊢
    simp only [Formulary.runYield]
    refine (matches_collect (R := fun e e' ↦ ∀ way, Value.renumberEntry (n.number way) e = e')
      pair hvars hitems hfilter fun vars vars' hvars ↦ ?_).bind fun es es' hs ↦
        matches_pure (values_map (entries_ofEntries (map_of_forall₂ hs)))
    have hv := run h hvars v closed.2
    refine (run h hvars k closed.1).bind fun k k' hk ↦ hv.bind fun v v' hv ↦
      matches_pure fun way ↦ ?_
    rw [Value.renumberEntry, Prod.map, hk way, hv way]

end

/-! ### Attributes -/

/-- A member's body that is the same in both numberings computes the same on both sides. -/
theorem runBody (h : n.InStep blind s' read read' cx cx') (name : String) {body : Body}
    (closed : body.renumber (n.number false) = body.renumber (n.number true)) :
    Matches (n.Worlds blind.renumber) n.Values (runBody s read cx name body)
      (runBody s' read' cx' name (body.renumber (n.number true))) := by
  have empty : n.Lists [] [] := fun way ↦ rfl
  cases body with
  | formula code =>
    simp only [Body.renumber, Body.formula.injEq] at closed
    exact h.run empty code closed
  | param default =>
    simp only [Body.renumber, Body.param.injEq] at closed ⊢
    unfold Formulary.runBody
    rw [h.contexts.env]
    refine (matches_param? cx.env name).bind fun given given' hgiven ↦ ?_
    cases given with
    | some v =>
      rw [← hgiven true]
      exact matches_pure fun way ↦ Option.some.inj ((hgiven way).trans (hgiven true).symm)
    | none =>
      rw [← hgiven true]
      cases default with
      | none => exact matches_throw _
      | some code =>
        simp only [Code.renumberOptional, Option.some.injEq] at closed
        exact h.run empty code closed

end InStep

section

variable {ref ref' : NodeRef}

theorem Refs.module (h : n.Refs ref ref') (way : Bool) : n.number way ref.module = ref'.module := by
  rw [← h way, NodeRef.renumber]

theorem Refs.index (h : n.Refs ref ref') : ref'.index = ref.index := by
  rw [← h true, NodeRef.renumber]

theorem Refs.name (h : n.Refs ref ref') : ref'.name = ref.name := by
  rw [← h true, NodeRef.renumber]

theorem Refs.key (h : n.Refs ref ref') (slot : Nat) :
    n.Keys ⟨ref.module, ref.index, slot⟩ ⟨ref'.module, ref'.index, slot⟩ := by
  intro way
  rw [MemoKey.renumber, Refs.module h way, Refs.index h]

/-- The same node on both sides is of the same type. -/
theorem Mirrors.node? (mirrors : n.Mirrors s s') (h : n.Refs ref ref') :
    Option.Rel (fun type type' ↦ ∀ way, type.Twin (n.number way) type') (s.library.node? ref)
      (s'.library.node? ref') := by
  obtain ⟨m, m', found, found', twin⟩ := mirrors.twin (Refs.module h)
  rw [Library.node?, Library.node?, found, found', Refs.index h]
  change Option.Rel _ m.nodes[ref.index]? m'.nodes[ref.index]?
  rcases rel_cases (rel_getElem? (twin true).nodes ref.index) with ⟨hn, hn'⟩ | ⟨t, t', ht, ht', _⟩
  · rw [← Array.getElem?_toList, ← Array.getElem?_toList, hn, hn']
    exact .none
  · rw [← Array.getElem?_toList, ← Array.getElem?_toList, ht, ht']
    refine .some fun way ↦ ?_
    have rel := rel_getElem? (twin way).nodes ref.index
    rw [ht, ht'] at rel
    cases rel with
    | some same => exact same

/-- The same node on both sides has the same members. -/
theorem Mirrors.slot? (mirrors : n.Mirrors s s') (h : n.Refs ref ref') (attr : String)
    (way : Bool) : s'.library.slot? ref' attr =
      (s.library.slot? ref attr).map (Slot.renumber (n.number way)) := by
  rw [Library.slot?, Library.slot?]
  rcases rel_cases (mirrors.node? h) with ⟨hn, hn'⟩ | ⟨type, type', hn, hn', same⟩
  · rw [hn, hn']
    rfl
  · rw [hn, hn']
    exact (same way).table attr

/-- A member that is the same in both numberings computes the same on both sides. -/
theorem Mirrors.compute (mirrors : n.Mirrors s s') (blind : s.host.Blind)
    (hread : n.Reads blind.renumber read read') (held : List Nat) (env : Nat) (h : n.Refs ref ref')
    {slot : Slot} (closed : slot.renumber (n.number false) = slot.renumber (n.number true)) :
    Matches (n.Worlds blind.renumber) n.Values (compute s read held env ref slot)
      (compute s' read' held env ref' (slot.renumber (n.number true))) := by
  have key := Refs.key h slot.id
  have body : slot.member.body.renumber (n.number false) =
      slot.member.body.renumber (n.number true) :=
    congrArg (fun slot : Slot ↦ slot.member.body) closed
  have step : n.InStep blind s' read read' ⟨env, held, ref, slot.home, slot.homeName⟩
      ⟨env, held, ref', n.number true slot.home, slot.homeName⟩ := by
    refine ⟨mirrors, hread, fun way ↦ ?_⟩
    rw [Context.renumber, h way]
    congr 1
    exact forall_way (g := n.number) (congrArg Slot.home closed) way
  refine (matches_record fun way ↦ ?_).bind fun _ _ _ ↦ ?_
  · rw [Event.renumber, key way]
    rfl
  refine (Matches.tryCatch (step.runBody slot.member.name body) fun stop ↦ ?_).bind
    fun v v' hv ↦ ?_
  · refine (matches_record fun way ↦ ?_).bind fun _ _ _ ↦ matches_throw _
    rw [Event.renumber, key way]
    rfl
  · refine (matches_store env key hv).bind fun _ _ _ ↦ ?_
    refine (matches_record fun way ↦ ?_).bind fun _ _ _ ↦ matches_pure hv
    rw [Event.renumber, key way, Option.map_some, hv way]
    rfl

/-- Reading an attribute of a node that both sides have does the same on both, whatever else there
is on either side. -/
theorem Mirrors.readAttr (mirrors : n.Mirrors s s') (blind : s.host.Blind) (depth : Nat) :
    n.Reads blind.renumber (readAttr s depth) (readAttr s' depth) := by
  induction depth with
  | zero =>
    intro held env ref ref' attr h
    exact matches_throw _
  | succ depth ih =>
    intro held env ref ref' attr h
    have slots := mirrors.slot? h attr
    cases found : s.library.slot? ref attr with
    | none =>
      have missing : s'.library.slot? ref' attr = none := by rw [slots true, found, Option.map_none]
      rw [readAttr_of_none found, readAttr_of_none missing, Refs.name h]
      exact matches_throw _
    | some slot =>
      simp only [found, Option.map_some] at slots
      -- Both numberings give the member of the other side, so they give the same.
      have closed := Option.some.inj ((slots false).symm.trans (slots true))
      rw [readAttr_of_some found, readAttr_of_some (slots true)]
      refine (matches_cached? env (Refs.key h slot.id)).bind fun kept kept' hkept ↦ ?_
      cases kept with
      | some v =>
        rw [← hkept true]
        exact matches_pure fun way ↦ Option.some.inj ((hkept way).trans (hkept true).symm)
      | none =>
        rw [← hkept true]
        exact mirrors.compute blind ih held env h closed

end

end Numbering

/-! ### Engines -/

/-- Node types that are the same up to numbers have members of the same names. -/
theorem Node.Twin.memberNames {f : Nat → Nat} {n n' : Node} (h : n.Twin f n') :
    n'.memberNames = n.memberNames := by
  have distinct (n : Node) : n.table.keys.Nodup := Std.HashMap.nodup_keys
  have same (x : String) : x ∈ n'.memberNames ↔ x ∈ n.memberNames := by
    rw [Node.memberNames, Node.memberNames, mem_sortNames_iff, mem_sortNames_iff,
      Std.HashMap.mem_keys, Std.HashMap.mem_keys, Std.HashMap.mem_iff_isSome_getElem?,
      Std.HashMap.mem_iff_isSome_getElem?, h.table, Option.isSome_map]
  have ascending (n : Node) : n.memberNames.Pairwise (· < ·) := sortNames_ascending (distinct n)
  have apart (n : Node) : n.memberNames.Nodup :=
    (List.mergeSort_perm _ _).nodup_iff.mpr (distinct n)
  refine List.Perm.eq_of_pairwise (fun a b _ _ less greater ↦ ?_) (ascending n') (ascending n)
    ((List.perm_ext_iff_of_nodup (apart n') (apart n)).mpr same)
  exact absurd greater (String.lt_asymm less)

namespace Engine

variable {σ : Type} {n : Numbering} {e e' : Engine σ}

/-- Engines for one module that both sides have. -/
structure Mirrors (n : Numbering) (e e' : Engine σ) : Prop where
  setting : n.Mirrors e.setting e'.setting
  module : ∀ way, e.module.Twin (n.number way) e'.module
  depth : e'.depth = e.depth

/-- Nothing that can be asked tells one engine from another: from worlds that are the same up to the
numbers of modules, every request gets answers that are the same up to these, or the same fault, and
leaves such worlds behind. -/
structure Indistinct (n : Numbering) (state : (Nat → Nat) → σ → σ) (e e' : Engine σ) : Prop where
  evaluate : ∀ node attr {params params'}, n.Entries params params' →
    Matches (n.Worlds state) n.Values (e.evaluate node attr params) (e'.evaluate node attr params')
  evaluateMany : ∀ node attrs {params params'}, n.Entries params params' →
    Matches (n.Worlds state) n.Lists (e.evaluateMany node attrs params)
      (e'.evaluateMany node attrs params')
  evaluateEntries : ∀ node attrs {params params'}, n.Entries params params' →
    Matches (n.Worlds state)
      (fun es es' ↦ ∀ way, es.map (Prod.map id (Value.renumber (n.number way))) = es')
      (e.evaluateEntries node attrs params) (e'.evaluateEntries node attrs params')
  evaluateNode : ∀ {ref ref'} attrs {params params'}, n.Refs ref ref' → n.Entries params params' →
    Matches (n.Worlds state) n.Lists (e.evaluateNode ref attrs params)
      (e'.evaluateNode ref' attrs params')
  read : n.Reads state e.read e'.read
  node : ∀ name, Agree n.Refs (e.node name) (e'.node name)
  nodeNames : e'.module.nodeNames = e.module.nodeNames
  paramNames : e'.module.paramNames = e.module.paramNames
  membersByNode : e'.membersByNode = e.membersByNode
  membersOf : e'.membersOf = e.membersOf
  paramsOf : e'.paramsOf = e.paramsOf
  whitelist : e'.whitelist = e.whitelist

namespace Mirrors

theorem node (h : Mirrors n e e') (name : String) : Agree n.Refs (e.node name) (e'.node name) := by
  refine Numbering.agree fun way ↦ ?_
  rw [Engine.node, Engine.node, (h.module way).node?]
  cases e.module.node? name <;> rfl

theorem read (h : Mirrors n e e') (blind : e.setting.host.Blind) :
    n.Reads blind.renumber e.read e'.read := by
  rw [Engine.read, Engine.read, h.depth]
  exact h.setting.readAttr blind e.depth

theorem evaluateNode (h : Mirrors n e e') (blind : e.setting.host.Blind) {ref ref' : NodeRef}
    (attrs : List String) {params params' : List (Value × Value)} (hr : n.Refs ref ref')
    (hp : n.Entries params params') :
    Matches (n.Worlds blind.renumber) n.Lists (e.evaluateNode ref attrs params)
      (e'.evaluateNode ref' attrs params') := by
  refine (Numbering.matches_newEnv hp).bind ?_
  rintro env _ rfl
  refine (Matches.mapM (List.forall₂_same.mpr fun attr _ ↦ rfl) ?_).imp fun _ _ ↦
    Numbering.map_of_forall₂
  rintro attr _ rfl
  exact h.read blind [] env attr hr

theorem node_members {α : Type} (h : Mirrors n e e') (g : Node → α)
    (natural : ∀ type type' : Node, type.Twin (n.number true) type' → g type' = g type)
    (name : String) (default : α) :
    (do return ((e'.setting.library.node? (← e'.node name)).map g).getD default) =
      (do return ((e.setting.library.node? (← e.node name)).map g).getD default :
        Except Fault α) := by
  have agree := h.node name
  cases here : e.node name with
  | error fault =>
    rw [here] at agree
    cases there : e'.node name with
    | error fault' =>
      rw [there] at agree
      cases agree
      rfl
    | ok ref' =>
      rw [there] at agree
      cases agree
  | ok ref =>
    rw [here] at agree
    obtain ⟨ref', there, hr⟩ := agree.exists_right
    rw [there]
    refine congrArg (fun found : Option α ↦ (Except.ok (found.getD default) : Except Fault α)) ?_
    exact (map_eq_map_of_rel (h.setting.node? hr) fun type type' twin ↦
      (natural type type' (twin true)).symm).symm

/-- Engines for one module that two libraries have, each in its own, cannot be told apart. -/
theorem indistinct (h : Mirrors n e e') (blind : e.setting.host.Blind) :
    Indistinct n blind.renumber e e' where
  evaluate node attr params params' hp := by
    refine (Numbering.matches_ofExcept (h.node node)).bind fun ref ref' hr ↦ ?_
    refine (Numbering.matches_newEnv hp).bind ?_
    rintro env _ rfl
    exact h.read blind [] env attr hr
  evaluateMany node attrs params params' hp :=
    (Numbering.matches_ofExcept (h.node node)).bind fun ref ref' hr ↦
      h.evaluateNode blind attrs hr hp
  evaluateEntries node attrs params params' hp := by
    refine Matches.bind ((Numbering.matches_ofExcept (h.node node)).bind fun ref ref' hr ↦
      h.evaluateNode blind attrs hr hp) fun vs vs' hs ↦ matches_pure fun way ↦ ?_
    rw [Indexed.ofEntries_eq, Indexed.ofEntries_eq, ← hs way, List.zip_map_right]
    exact (Ordered.ofEntries_map (fun a b ↦ rfl) _ _).symm
  evaluateNode := h.evaluateNode blind
  read := h.read blind
  node := h.node
  nodeNames := by
    rw [Module.nodeNames, Module.nodeNames]
    refine congrArg sortNames ?_
    exact (map_eq_map_of_forall₂ (h.module true).nodes fun _ _ twin ↦ twin.name.symm).symm
  paramNames := by rw [Module.paramNames, Module.paramNames, (h.module true).params]
  membersByNode := by
    rw [Engine.membersByNode, Engine.membersByNode]
    refine congrArg (List.mergeSort · _)
      (map_eq_map_of_forall₂ (h.module true).nodes fun type type' twin ↦ ?_).symm
    rw [twin.name, twin.memberNames]
  membersOf := funext fun name ↦
    h.node_members Node.memberNames (fun _ _ twin ↦ twin.memberNames) name []
  paramsOf := funext fun name ↦
    h.node_members Node.paramNames (fun _ _ twin ↦ by
      rw [Node.paramNames, Node.paramNames, twin.params]) name []
  whitelist := by
    rw [Engine.whitelist, Engine.whitelist, (h.module true).whitelist, h.setting.whitelist]

end Mirrors

end Engine

end Formulary
