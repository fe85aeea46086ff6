import Formulary.Proofs.Checked
import Formulary.Proofs.Congruence
import Formulary.Proofs.Meaning
import Formulary.Proofs.Renumbering
import Formulary.Proofs.Spelling
import Formulary.Proofs.Written
import Mathlib.Data.List.Basic

/-!
# Free names

Which expressions pass the check, and which names they refer to, said by the places where names
stand in them. An expression passes if the scope makes sense of each place within it
(`Scope.mentions_succeeds_iff`). The names that its definition is recorded to refer to are those
that its code reads as attributes (`Scope.references_exact`).
-/

namespace Formulary

/-! ### Places in expressions -/

namespace Expr

/-- The expressions that an expression is made of, each with the variables that are bound around it
there, innermost first. -/
def places : Expr → List (List String × Expr)
  | literal _ _ | ident _ _ | params _ | path _ _ => []
  | unary _ _ a | attr _ a _ => [([], a)]
  | binary _ _ a b => [([], a), ([], b)]
  | cond _ a b c => [([], a), ([], b), ([], c)]
  | index _ a args | method _ a _ args => ([], a) :: args.map (Prod.mk [])
  | call _ a args => ([], a) :: (args.flatMap argumentParts).map (Prod.mk [])
  | raise _ items | list _ items | set _ items => items.map (Prod.mk [])
  | map _ entries => (entries.flatMap entryParts).map (Prod.mk [])
  | comprehension _ yield binding source filter =>
    ([], source) :: (yieldParts yield ++ filter.toList).map (Prod.mk binding.names.reverse)

/-- An expression stands somewhere in another one; the variables `inner` are bound around it there
if `vars` are bound around the whole. -/
inductive Occurs (d : Expr) (inner : List String) : (vars : List String) → Expr → Prop where
  | here : Occurs d inner inner d
  | part {vars : List String} {e : Expr} {a : List String × Expr} (h : a ∈ e.places)
      (rest : Occurs d inner (a.1 ++ vars) a.2) : Occurs d inner vars e

theorem map_snd_places (e : Expr) : e.places.map Prod.snd = e.parts := by
  cases e <;> simp [places, parts, Function.comp_def]

/-- What holds of an expression if it holds of its parts holds of all expressions. -/
theorem places_induction {P : Expr → Prop} (step : ∀ e, (∀ a ∈ e.places, P a.2) → P e) (e : Expr) :
    P e := by
  refine parts_induction (fun e ih ↦ step e fun a ha ↦ ih a.2 ?_) e
  rw [← map_snd_places]
  exact List.mem_map_of_mem ha

/-- Expressions of which there is more to check than their parts. -/
inductive IsName : Expr → Prop where
  | ident (span : Span) (name : String) : IsName (.ident span name)
  | path (span : Span) (p : NodePath) : IsName (.path span p)
  | function (span place : Span) (p : NodePath) (name : String) (args : List Expr) :
      IsName (.method span (.path place p) name args)

end Expr

/-! ### What a scope makes sense of -/

theorem Module.isSome_node?_iff {m : Module} {name : String} :
    (m.node? name).isSome ↔ ∃ n ∈ m.nodes, n.name = name := by
  rw [node?, Option.isSome_map, Array.findIdx?_isSome, Array.any_eq_true']
  simp

namespace Scope

variable {sc : Scope} {vars : List String}

/-- A path is the name of a node so far, or of one in an imported module, or else, if it has no
module, of a host class. -/
def Knows (sc : Scope) (p : NodePath) : Prop :=
  match p.module with
  | none => (∃ d ∈ sc.drafts, d.name = p.name) ∨ ∃ c ∈ sc.classes, c.name = p.name
  | some module => ∃ m, Ordered.get? module sc.imports = some m ∧ ∃ n ∈ m.nodes, n.name = p.name

/-- A path is the name of a host class, and not of a node, and the class has a function that takes
this number of arguments. -/
def HasFunction (sc : Scope) (p : NodePath) (function : String) (count : Nat) : Prop :=
  p.module = none ∧ (∀ d ∈ sc.drafts, d.name ≠ p.name) ∧
    ∃ c arity, sc.class? p.name = some c ∧ c.arity? function = some arity ∧
      arity.accepts count = true

/-- Whether the scope makes sense of an expression, apart from its parts, where these variables are
bound: a name alone is a variable or a member of the open node, a path is known, and a method that
is called on a path is a function of a class. -/
def Admits (sc : Scope) (vars : List String) : Expr → Prop
  | .ident _ name => name ∈ vars ∨ sc.sees name = true
  | .path _ p => sc.Knows p
  | .method _ (.path _ p) name args => sc.HasFunction p name args.length
  | _ => True

theorem admits_of_not_isName {e : Expr} (h : ¬ e.IsName) : sc.Admits vars e := by
  unfold Admits
  split
  · exact absurd (.ident _ _) h
  · exact absurd (.path _ _) h
  · exact absurd (.function _ _ _ _ _) h
  · trivial

theorem isSome_ownNode?_iff {name : String} :
    (sc.ownNode? name).isSome ↔ ∃ d ∈ sc.drafts, d.name = name := by
  simp [ownNode?, List.findIdx?_isSome]

theorem isSome_class?_iff {name : String} :
    (sc.class? name).isSome ↔ ∃ c ∈ sc.classes, c.name = name := by
  simp [class?, List.find?_isSome]

/-- A path is known if it means a node or a host class. -/
theorem resolveTarget_succeeds_iff {p : NodePath} :
    (∃ target, sc.resolveTarget p = .ok target) ↔ sc.Knows p := by
  unfold resolveTarget resolveNode Knows
  cases hm : p.module with
  | none =>
    rw [← isSome_ownNode?_iff, ← isSome_class?_iff]
    cases sc.ownNode? p.name <;> cases sc.class? p.name <;> simp
  | some module =>
    dsimp only
    cases Ordered.get? module sc.imports with
    | none => simp
    | some m =>
      simp only [Option.some.injEq, exists_eq_left', ← Module.isSome_node?_iff]
      cases m.node? p.name <;> simp

/-- A path means a host class if no node so far has the name. -/
theorem resolveTarget_eq_hostClass_iff {p : NodePath} {c : ClassSignature} :
    sc.resolveTarget p = .ok (.hostClass c) ↔
      p.module = none ∧ (∀ d ∈ sc.drafts, d.name ≠ p.name) ∧ sc.class? p.name = some c := by
  have noNode : (∀ d ∈ sc.drafts, d.name ≠ p.name) ↔ sc.ownNode? p.name = none := by
    rw [← Option.not_isSome_iff_eq_none, isSome_ownNode?_iff]
    simp
  rw [noNode]
  unfold resolveTarget resolveNode
  cases hm : p.module with
  | none => cases sc.ownNode? p.name <;> cases sc.class? p.name <;> simp
  | some module =>
    dsimp only
    cases Ordered.get? module sc.imports with
    | none => simp
    | some m =>
      dsimp only
      cases m.node? p.name <;> simp

theorem checkFunction_eq_ok_iff {p : NodePath} {function : String} {count : Nat} :
    sc.checkFunction p function count = .ok () ↔ sc.HasFunction p function count := by
  constructor
  · intro h
    unfold checkFunction at h
    obtain ⟨target, resolved, h⟩ := bind_eq_ok h
    cases target with
    | node target => cases h
    | hostClass c =>
      obtain ⟨alone, other, found⟩ := resolveTarget_eq_hostClass_iff.mp resolved
      dsimp only at h
      split at h
      · cases h
      · next arity ha =>
        split at h
        · next accepts => exact ⟨alone, other, c, arity, found, ha, accepts⟩
        · cases h
  · rintro ⟨alone, other, c, arity, found, ha, accepts⟩
    have resolved : sc.resolveTarget p = .ok (.hostClass c) :=
      resolveTarget_eq_hostClass_iff.mpr ⟨alone, other, found⟩
    simp [checkFunction, resolved, ha, accepts, bind, Except.bind, pure, Except.pure]

/-! ### The check, part by part -/

/-- A look for names is put together from others: it succeeds if they all do, and finds the names
that they find, but for those that are bound around each. -/
structure Gathers (x : Except Problem (List String))
    (looks : List (List String × Except Problem (List String))) : Prop where
  succeeds_iff : (∃ names, x = .ok names) ↔ ∀ y ∈ looks, ∃ names, y.2 = .ok names
  mem_iff : ∀ {names}, x = .ok names → ∀ name, name ∈ names ↔
    ∃ y ∈ looks, name ∉ y.1 ∧ ∃ found, y.2 = .ok found ∧ name ∈ found

section

variable {x y : Except Problem (List String)}
  {looks others : List (List String × Except Problem (List String))}

theorem gathers_nothing : Gathers (.ok []) [] where
  succeeds_iff := by simp
  mem_iff h name := by
    cases h
    simp

theorem gathers_one (x : Except Problem (List String)) : Gathers x [([], x)] where
  succeeds_iff := by simp
  mem_iff h name := by simp [h]

theorem Gathers.append (hx : Gathers x looks) (hy : Gathers y others) :
    Gathers (do return (← x) ++ (← y)) (looks ++ others) where
  succeeds_iff := by
    rw [List.forall_mem_append, ← hx.succeeds_iff, ← hy.succeeds_iff]
    constructor
    · rintro ⟨names, h⟩
      obtain ⟨first, hf, h⟩ := bind_eq_ok h
      obtain ⟨second, hs, -⟩ := bind_eq_ok h
      exact ⟨⟨first, hf⟩, second, hs⟩
    · rintro ⟨⟨first, rfl⟩, second, rfl⟩
      exact ⟨_, rfl⟩
  mem_iff h name := by
    obtain ⟨first, second, hf, hs, rfl⟩ := bind₂_eq_ok h
    simp only [List.mem_append, hx.mem_iff hf, hy.mem_iff hs, or_and_right, exists_or]

/-- A look within the reach of some variables. -/
theorem Gathers.unbound {α : Type} {as : List α} {f : α → Except Problem (List String)}
    (h : Gathers x (as.map fun a ↦ ([], f a))) (bound : List String) :
    Gathers (do return (← x).filter fun name ↦ !bound.contains name)
      (as.map fun a ↦ (bound.reverse, f a)) where
  succeeds_iff := by
    have inner := h.succeeds_iff
    simp only [List.forall_mem_map] at inner ⊢
    rw [← inner]
    constructor
    · rintro ⟨names, h⟩
      obtain ⟨found, hf, -⟩ := bind_eq_ok h
      exact ⟨found, hf⟩
    · rintro ⟨names, rfl⟩
      exact ⟨_, rfl⟩
  mem_iff hn name := by
    obtain ⟨found, hf, hn⟩ := bind_eq_ok hn
    cases hn
    have inner := h.mem_iff hf name
    simp only [List.mem_filter, List.mem_map] at inner ⊢
    rw [inner]
    constructor
    · rintro ⟨⟨_, ⟨a, ha, rfl⟩, -, there⟩, free⟩
      exact ⟨_, ⟨a, ha, rfl⟩, by simpa using free, there⟩
    · rintro ⟨_, ⟨a, ha, rfl⟩, free, there⟩
      exact ⟨⟨_, ⟨a, ha, rfl⟩, by simp, there⟩, by simpa using free⟩

end

variable (sc vars)

theorem gathers_mentionsAll (es : List Expr) :
    Gathers (sc.mentionsAll vars es) (es.map fun e ↦ ([], sc.mentions vars e)) := by
  induction es with
  | nil =>
    rw [mentionsAll]
    exact gathers_nothing
  | cons e es ih =>
    rw [mentionsAll]
    exact (gathers_one _).append ih

theorem gathers_mentionsNamed (es : List (Entry String Expr)) :
    Gathers (sc.mentionsNamed vars es)
      ((es.flatMap Expr.argumentParts).map fun e ↦ ([], sc.mentions vars e)) := by
  induction es with
  | nil =>
    rw [mentionsNamed]
    exact gathers_nothing
  | cons e es ih =>
    cases e <;> rw [mentionsNamed] <;> exact (gathers_one _).append ih

theorem gathers_mentionsEntries (es : List (Entry Expr Expr)) :
    Gathers (sc.mentionsEntries vars es)
      ((es.flatMap Expr.entryParts).map fun e ↦ ([], sc.mentions vars e)) := by
  induction es with
  | nil =>
    rw [mentionsEntries]
    exact gathers_nothing
  | cons e es ih =>
    cases e with
    | pair k v =>
      have all := (gathers_one (sc.mentions vars k)).append
        ((gathers_one (sc.mentions vars v)).append ih)
      simpa [mentionsEntries, Expr.entryParts] using all
    | spread e =>
      rw [mentionsEntries]
      exact (gathers_one _).append ih

theorem gathers_mentionsYield (y : Yield Expr) :
    Gathers (sc.mentionsYield vars y)
      ((Expr.yieldParts y).map fun e ↦ ([], sc.mentions vars e)) := by
  cases y with
  | list e | set e =>
    rw [mentionsYield]
    exact gathers_one _
  | map k v =>
    rw [mentionsYield]
    exact (gathers_one _).append (gathers_one _)

theorem gathers_mentionsOptional (o : Option Expr) :
    Gathers (sc.mentionsOptional vars o) (o.toList.map fun e ↦ ([], sc.mentions vars e)) := by
  cases o with
  | none =>
    rw [mentionsOptional]
    exact gathers_nothing
  | some e =>
    rw [mentionsOptional]
    exact gathers_one _

/-- The looks for names in the parts of an expression. -/
def looks (e : Expr) : List (List String × Except Problem (List String)) :=
  e.places.map fun a ↦ (a.1, sc.mentions (a.1 ++ vars) a.2)

theorem gathers_mentions (e : Expr) (compound : ¬ e.IsName) :
    Gathers (sc.mentions vars e) (sc.looks vars e) := by
  have listed : ∀ es : List Expr,
      (es.map (Prod.mk [])).map (fun a ↦ (a.1, sc.mentions (a.1 ++ vars) a.2)) =
        es.map fun e ↦ (([] : List String), sc.mentions vars e) := fun es ↦ by simp
  cases e with
  | literal | params =>
    rw [mentions]
    exact gathers_nothing
  | ident => exact absurd (.ident _ _) compound
  | path => exact absurd (.path _ _) compound
  | unary _ _ a | attr _ a _ =>
    rw [mentions]
    exact gathers_one _
  | binary _ _ a b =>
    rw [mentions]
    exact (gathers_one _).append (gathers_one _)
  | cond _ a b c =>
    have all := (gathers_one (sc.mentions vars a)).append
      ((gathers_one (sc.mentions vars b)).append (gathers_one (sc.mentions vars c)))
    simpa [mentions, looks, Expr.places] using all
  | index _ a args =>
    rw [mentions, looks, Expr.places, List.map_cons, listed]
    exact (gathers_one _).append (sc.gathers_mentionsAll vars args)
  | method _ a name args =>
    rw [looks, Expr.places, List.map_cons, listed, mentions]
    · exact (gathers_one _).append (sc.gathers_mentionsAll vars args)
    · rintro place p rfl
      exact compound (.function _ _ _ _ _)
  | call _ a args =>
    rw [mentions, looks, Expr.places, List.map_cons, listed]
    exact (gathers_one _).append (sc.gathers_mentionsNamed vars args)
  | raise _ items | list _ items | set _ items =>
    rw [mentions, looks, Expr.places, listed]
    exact sc.gathers_mentionsAll vars items
  | map _ entries =>
    rw [mentions, looks, Expr.places, listed]
    exact sc.gathers_mentionsEntries vars entries
  | comprehension _ yield binding source filter =>
    have inner := (sc.gathers_mentionsYield (binding.names.reverse ++ vars) yield).append
      (sc.gathers_mentionsOptional (binding.names.reverse ++ vars) filter)
    rw [← List.map_append] at inner
    have all := (gathers_one (sc.mentions vars source)).append (inner.unbound binding.names)
    simpa [mentions, looks, Expr.places, Function.comp_def] using all

variable {sc vars}

theorem mentions_ident_iff {span : Span} {name : String} :
    (∃ ds, sc.mentions vars (.ident span name) = .ok ds) ↔
      name ∈ vars ∨ sc.sees name = true := by
  rw [mentions]
  split <;> simp_all

theorem eq_of_mentions_ident {span : Span} {name : String} {ds : List String}
    (h : sc.mentions vars (.ident span name) = .ok ds) : ds = [name] := by
  rw [mentions] at h
  split at h
  · cases h
    rfl
  · cases h

theorem mentions_path_iff {span : Span} {p : NodePath} :
    (∃ ds, sc.mentions vars (.path span p) = .ok ds) ↔ sc.Knows p := by
  rw [← resolveTarget_succeeds_iff, mentions]
  constructor
  · rintro ⟨ds, h⟩
    obtain ⟨target, ht, -⟩ := bind_eq_ok h
    exact ⟨target, ht⟩
  · rintro ⟨target, ht⟩
    rw [ht]
    exact ⟨_, rfl⟩

theorem eq_nil_of_mentions_path {span : Span} {p : NodePath} {ds : List String}
    (h : sc.mentions vars (.path span p) = .ok ds) : ds = [] := by
  rw [mentions] at h
  obtain ⟨target, -, h⟩ := bind_eq_ok h
  cases h
  rfl

theorem HasFunction.knows {p : NodePath} {function : String} {count : Nat}
    (h : sc.HasFunction p function count) : sc.Knows p := by
  obtain ⟨alone, other, c, arity, found, -, -⟩ := h
  exact resolveTarget_succeeds_iff.mp
    ⟨_, resolveTarget_eq_hostClass_iff.mpr ⟨alone, other, found⟩⟩

/-- A function call on a path is checked as a whole, and then its arguments are. -/
theorem mentions_function_eq_ok_iff {span place : Span} {p : NodePath} {name : String}
    {args : List Expr} {ds : List String} :
    sc.mentions vars (.method span (.path place p) name args) = .ok ds ↔
      sc.HasFunction p name args.length ∧ sc.mentionsAll vars args = .ok ds := by
  rw [mentions, ← checkFunction_eq_ok_iff]
  constructor
  · intro h
    obtain ⟨_, hc, h⟩ := bind_eq_ok h
    exact ⟨hc, h⟩
  · rintro ⟨hc, h⟩
    rw [hc]
    exact h

/-- An expression passes the check if the scope makes sense of it apart from its parts, and its
parts pass. -/
theorem mentions_succeeds_iff_places (e : Expr) :
    (∃ ds, sc.mentions vars e = .ok ds) ↔
      sc.Admits vars e ∧ ∀ a ∈ e.places, ∃ ds, sc.mentions (a.1 ++ vars) a.2 = .ok ds := by
  by_cases h : e.IsName
  · cases h with
    | ident span name =>
      rw [mentions_ident_iff]
      simp [Admits, Expr.places]
    | path span p =>
      rw [mentions_path_iff]
      simp [Admits, Expr.places]
    | function span place p name args =>
      have all := (sc.gathers_mentionsAll vars args).succeeds_iff
      simp only [List.forall_mem_map] at all
      simp only [mentions_function_eq_ok_iff, exists_and_left, all, Admits, Expr.places,
        List.forall_mem_cons, List.forall_mem_map, List.nil_append, mentions_path_iff]
      exact and_congr_right fun h ↦ (and_iff_right h.knows).symm
  · have looked := (sc.gathers_mentions vars e h).succeeds_iff
    simp only [looks, List.forall_mem_map] at looked
    rw [looked]
    exact (and_iff_right (admits_of_not_isName h)).symm

/-- A checked expression mentions what its parts mention but for the variables that are bound
around them, or it is a name alone. -/
theorem mem_mentions_iff {e : Expr} {ds : List String} (h : sc.mentions vars e = .ok ds)
    (x : String) :
    x ∈ ds ↔ (∃ span, e = .ident span x) ∨
      ∃ a ∈ e.places, x ∉ a.1 ∧ ∃ found, sc.mentions (a.1 ++ vars) a.2 = .ok found ∧ x ∈ found := by
  by_cases he : e.IsName
  · cases he with
    | ident span name =>
      rw [eq_of_mentions_ident h]
      simp [Expr.places, eq_comm]
    | path span p =>
      rw [eq_nil_of_mentions_path h]
      simp [Expr.places]
    | function span place p name args =>
      rw [(sc.gathers_mentionsAll vars args).mem_iff (mentions_function_eq_ok_iff.mp h).2 x]
      constructor
      · rintro ⟨_, hy, free, there⟩
        obtain ⟨a, ha, rfl⟩ := List.mem_map.mp hy
        exact .inr ⟨([], a), List.mem_cons_of_mem _ (List.mem_map_of_mem ha), free, there⟩
      · rintro (⟨_, ⟨⟩⟩ | ⟨a, ha, free, there⟩)
        rcases List.mem_cons.mp ha with rfl | ha
        · obtain ⟨_, hr, hx⟩ := there
          rw [eq_nil_of_mentions_path hr] at hx
          cases hx
        · obtain ⟨b, hb, rfl⟩ := List.mem_map.mp ha
          exact ⟨_, List.mem_map_of_mem hb, free, there⟩
  · have found := (sc.gathers_mentions vars e he).mem_iff h x
    rw [found, looks]
    constructor
    · rintro ⟨_, hy, free, there⟩
      obtain ⟨a, ha, rfl⟩ := List.mem_map.mp hy
      exact .inr ⟨a, ha, free, there⟩
    · rintro (⟨span, rfl⟩ | ⟨a, ha, free, there⟩)
      · exact absurd (.ident _ _) he
      · exact ⟨_, List.mem_map_of_mem ha, free, there⟩

/-- An expression passes the check if the scope makes sense of every place in it. -/
theorem mentions_succeeds_iff (e : Expr) :
    (∃ ds, sc.mentions vars e = .ok ds) ↔
      ∀ d inner, Expr.Occurs d inner vars e → sc.Admits inner d := by
  induction e using Expr.places_induction generalizing vars with
  | step e ih =>
    rw [mentions_succeeds_iff_places]
    constructor
    · rintro ⟨self, parts⟩ d inner h
      cases h with
      | here => exact self
      | part ha rest => exact (ih _ ha).mp (parts _ ha) d inner rest
    · intro h
      exact ⟨h e vars .here, fun a ha ↦ (ih a ha).mpr fun d inner rest ↦ h d inner (.part ha rest)⟩

/-! ### Attributes in code -/

/-- Codes read the attributes that the codes of some expressions read, each resolved where it
stands. -/
def ReadAlike (sc : Scope) (vars : List String) (cs : List Code) (as : List (List String × Expr)) :
    Prop :=
  ∀ x, (∃ c ∈ cs, (Code.attr x).Within c) ↔
    ∃ a ∈ as, ∃ c, sc.lower (a.1 ++ vars) a.2 = .ok c ∧ (Code.attr x).Within c

section

variable {cs ds : List Code} {as bs : List (List String × Expr)}

theorem readAlike_nil : ReadAlike sc vars [] [] := fun x ↦ by simp

theorem readAlike_one {e : Expr} {c : Code} (h : sc.lower vars e = .ok c) :
    ReadAlike sc vars [c] [([], e)] := fun x ↦ by simp [h]

theorem ReadAlike.append (h : ReadAlike sc vars cs as) (h' : ReadAlike sc vars ds bs) :
    ReadAlike sc vars (cs ++ ds) (as ++ bs) := fun x ↦ by
  simp only [List.mem_append, or_and_right, exists_or, h x, h' x]

theorem ReadAlike.cons {e : Expr} {c : Code} (h : sc.lower vars e = .ok c)
    (rest : ReadAlike sc vars cs as) : ReadAlike sc vars (c :: cs) (([], e) :: as) :=
  (readAlike_one h).append rest

/-- A code without parts that is no attribute reads nothing. -/
theorem readAlike_leaf_cons {c : Code} (leaf : c.parts = []) (other : ∀ x, c ≠ .attr x) :
    ReadAlike sc vars (c :: cs) as ↔ ReadAlike sc vars cs as := by
  have none : ∀ x, ¬ (Code.attr x).Within c := by
    intro x within
    cases within with
    | here => exact other x rfl
    | part hd rest =>
      rw [leaf] at hd
      cases hd
  simp [ReadAlike, none]

theorem ReadAlike.under {bound : List String} {es : List Expr}
    (h : ReadAlike sc (bound ++ vars) cs (es.map (Prod.mk []))) :
    ReadAlike sc vars cs (es.map (Prod.mk bound)) := fun x ↦ by
  simpa using h x

theorem readAlike_lowerAll {es : List Expr} {cs : List Code} (h : sc.lowerAll vars es = .ok cs) :
    ReadAlike sc vars cs (es.map (Prod.mk [])) := by
  induction es generalizing cs with
  | nil =>
    rw [lowerAll] at h
    cases h
    exact readAlike_nil
  | cons e es ih =>
    rw [lowerAll] at h
    obtain ⟨c, rest, hc, hr, rfl⟩ := bind₂_eq_ok h
    exact .cons hc (ih hr)

theorem readAlike_lowerNamed {es : List (Entry String Expr)} {cs : List (Entry Code Code)}
    (h : sc.lowerNamed vars es = .ok cs) :
    ReadAlike sc vars (cs.flatMap Entry.codes)
      ((es.flatMap Expr.argumentParts).map (Prod.mk [])) := by
  induction es generalizing cs with
  | nil =>
    rw [lowerNamed] at h
    cases h
    exact readAlike_nil
  | cons e es ih =>
    cases e with
    | pair name e =>
      rw [lowerNamed] at h
      obtain ⟨c, rest, hc, hr, rfl⟩ := bind₂_eq_ok h
      exact (readAlike_leaf_cons rfl (by simp)).mpr (.cons hc (ih hr))
    | spread e =>
      rw [lowerNamed] at h
      obtain ⟨c, rest, hc, hr, rfl⟩ := bind₂_eq_ok h
      exact .cons hc (ih hr)

theorem readAlike_lowerEntries {es : List (Entry Expr Expr)} {cs : List (Entry Code Code)}
    (h : sc.lowerEntries vars es = .ok cs) :
    ReadAlike sc vars (cs.flatMap Entry.codes) ((es.flatMap Expr.entryParts).map (Prod.mk [])) := by
  induction es generalizing cs with
  | nil =>
    rw [lowerEntries] at h
    cases h
    exact readAlike_nil
  | cons e es ih =>
    cases e with
    | pair k v =>
      rw [lowerEntries] at h
      obtain ⟨ck, cv, rest, hk, hv, hr, rfl⟩ := bind₃_eq_ok h
      exact .cons hk (.cons hv (ih hr))
    | spread e =>
      rw [lowerEntries] at h
      obtain ⟨c, rest, hc, hr, rfl⟩ := bind₂_eq_ok h
      exact .cons hc (ih hr)

theorem readAlike_lowerYield {y : Yield Expr} {cy : Yield Code}
    (h : sc.lowerYield vars y = .ok cy) :
    ReadAlike sc vars cy.codes ((Expr.yieldParts y).map (Prod.mk [])) := by
  cases y with
  | list e | set e =>
    rw [lowerYield] at h
    obtain ⟨c, hc, h⟩ := bind_eq_ok h
    cases h
    exact readAlike_one hc
  | map k v =>
    rw [lowerYield] at h
    obtain ⟨ck, cv, hk, hv, rfl⟩ := bind₂_eq_ok h
    exact .cons hk (readAlike_one hv)

theorem readAlike_lowerOptional {o : Option Expr} {co : Option Code}
    (h : sc.lowerOptional vars o = .ok co) :
    ReadAlike sc vars co.toList (o.toList.map (Prod.mk [])) := by
  cases o with
  | none =>
    rw [lowerOptional] at h
    cases h
    exact readAlike_nil
  | some e =>
    rw [lowerOptional] at h
    obtain ⟨c, hc, h⟩ := bind_eq_ok h
    cases h
    exact readAlike_one hc

end

/-- Code reads attributes where the parts of the expression do, except for the code of a name
alone. -/
theorem readAlike_lower {e : Expr} {code : Code} (h : sc.lower vars e = .ok code) :
    ReadAlike sc vars code.parts e.places := by
  cases e with
  | literal | params =>
    rw [lower] at h
    cases h
    exact readAlike_nil
  | ident _ name =>
    rw [lower] at h
    cases hv : vars.idxOf? name <;> rw [hv] at h <;> cases h <;> exact readAlike_nil
  | path _ p =>
    rw [lower] at h
    obtain ⟨target, -, h⟩ := bind_eq_ok h
    cases target <;> cases h <;> exact readAlike_nil
  | unary _ _ a | attr _ a _ =>
    rw [lower] at h
    obtain ⟨c, hc, h⟩ := bind_eq_ok h
    cases h
    exact readAlike_one hc
  | binary _ _ a b =>
    rw [lower] at h
    obtain ⟨ca, cb, ha, hb, rfl⟩ := bind₂_eq_ok h
    exact .cons ha (readAlike_one hb)
  | cond _ a b c =>
    rw [lower] at h
    obtain ⟨ca, cb, cc, ha, hb, hc, rfl⟩ := bind₃_eq_ok h
    exact .cons ha (.cons hb (readAlike_one hc))
  | index _ a args =>
    rw [lower] at h
    obtain ⟨ca, cs, ha, hcs, rfl⟩ := bind₂_eq_ok h
    exact .cons ha (readAlike_lowerAll hcs)
  | method _ a name args =>
    obtain ⟨r, cs, hr, hcs, hcode⟩ := lower_method h
    have all := ReadAlike.cons hr (readAlike_lowerAll hcs)
    rcases hcode with rfl | ⟨hostClass, rfl, rfl⟩
    · exact all
    · -- the class is not among the parts of a function call
      exact (readAlike_leaf_cons rfl (by simp)).mp all
  | call _ a args =>
    rw [lower] at h
    obtain ⟨ca, cs, ha, hcs, rfl⟩ := bind₂_eq_ok h
    exact .cons ha (readAlike_lowerNamed hcs)
  | raise _ items | list _ items | set _ items =>
    rw [lower] at h
    obtain ⟨cs, hcs, h⟩ := bind_eq_ok h
    cases h
    exact readAlike_lowerAll hcs
  | map _ entries =>
    rw [lower] at h
    obtain ⟨cs, hcs, h⟩ := bind_eq_ok h
    cases h
    exact readAlike_lowerEntries hcs
  | comprehension _ yield binding source filter =>
    rw [lower] at h
    obtain ⟨cs, cy, cf, hs, hy, hf, rfl⟩ := bind₃_eq_ok h
    refine .cons hs (.under ?_)
    rw [List.map_append]
    exact (readAlike_lowerYield hy).append (readAlike_lowerOptional hf)

/-- The code of an expression is an attribute if the expression is a name alone that is no
variable. -/
theorem lower_eq_attr_iff {e : Expr} {code : Code} (h : sc.lower vars e = .ok code) (x : String) :
    code = .attr x ↔ ∃ span, e = .ident span x ∧ x ∉ vars := by
  cases e with
  | ident span name =>
    rw [lower] at h
    cases hv : vars.idxOf? name with
    | none =>
      rw [hv] at h
      cases h
      rw [List.idxOf?_eq_none_iff] at hv
      simp only [Code.attr.injEq, Expr.ident.injEq]
      constructor
      · rintro rfl
        exact ⟨span, ⟨rfl, rfl⟩, hv⟩
      · rintro ⟨_, ⟨-, rfl⟩, -⟩
        rfl
    | some i =>
      have bound : name ∈ vars := by
        by_contra free
        rw [List.idxOf?_eq_none_iff.mpr free] at hv
        cases hv
      rw [hv] at h
      cases h
      simp only [reduceCtorEq, Expr.ident.injEq, false_iff]
      rintro ⟨_, ⟨-, rfl⟩, free⟩
      exact free bound
  | method _ a name args =>
    obtain ⟨r, cs, -, -, hcode⟩ := lower_method h
    rcases hcode with rfl | ⟨hostClass, -, rfl⟩ <;> simp
  | path _ p =>
    rw [lower] at h
    obtain ⟨target, -, h⟩ := bind_eq_ok h
    cases target <;> cases h <;> simp
  | literal | params =>
    rw [lower] at h
    cases h
    simp
  | unary | attr | raise | list | set | map =>
    rw [lower] at h
    obtain ⟨_, -, h⟩ := bind_eq_ok h
    cases h
    simp
  | binary | index | call =>
    rw [lower] at h
    obtain ⟨_, _, -, -, rfl⟩ := bind₂_eq_ok h
    simp
  | cond | comprehension =>
    rw [lower] at h
    obtain ⟨_, _, _, -, -, -, rfl⟩ := bind₃_eq_ok h
    simp

theorem attr_within_iff {e : Expr} {code : Code} (h : sc.lower vars e = .ok code) (x : String) :
    (Code.attr x).Within code ↔ (∃ span, e = .ident span x ∧ x ∉ vars) ∨
      ∃ a ∈ e.places, ∃ c, sc.lower (a.1 ++ vars) a.2 = .ok c ∧ (Code.attr x).Within c := by
  rw [← lower_eq_attr_iff h, ← readAlike_lower h x]
  constructor
  · intro within
    cases within with
    | here => exact .inl rfl
    | part hd rest => exact .inr ⟨_, hd, rest⟩
  · rintro (rfl | ⟨d, hd, rest⟩)
    · exact .here
    · exact .part hd rest

/-- The code of a checked expression reads the attributes that the expression mentions, but for the
variables around it. -/
theorem attr_within_iff_mem_mentions {e : Expr} {ds : List String} {code : Code}
    (hm : sc.mentions vars e = .ok ds) (hl : sc.lower vars e = .ok code) (x : String) :
    (Code.attr x).Within code ↔ x ∈ ds ∧ x ∉ vars := by
  induction e using Expr.places_induction generalizing vars ds code with
  | step e ih =>
    rw [attr_within_iff hl, mem_mentions_iff hm, or_and_right]
    refine or_congr exists_and_right ?_
    -- a variable that is bound around a part is no attribute there, and is not mentioned outside
    constructor
    · rintro ⟨a, ha, c, hc, within⟩
      obtain ⟨found, hf⟩ := ((mentions_succeeds_iff_places e).mp ⟨ds, hm⟩).2 a ha
      obtain ⟨mem, free⟩ := (ih a ha hf hc).mp within
      rw [List.mem_append, not_or] at free
      exact ⟨⟨a, ha, free.1, found, hf, mem⟩, free.2⟩
    · rintro ⟨⟨a, ha, free, found, hf, mem⟩, outer⟩
      obtain ⟨c, hc⟩ := lower_of_mentions _ _ found hf
      refine ⟨a, ha, c, hc, (ih a ha hf hc).mpr ⟨mem, ?_⟩⟩
      rw [List.mem_append, not_or]
      exact ⟨free, outer⟩

/-! ### Definitions -/

/-- Code depends on what paths mean, and on nothing else in the scope. -/
theorem lower_congr {sc' : Scope} (same : sc'.resolveTarget = sc.resolveTarget) (e : Expr) :
    sc'.lower vars e = sc.lower vars e := by
  have renumber_id : ∀ target : Target, target.renumber id = target := by
    intro target
    cases target with
    | node target => cases target <;> rfl
    | hostClass signature => rfl
  have alike : NamesAlike id sc sc := by
    intro p
    cases sc.resolveTarget p with
    | error problem => rfl
    | ok target => exact congrArg Except.ok (renumber_id target).symm
  have alike' : NamesAlike id sc sc' := by
    intro p
    rw [same]
    exact alike p
  rw [lower_renumber alike', ← lower_renumber alike]

/-- To know one more member of the open node changes no code. -/
theorem lower_withName {name : String} {deps : List String} {d : Draft}
    (h : sc.withName name deps = .ok d) (members : List Member) (e : Expr) :
    ({ sc with current := some { d with members := members } } : Scope).lower vars e =
      sc.lower vars e := by
  obtain ⟨d, opened, -, -, rfl⟩ := withName_eq_ok h
  apply lower_congr
  funext p
  simp [resolveTarget, resolveNode, ownNode?, class?, drafts, opened, List.findIdx?_append]

theorem nodup_references {body : Option Expr} {deps : List String}
    (h : sc.references body = .ok deps) : deps.Nodup := by
  obtain ⟨names, -, rfl⟩ := map_eq_ok h
  rw [Indexed.ofElements_eq]
  exact Ordered.nodup_union .nil

/-- A definition passes the check if the scope makes sense of every place in its expression: a name
is bound around it or known on the open node, a path is known, and a method on a path is a function
of a class that takes the arguments. What then is recorded for it are the attributes that its code
reads, each once, and recording them leaves the code as it is. -/
theorem references_exact (sc : Scope) (e : Expr) :
    ((∃ deps, sc.references (some e) = .ok deps) ↔
      ∀ d inner, Expr.Occurs d inner [] e → sc.Admits inner d) ∧
    ∀ deps, sc.references (some e) = .ok deps →
      deps.Nodup ∧ ∃ code, sc.lower [] e = .ok code ∧
        (∀ x, x ∈ deps ↔ (Code.attr x).Within code) ∧
        ∀ name d members, sc.withName name deps = .ok d →
          ({ sc with current := some { d with members := members } } : Scope).lower [] e =
            .ok code := by
  constructor
  · rw [← mentions_succeeds_iff, references, mentionsOptional]
    cases sc.mentions [] e <;> simp [Except.map]
  · intro deps h
    obtain ⟨names, found, same⟩ := sc.mem_references_iff h
    rw [mentionsOptional] at found
    obtain ⟨code, hc⟩ := lower_of_mentions [] e names found
    refine ⟨nodup_references h, code, hc, fun x ↦ ?_, fun name d members hd ↦ ?_⟩
    · rw [same, attr_within_iff_mem_mentions found hc]
      simp
    · rw [lower_withName hd, hc]

end Scope

end Formulary
