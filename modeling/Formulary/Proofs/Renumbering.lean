import Formulary.Proofs.EvalLaws
import Formulary.Proofs.Keyed
import Formulary.Scope.Declare

/-!
# Renumbering modules

A module's number is an accident of the order in which modules were compiled. Here everything that
mentions numbers is renumbered: values, code and members. A scope in which all names mean the same
up to a renumbering compiles expressions to the same code up to it (`Scope.lower_renumber`).
-/

namespace Formulary

/-- The same node of a module with another number. -/
def NodeRef.renumber (f : Nat → Nat) (ref : NodeRef) : NodeRef :=
  { ref with module := f ref.module }

/-! ### Values -/

namespace Value

mutual

/-- The same value, with other numbers for modules. -/
def renumber (f : Nat → Nat) : Value → Value
  | nil => nil
  | bool b => bool b
  | int n => int n
  | float x => float x
  | str s => str s
  | symbol s => symbol s
  | list items => list (renumberAll f items)
  | set items => set (renumberAll f items)
  | map entries => map (renumberEntries f entries)
  | record type fields => record type (renumberFields f fields)
  | call env ref params => call env (ref.renumber f) (renumberEntries f params)
  | node ref => node (ref.renumber f)
  | hostClass name => hostClass name
  | foreign handle types => foreign handle types

/-- Renumbers several values. -/
def renumberAll (f : Nat → Nat) : List Value → List Value
  | [] => []
  | v :: vs => renumber f v :: renumberAll f vs

/-- Renumbers the keys and the values of entries. -/
def renumberEntries (f : Nat → Nat) : List (Value × Value) → List (Value × Value)
  | [] => []
  | (k, v) :: es => (renumber f k, renumber f v) :: renumberEntries f es

/-- Renumbers the values of fields. -/
def renumberFields (f : Nat → Nat) : List (String × Value) → List (String × Value)
  | [] => []
  | (name, v) :: fs => (name, renumber f v) :: renumberFields f fs

end

/-- Renumbers a key and its value. -/
def renumberEntry (f : Nat → Nat) : Value × Value → Value × Value :=
  Prod.map (renumber f) (renumber f)

variable (f : Nat → Nat)

theorem renumberAll_eq_map (vs : List Value) : renumberAll f vs = vs.map (renumber f) := by
  induction vs with
  | nil => rfl
  | cons v vs ih => rw [renumberAll, ih, List.map_cons]

theorem renumberEntries_eq_map (es : List (Value × Value)) :
    renumberEntries f es = es.map (renumberEntry f) := by
  induction es with
  | nil => rfl
  | cons e es ih =>
    rw [renumberEntries, ih]
    rfl

theorem renumberFields_eq_map (fs : List (String × Value)) :
    renumberFields f fs = fs.map (Prod.map id (renumber f)) := by
  induction fs with
  | nil => rfl
  | cons e fs ih =>
    rw [renumberFields, ih]
    rfl

@[simp] theorem renumber_nil : nil.renumber f = nil := rfl

@[simp] theorem renumber_bool (b : Bool) : (bool b).renumber f = bool b := rfl

@[simp] theorem renumber_int (n : Int64) : (int n).renumber f = int n := rfl

@[simp] theorem renumber_float (x : Binary64) : (float x).renumber f = float x := rfl

@[simp] theorem renumber_str (s : String) : (str s).renumber f = str s := rfl

@[simp] theorem renumber_symbol (s : String) : (symbol s).renumber f = symbol s := rfl

@[simp] theorem renumber_list (items : List Value) :
    (list items).renumber f = list (items.map (renumber f)) := by
  rw [renumber, renumberAll_eq_map]

@[simp] theorem renumber_set (items : List Value) :
    (set items).renumber f = set (items.map (renumber f)) := by
  rw [renumber, renumberAll_eq_map]

@[simp] theorem renumber_map (entries : List (Value × Value)) :
    (map entries).renumber f = map (entries.map (renumberEntry f)) := by
  rw [renumber, renumberEntries_eq_map]

@[simp] theorem renumber_record (type : String) (fields : List (String × Value)) :
    (record type fields).renumber f = record type (fields.map (Prod.map id (renumber f))) := by
  rw [renumber, renumberFields_eq_map]

@[simp] theorem renumber_call (env : Nat) (ref : NodeRef) (params : List (Value × Value)) :
    (call env ref params).renumber f =
      call env (ref.renumber f) (params.map (renumberEntry f)) := by
  rw [renumber, renumberEntries_eq_map]

@[simp] theorem renumber_node (ref : NodeRef) : (node ref).renumber f = node (ref.renumber f) := rfl

@[simp] theorem renumber_hostClass (name : String) :
    (hostClass name).renumber f = hostClass name := rfl

@[simp] theorem renumber_foreign (handle : Nat) (types : List String) :
    (foreign handle types).renumber f = foreign handle types := rfl

end Value

@[simp] theorem Literal.renumber_value (f : Nat → Nat) (l : Literal) :
    l.value.renumber f = l.value := by
  cases l <;> rfl

/-! ### Code -/

/-- The same node, if it is one of a module with another number. -/
def NodeTarget.renumber (f : Nat → Nat) : NodeTarget → NodeTarget
  | own index name => own index name
  | imported ref => imported (ref.renumber f)

/-- Renumbers what a name means. -/
def Target.renumber (f : Nat → Nat) : Target → Target
  | node target => node (target.renumber f)
  | hostClass signature => hostClass signature

namespace Code

mutual

/-- The same code, with other numbers for modules. -/
def renumber (f : Nat → Nat) : Code → Code
  | const v => const (v.renumber f)
  | attr name => attr name
  | var i => var i
  | params => params
  | node target => node (target.renumber f)
  | hostClass name => hostClass name
  | unary op a => unary op (renumber f a)
  | binary op a b => binary op (renumber f a) (renumber f b)
  | cond a b c => cond (renumber f a) (renumber f b) (renumber f c)
  | getAttr a name => getAttr (renumber f a) name
  | index a args => index (renumber f a) (renumberAll f args)
  | method a name args => method (renumber f a) name (renumberAll f args)
  | function type name args => function type name (renumberAll f args)
  | call a args => call (renumber f a) (renumberEntries f args)
  | raise args => raise (renumberAll f args)
  | list items => list (renumberAll f items)
  | set items => set (renumberAll f items)
  | map entries => map (renumberEntries f entries)
  | comprehension yield pair source filter =>
    comprehension (renumberYield f yield) pair (renumber f source) (renumberOptional f filter)

/-- Renumbers several pieces of code. -/
def renumberAll (f : Nat → Nat) : List Code → List Code
  | [] => []
  | c :: cs => renumber f c :: renumberAll f cs

/-- Renumbers the code of entries. -/
def renumberEntries (f : Nat → Nat) : List (Entry Code Code) → List (Entry Code Code)
  | [] => []
  | .pair k v :: es => .pair (renumber f k) (renumber f v) :: renumberEntries f es
  | .spread c :: es => .spread (renumber f c) :: renumberEntries f es

/-- Renumbers the body of a comprehension. -/
def renumberYield (f : Nat → Nat) : Yield Code → Yield Code
  | .list c => .list (renumber f c)
  | .set c => .set (renumber f c)
  | .map k v => .map (renumber f k) (renumber f v)

/-- Renumbers code if there is any. -/
def renumberOptional (f : Nat → Nat) : Option Code → Option Code
  | none => none
  | some c => some (renumber f c)

end

end Code

/-! ### Members -/

/-- Renumbers what a member computes. -/
def Body.renumber (f : Nat → Nat) : Body → Body
  | formula code => formula (code.renumber f)
  | param default => param (Code.renumberOptional f default)

/-- Renumbers a definition. -/
def Member.renumber (f : Nat → Nat) (m : Member) : Member := { m with body := m.body.renumber f }

/-- Renumbers a member of a node type, with the module that it was written in. -/
def Slot.renumber (f : Nat → Nat) (s : Slot) : Slot :=
  { s with home := f s.home, member := s.member.renumber f }

theorem Body.isParam_renumber (f : Nat → Nat) (b : Body) : (b.renumber f).isParam = b.isParam := by
  cases b <;> rfl

/-! ### Compiled expressions -/

namespace Scope

variable {f : Nat → Nat} {sc sc' : Scope}

/-- All names mean the same up to a renumbering, or are refused for the same reason. -/
def NamesAlike (f : Nat → Nat) (sc sc' : Scope) : Prop :=
  ∀ p, sc'.resolveTarget p = (sc.resolveTarget p).map (Target.renumber f)

/-- Code of a path is code of what the path means. -/
theorem lower_path_renumber (h : NamesAlike f sc sc') (vars : List String) (span : Span)
    (p : NodePath) :
    sc'.lower vars (.path span p) = (sc.lower vars (.path span p)).map (Code.renumber f) := by
  rw [lower, lower, h]
  cases sc.resolveTarget p with
  | error problem => rfl
  | ok target => cases target <;> rfl

mutual

/-- Where names mean the same up to a renumbering, so does code. -/
theorem lower_renumber (h : NamesAlike f sc sc') (vars : List String) : ∀ e : Expr,
    sc'.lower vars e = (sc.lower vars e).map (Code.renumber f)
  | .literal _ l => by
    rw [lower, lower]
    exact congrArg (fun v ↦ Except.ok (Code.const v)) (l.renumber_value f).symm
  | .ident _ name => by
    rw [lower, lower]
    cases vars.idxOf? name <;> rfl
  | .params _ => by
    rw [lower, lower]
    rfl
  | .path span p => lower_path_renumber h vars span p
  | .unary _ _ a | .attr _ a _ => by
    rw [lower, lower, lower_renumber h vars a]
    cases sc.lower vars a <;> rfl
  | .binary _ _ a b => by
    rw [lower, lower, lower_renumber h vars a, lower_renumber h vars b]
    cases sc.lower vars a <;> cases sc.lower vars b <;> rfl
  | .cond _ a b c => by
    rw [lower, lower, lower_renumber h vars a, lower_renumber h vars b,
      lower_renumber h vars c]
    cases sc.lower vars a <;> cases sc.lower vars b <;> cases sc.lower vars c <;> rfl
  | .index _ a args => by
    rw [lower, lower, lower_renumber h vars a, lowerAll_renumber h vars args]
    cases sc.lower vars a <;> cases sc.lowerAll vars args <;> rfl
  | .method _ receiver name args => by
    by_cases hp : ∃ place p, receiver = .path place p
    · obtain ⟨place, p, rfl⟩ := hp
      rw [lower, lower, h, lowerAll_renumber h vars args]
      cases sc.resolveTarget p with
      | error problem => rfl
      | ok target => cases target <;> cases sc.lowerAll vars args <;> rfl
    · have other : ∀ place p, receiver = .path place p → False :=
        fun place p he ↦ hp ⟨place, p, he⟩
      rw [lower, lower, lower_renumber h vars receiver, lowerAll_renumber h vars args]
      · cases sc.lower vars receiver <;> cases sc.lowerAll vars args <;> rfl
      · exact other
      · exact other
  | .call _ a args => by
    rw [lower, lower, lower_renumber h vars a, lowerNamed_renumber h vars args]
    cases sc.lower vars a <;> cases sc.lowerNamed vars args <;> rfl
  | .raise _ items | .list _ items | .set _ items => by
    rw [lower, lower, lowerAll_renumber h vars items]
    cases sc.lowerAll vars items <;> rfl
  | .map _ entries => by
    rw [lower, lower, lowerEntries_renumber h vars entries]
    cases sc.lowerEntries vars entries <;> rfl
  | .comprehension _ yield binding source filter => by
    rw [lower, lower, lower_renumber h vars source]
    dsimp only
    rw [lowerYield_renumber h _ yield, lowerOptional_renumber h _ filter]
    cases sc.lower vars source <;> cases sc.lowerYield (binding.names.reverse ++ vars) yield <;>
      cases sc.lowerOptional (binding.names.reverse ++ vars) filter <;> rfl

theorem lowerAll_renumber (h : NamesAlike f sc sc') (vars : List String) : ∀ es : List Expr,
    sc'.lowerAll vars es = (sc.lowerAll vars es).map (Code.renumberAll f)
  | [] => by
    rw [lowerAll, lowerAll]
    rfl
  | e :: es => by
    rw [lowerAll, lowerAll, lower_renumber h vars e, lowerAll_renumber h vars es]
    cases sc.lower vars e <;> cases sc.lowerAll vars es <;> rfl

theorem lowerNamed_renumber (h : NamesAlike f sc sc') (vars : List String) :
    ∀ es : List (Entry String Expr),
    sc'.lowerNamed vars es = (sc.lowerNamed vars es).map (Code.renumberEntries f)
  | [] => by
    rw [lowerNamed, lowerNamed]
    rfl
  | .pair _ e :: es | .spread e :: es => by
    rw [lowerNamed, lowerNamed, lower_renumber h vars e, lowerNamed_renumber h vars es]
    cases sc.lower vars e <;> cases sc.lowerNamed vars es <;> rfl

theorem lowerEntries_renumber (h : NamesAlike f sc sc') (vars : List String) :
    ∀ es : List (Entry Expr Expr),
    sc'.lowerEntries vars es = (sc.lowerEntries vars es).map (Code.renumberEntries f)
  | [] => by
    rw [lowerEntries, lowerEntries]
    rfl
  | .pair k v :: es => by
    rw [lowerEntries, lowerEntries, lower_renumber h vars k, lower_renumber h vars v,
      lowerEntries_renumber h vars es]
    cases sc.lower vars k <;> cases sc.lower vars v <;> cases sc.lowerEntries vars es <;> rfl
  | .spread e :: es => by
    rw [lowerEntries, lowerEntries, lower_renumber h vars e,
      lowerEntries_renumber h vars es]
    cases sc.lower vars e <;> cases sc.lowerEntries vars es <;> rfl

theorem lowerYield_renumber (h : NamesAlike f sc sc') (vars : List String) : ∀ yield : Yield Expr,
    sc'.lowerYield vars yield = (sc.lowerYield vars yield).map (Code.renumberYield f)
  | .list a | .set a => by
    rw [lowerYield, lowerYield, lower_renumber h vars a]
    cases sc.lower vars a <;> rfl
  | .map k v => by
    rw [lowerYield, lowerYield, lower_renumber h vars k, lower_renumber h vars v]
    cases sc.lower vars k <;> cases sc.lower vars v <;> rfl

theorem lowerOptional_renumber (h : NamesAlike f sc sc') (vars : List String) : ∀ e : Option Expr,
    sc'.lowerOptional vars e = (sc.lowerOptional vars e).map (Code.renumberOptional f)
  | none => by
    rw [lowerOptional, lowerOptional]
    rfl
  | some e => by
    rw [lowerOptional, lowerOptional, lower_renumber h vars e]
    cases sc.lower vars e <;> rfl

end

end Scope

end Formulary
