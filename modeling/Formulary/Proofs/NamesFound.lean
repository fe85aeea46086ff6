import Formulary.Host.Samples
import Formulary.Proofs.Accepted
import Formulary.Proofs.Graphs
import Formulary.Proofs.Watching
import Formulary.Registry

/-!
# Names that are checked are found

The check looks at names in the scope that a definition is written in, and code runs on whichever
node inherits it. Still no name is missing there (`Program.names_found`): a node has all names that
its members refer to, overridden or not, the variables of comprehensions are bound, and a host that
has the classes which a program was compiled with refuses no call that is written on one of them.
-/

namespace Formulary

variable {σ : Type}

theorem Code.Scoped.imp {p q : Nat → Code → Prop} {n : Nat} {code : Code} (h : code.Scoped p n)
    (hq : ∀ n c, p n c → q n c) : code.Scoped q n := by
  induction h with
  | mk self parts ih => exact .mk (hq _ _ self) ih

namespace Program

/-- A host has the classes that the scripts of a program know, with the same functions. -/
def HasClasses (p : Program) (host : Host σ) : Prop :=
  ∀ t ∈ p.texts, ∀ n ∈ t.nodes, ∀ d ∈ n.definitions, ∀ name c, d.scope.class? name = some c →
    (host.class? name).map HostClass.signature = some c

variable {p : Program} {node : NodeRef} {attr : String} {slot : Slot}

/-- A node has the names that its members refer to. -/
theorem isSome_slot?_of_mem_deps (found : p.library.slot? node attr = some slot) {name : String}
    (h : name ∈ slot.member.deps) : (p.library.slot? node name).isSome := by
  obtain ⟨n, hn, there⟩ := Option.bind_eq_some_iff.mp found
  have refers : n.dependencies.Refers attr name := by
    refine ⟨slot.member.deps, ?_, h⟩
    rw [n.getElem?_dependencies, there, Option.map_some]
  have known := closed_of_compiles p.compiled node n hn attr name refers
  rw [Std.HashMap.mem_iff_isSome_getElem?, n.getElem?_dependencies, Option.isSome_map] at known
  rw [Library.slot?, hn, Option.bind_some]
  exact known

/-- The code of members finds what it names. -/
theorem found_code {host : Host σ} {whitelist : Whitelist} (has : p.HasClasses host)
    (found : p.library.slot? node attr = some slot) {code : Code}
    (hc : slot.member.body.code? = some code) :
    code.Scoped (Code.Found (p.setting host whitelist) node) 0 := by
  obtain ⟨l, defined, named⟩ := p.scoped_code found hc
  obtain ⟨t, ht, n, hn, hd⟩ := exists_mem_of_definition? defined
  refine named.imp fun k c hk ↦ ?_
  cases c with
  | attr name => exact isSome_slot?_of_mem_deps found hk
  | var i => exact hk
  | function owner name args =>
    obtain ⟨c, arity, hc, ha, accepts⟩ := hk
    intro values length
    obtain ⟨hostClass, lent, rfl⟩ := Option.map_eq_some_iff.mp (has t ht n hn _ hd owner c hc)
    exact ⟨hostClass, arity, lent, ha, length ▸ accepts⟩
  | _ => trivial

/-- No name that has passed the check is missing when it is used.

Let a host have the classes that a program was compiled with. Whatever the engine of a module is
asked and in whichever world, no attribute that is named alone is missing on the node being
computed, no comprehension variable is out of scope, and no function that is called on the name of a
class is refused there: a watched evaluation notes no such slip, while it has the same result and
leaves the same world. So the evaluator never is to blame for a fault. -/
theorem names_found (p : Program) (module : Fin p.library.modules.size) (host : Host σ)
    (whitelist : Whitelist) (depth : Nat) (has : p.HasClasses host) (request : Request)
    (w : World σ) :
    let e := p.engine module host whitelist depth
    (∃ notes, (∀ slip, .slip slip ∉ notes) ∧
      (request.watch e).run.run { world := w } =
        (((request.answer e).run.run w).1, ⟨((request.answer e).run.run w).2, [], notes⟩)) ∧
    ∀ message frames, ((request.answer e).run.run w).1 ≠
      .error (.fault ⟨.internal message, frames⟩) := by
  intro e
  have found : True → ∀ node attr slot code, e.setting.library.slot? node attr = some slot →
      slot.member.body.code? = some code → code.Scoped (Code.Found e.setting node) 0 :=
    fun _ node attr slot code found hc ↦ found_code has found hc
  obtain ⟨sane, notes, ran, account⟩ := (watches_answer rfl found request).whole w
  refine ⟨⟨notes, account.names trivial, ran⟩, fun message frames failed ↦ ?_⟩
  cases sane trivial _ failed

end Program

/-! ### A program with an override

The node `A` has a parameter `n =? 2` and `x = n`. The node `B` inherits from it, and has
`x = [[Counter.add(i, n) for i in [1, j]] for j in [1, 2]]`. -/

namespace Tally

/-- A literal integer. -/
def int (n : Int64) : Expr := .literal default (.int n)

/-- What `x` is on `B`. -/
def sums : Expr :=
  .comprehension default
    (.list (.comprehension default
      (.list (.method default (.path default ⟨none, "Counter"⟩) "add"
        [.ident default "i", .ident default "n"]))
      (.single "i") (.list default [int 1, .ident default "j"]) none))
    (.single "j") (.list default [int 1, int 2]) none

def memberN : Member := ⟨"n", 2, .param (some (.const (.int 2))), []⟩

def memberX : Member := ⟨"x", 3, .formula (.attr "n"), ["n"]⟩

def memberSums : Member where
  name := "x"
  line := 5
  body := .formula (.comprehension
    (.list (.comprehension (.list (.function "Counter" "add" [.var 0, .attr "n"])) false
      (.list [.const (.int 1), .var 0]) none))
    false (.list [.const (.int 1), .const (.int 2)]) none)
  deps := ["n"]

/-- The classes that the script knows. -/
def classes : List ClassSignature := [Samples.counter.signature]

/-- The names on `A`, which are those on `B`. -/
def names : Dependencies := .of [memberN, memberX]

/-- The scope in which `B` is open and has these members. -/
def inB (visible : Dependencies) (members : List Member) : Scope where
  classes := classes
  closed := [⟨"A", none, names, [memberN, memberX]⟩]
  current := some ⟨"B", some (.own 0 "A"), visible, members⟩

theorem member_x : Definition.member
      ⟨.having classes "A" [memberN], 3, "x", .formula (.ident default "n")⟩ = .ok memberX :=
  Definition.member_ident (by simp [Scope.sees, Scope.having, Dependencies.of, memberN]) _ _

theorem member_sums : Definition.member ⟨inB names [], 5, "x", .formula sums⟩ = .ok memberSums := by
  have sees : (inB names []).sees "n" = true := by
    simp [Scope.sees, inB, names, Dependencies.of, memberN, memberX]
  have checked : (inB names []).references (some sums) = .ok ["n"] := by
    simp only [Scope.references, Scope.mentionsOptional, sums, Scope.mentions,
      Scope.mentionsYield, Scope.mentionsAll, sees]
    rfl
  simp only [Definition.member, checked]
  rfl

def script : Accepted "M" classes (inB (names.insert "x" ["n"]) [memberSums]) :=
  let first : Accepted "M" classes (.having classes "A" [memberN, memberX]) :=
    ((Accepted.node "M" classes "A" default).define ⟨2, default, .param "n" (some (int 2))⟩ memberN
      rfl rfl rfl rfl).define ⟨3, default, .formula "x" (.ident default "n")⟩ memberX rfl member_x
      rfl rfl
  let second : Accepted "M" classes (inB names []) :=
    first.next ⟨4, default, .node "B" (some ⟨none, "A"⟩)⟩ fun _ _ ↦ rfl
  second.next ⟨5, default, .formula "x" sums⟩ fun load r ↦
    Scope.run_declareIn_of_member _ ⟨"B", some (.own 0 "A"), names, []⟩ memberSums rfl rfl
      member_sums rfl (Dependencies.isCyclic_eq_false fun z ↦ by
        simp [names, Dependencies.of, memberN, memberX, memberSums]) "M" load r

/-- The script as a program. -/
def program : Program := script.program rfl

/-- A host that lends nothing but a counter. -/
def host : Host Samples.State :=
  ⟨[Samples.counter], fun _ method _ ↦ throw s!"no object has {method}"⟩

/-- Every definition is one of the three. -/
theorem definition_cases {t : WrittenModule} (ht : t ∈ program.texts) {n : WrittenNode}
    (hn : n ∈ t.nodes) {d : Definition} (hd : d ∈ n.definitions) :
    d.scope.classes = classes ∧
      (d.member = .ok memberN ∨ d.member = .ok memberX ∨ d.member = .ok memberSums) := by
  rw [List.mem_singleton.mp ht] at hn
  rcases List.mem_cons.mp hn with rfl | hn
  · rcases List.mem_cons.mp hd with rfl | hd
    · exact ⟨rfl, .inl rfl⟩
    · rw [List.mem_singleton.mp hd]
      exact ⟨rfl, .inr (.inl member_x)⟩
  · rw [List.mem_singleton.mp hn] at hd
    rw [List.mem_singleton.mp hd]
    exact ⟨rfl, .inr (.inr member_sums)⟩

/-- The host has the class that the script knows. -/
theorem hasClasses : program.HasClasses host := by
  intro t ht n hn d hd name c known
  rw [Scope.class?, (definition_cases ht hn hd).1] at known
  have same : c = Samples.counter.signature :=
    List.mem_singleton.mp (List.mem_of_find?_eq_some known)
  have called : c.name = name := by simpa using List.find?_some known
  rw [← called, same]
  rfl

/-- Nothing is missing when `x` is evaluated on `B`: not the inherited parameter, nor a variable of
either comprehension, nor the function. -/
theorem names_found_sums :
    let e := program.engine ⟨0, by decide⟩ host {} 10
    program.HasClasses host ∧
    (∃ notes, (∀ slip, .slip slip ∉ notes) ∧
      ((Request.evaluate "B" "x" []).watch e).run.run { world := { host := {} } } =
        (((e.evaluate "B" "x" []).run.run { host := {} }).1,
          ⟨((e.evaluate "B" "x" []).run.run { host := {} }).2, [], notes⟩)) ∧
    ∀ message frames, ((e.evaluate "B" "x" []).run.run { host := {} }).1 ≠
      .error (.fault ⟨.internal message, frames⟩) :=
  ⟨hasClasses, program.names_found ⟨0, by decide⟩ host {} 10 hasClasses
    (.evaluate "B" "x" []) { host := {} }⟩

end Tally

end Formulary
