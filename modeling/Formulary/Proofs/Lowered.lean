import Formulary.Proofs.Checked
import Formulary.Proofs.Congruence
import Formulary.Proofs.Inheritance

/-!
# Names in code

Code that comes from a checked expression uses names as it may (`Scope.scoped_of_lower`): variables
are bound around it, attributes are among the names that the check has found, and functions are
called as their classes declare them. Its constants are literals. This goes for the code of all
members of a program (`Program.scoped_code`).
-/

namespace Formulary

namespace Code

/-- Every code that stands in a code, itself included, is of a kind that may depend on the number of
variables bound around it; `n` of them are bound around the whole. -/
inductive Scoped (p : Nat → Code → Prop) : Nat → Code → Prop where
  | mk {n : Nat} {code : Code} (self : p n code)
      (parts : ∀ k c, (k, c) ∈ code.boundParts → Scoped p (n + k) c) : Scoped p n code

variable {p : Nat → Code → Prop} {n k : Nat} {code c : Code}

theorem Scoped.self (h : code.Scoped p n) : p n code := by
  cases h with
  | mk self parts => exact self

theorem Scoped.part (h : code.Scoped p n) (hc : (k, c) ∈ code.boundParts) : c.Scoped p (n + k) := by
  cases h with
  | mk self parts => exact parts k c hc

theorem exists_mem_boundParts (hc : c ∈ code.parts) : ∃ k, (k, c) ∈ code.boundParts := by
  cases code with
  | comprehension yield pair source filter =>
    rcases List.mem_cons.mp hc with rfl | inner
    · exact ⟨0, List.mem_cons_self⟩
    · exact ⟨_, List.mem_cons_of_mem _ (List.mem_map_of_mem inner)⟩
  | _ => exact ⟨0, List.mem_map_of_mem hc⟩

/-- A kind that does not depend on variables. -/
theorem Scoped.every {q : Code → Prop} (h : code.Scoped p n) (hq : ∀ n c, p n c → q c) :
    code.Every q := by
  intro c within
  induction within generalizing n with
  | here => exact hq n _ h.self
  | part hd rest ih =>
    obtain ⟨k, hk⟩ := exists_mem_boundParts hd
    exact ih (h.part hk)

/-- A code that binds no variables is as its parts are. -/
theorem scoped_of_parts (self : p n code) (same : code.boundParts = code.parts.map (Prod.mk 0))
    (parts : ∀ c ∈ code.parts, c.Scoped p n) : code.Scoped p n := by
  refine .mk self fun k c hc ↦ ?_
  rw [same] at hc
  obtain ⟨d, hd, same⟩ := List.mem_map.mp hc
  obtain ⟨rfl, rfl⟩ := Prod.mk.inj same
  exact parts d hd

/-- The number of variables bound in a comprehension. -/
theorem scoped_comprehension {yield : Yield Code} {pair : Bool} {source : Code}
    {filter : Option Code} (self : p n (.comprehension yield pair source filter))
    (outer : source.Scoped p n)
    (inner : ∀ c ∈ yield.codes ++ filter.toList, c.Scoped p (n + if pair then 2 else 1)) :
    (Code.comprehension yield pair source filter).Scoped p n := by
  refine .mk self fun k c hc ↦ ?_
  rcases List.mem_cons.mp hc with here | there
  · cases here
    exact outer
  · obtain ⟨d, hd, same⟩ := List.mem_map.mp there
    obtain ⟨rfl, rfl⟩ := Prod.mk.inj same
    exact inner d hd

end Code

/-- A node that can be named in a scope: one of the nodes so far, or one of an imported module. -/
def Scope.Reaches (sc : Scope) : NodeTarget → Prop
  | .own index _ => index < sc.drafts.length
  | .imported ref => ∃ e ∈ sc.imports, ref.module = e.2.id ∧ ∃ n, e.2.nodes[ref.index]? = some n

namespace Code

/-- A code uses names as it may where `n` variables are bound: those of attributes that are
`known`, functions that the scope has, and nodes that can be named there. A constant is a
literal. -/
def Named (sc : Scope) (known : String → Prop) (n : Nat) : Code → Prop
  | attr name => known name
  | var i => i < n
  | function owner name args => ∃ c arity, sc.class? owner = some c ∧
      c.arity? name = some arity ∧ arity.accepts args.length = true
  | node target => sc.Reaches target
  | const v => ∃ l : Literal, v = l.value
  | _ => True

end Code

namespace Scope

variable {sc : Scope} {known : String → Prop}

theorem reaches_of_resolveNode {path : NodePath} {target : NodeTarget}
    (h : sc.resolveNode path = .ok target) : sc.Reaches target := by
  rcases resolveNode_cases h with ⟨index, name, rfl, bound⟩ | ⟨e, he, ref, rfl, found⟩
  · exact bound
  · obtain ⟨id, -, -, n, hn, -⟩ := Module.node?_eq_some found
    exact ⟨e, he, id, n, hn⟩

theorem reaches_of_resolveTarget {path : NodePath} {target : NodeTarget}
    (h : sc.resolveTarget path = .ok (.node target)) : sc.Reaches target := by
  unfold resolveTarget at h
  split at h
  · next found =>
    cases h
    exact reaches_of_resolveNode found
  · split at h <;> cases h

/-- A function call that passes the check is one of a class with such a function. -/
theorem arity_of_checkFunction {p : NodePath} {function : String} {count : Nat}
    (h : sc.checkFunction p function count = .ok ()) :
    ∃ c arity, sc.resolveTarget p = .ok (.hostClass c) ∧ sc.class? c.name = some c ∧
      c.arity? function = some arity ∧ arity.accepts count = true := by
  unfold checkFunction at h
  obtain ⟨target, resolved, h⟩ := bind_eq_ok h
  cases target with
  | node target => cases h
  | hostClass c =>
    dsimp only at h
    split at h
    · cases h
    · next arity found =>
      split at h
      · next accepts =>
        have named : sc.class? c.name = some c := by
          unfold resolveTarget at resolved
          split at resolved
          · cases resolved
          · split at resolved
            · next here =>
              cases resolved
              have name : c.name = p.name := by simpa using List.find?_some here
              rw [name]
              exact here
            · cases resolved
        exact ⟨c, arity, resolved, named, found, accepts⟩
      · cases h

theorem length_of_lowerAll {vars : List String} : ∀ (es : List Expr) (codes : List Code),
    sc.lowerAll vars es = .ok codes → codes.length = es.length
  | [], codes, h => by
    rw [lowerAll] at h
    cases h
    rfl
  | e :: es, codes, h => by
    rw [lowerAll] at h
    obtain ⟨c, cs, -, hcs, rfl⟩ := bind₂_eq_ok h
    rw [List.length_cons, List.length_cons, length_of_lowerAll es cs hcs]

/-- The names that are not bound are known, for parts of what was found. -/
theorem known_append {vars names names' : List String}
    (h : ∀ x ∈ names ++ names', x ∉ vars → known x) :
    (∀ x ∈ names, x ∉ vars → known x) ∧ ∀ x ∈ names', x ∉ vars → known x :=
  List.forall_mem_append.mp h

mutual

/-- Code uses names as it may if the expression has passed the check. -/
theorem scoped_of_lower (vars : List String) : ∀ (e : Expr) (names : List String) (code : Code),
    sc.mentions vars e = .ok names → sc.lower vars e = .ok code →
    (∀ x ∈ names, x ∉ vars → known x) → code.Scoped (Code.Named sc known) vars.length
  | .literal _ l, names, code, hm, h, hk => by
    rw [lower] at h
    cases h
    exact Code.scoped_of_parts ⟨l, rfl⟩ rfl (by simp [Code.parts])
  | .ident _ name, names, code, hm, h, hk => by
    rw [mentions] at hm
    rw [lower] at h
    split at hm
    · cases hm
      cases found : vars.idxOf? name with
      | none =>
        rw [found] at h
        cases h
        have free : name ∉ vars := by simpa [List.idxOf?_eq_none_iff] using found
        exact Code.scoped_of_parts (hk name (List.mem_singleton_self name) free) rfl
          (by simp [Code.parts])
      | some i =>
        rw [found] at h
        cases h
        have bound : i < vars.length := by
          rw [List.idxOf?, List.findIdx?_eq_some_iff_getElem] at found
          exact found.1
        exact Code.scoped_of_parts bound rfl (by simp [Code.parts])
    · cases hm
  | .params _, names, code, hm, h, hk => by
    rw [lower] at h
    cases h
    exact Code.scoped_of_parts trivial rfl (by simp [Code.parts])
  | .path _ p, names, code, hm, h, hk => by
    rw [lower] at h
    obtain ⟨target, resolved, h⟩ := bind_eq_ok h
    cases target with
    | node target =>
      cases h
      exact Code.scoped_of_parts (reaches_of_resolveTarget resolved) rfl (by simp [Code.parts])
    | hostClass signature =>
      cases h
      exact Code.scoped_of_parts trivial rfl (by simp [Code.parts])
  | .unary _ op a, names, code, hm, h, hk => by
    rw [mentions] at hm
    rw [lower] at h
    obtain ⟨c, hc, h⟩ := bind_eq_ok h
    cases h
    have inner := scoped_of_lower vars a names c hm hc hk
    exact Code.scoped_of_parts trivial rfl (by simp [Code.parts, inner])
  | .binary _ op a b, names, code, hm, h, hk => by
    rw [mentions] at hm
    rw [lower] at h
    obtain ⟨da, db, ha, hb, rfl⟩ := bind₂_eq_ok hm
    obtain ⟨c, d, hc, hd, rfl⟩ := bind₂_eq_ok h
    obtain ⟨ka, kb⟩ := known_append hk
    have left := scoped_of_lower vars a da c ha hc ka
    have right := scoped_of_lower vars b db d hb hd kb
    exact Code.scoped_of_parts trivial rfl (by simp [Code.parts, left, right])
  | .cond _ test positive negative, names, code, hm, h, hk => by
    rw [mentions] at hm
    rw [lower] at h
    obtain ⟨dt, dp, dn, mt, mp, mn, rfl⟩ := bind₃_eq_ok hm
    obtain ⟨t, p, n, ht, hp, hn, rfl⟩ := bind₃_eq_ok h
    obtain ⟨ktp, kn⟩ := known_append hk
    obtain ⟨kt, kp⟩ := known_append ktp
    have first := scoped_of_lower vars test dt t mt ht kt
    have second := scoped_of_lower vars positive dp p mp hp kp
    have third := scoped_of_lower vars negative dn n mn hn kn
    exact Code.scoped_of_parts trivial rfl (by simp [Code.parts, first, second, third])
  | .attr _ receiver name, names, code, hm, h, hk => by
    rw [mentions] at hm
    rw [lower] at h
    obtain ⟨r, hr, h⟩ := bind_eq_ok h
    cases h
    have inner := scoped_of_lower vars receiver names r hm hr hk
    exact Code.scoped_of_parts trivial rfl (by simp [Code.parts, inner])
  | .index _ receiver args, names, code, hm, h, hk => by
    rw [mentions] at hm
    rw [lower] at h
    obtain ⟨dr, da, mr, ma, rfl⟩ := bind₂_eq_ok hm
    obtain ⟨r, as, hr, has, rfl⟩ := bind₂_eq_ok h
    obtain ⟨kr, ka⟩ := known_append hk
    exact Code.scoped_of_parts trivial rfl (List.forall_mem_cons.mpr
      ⟨scoped_of_lower vars receiver dr r mr hr kr, scoped_of_lowerAll vars args da as ma has ka⟩)
  | .method _ receiver name args, names, code, hm, h, hk => by
    by_cases hp : ∃ place p, receiver = .path place p
    · obtain ⟨place, p, rfl⟩ := hp
      rw [mentions] at hm
      rw [lower] at h
      obtain ⟨_, checked, ma⟩ := bind_eq_ok hm
      obtain ⟨c, arity, resolved, found, has, accepts⟩ := arity_of_checkFunction checked
      obtain ⟨target, hc, h⟩ := bind_eq_ok h
      rw [resolved] at hc
      cases hc
      obtain ⟨as, has', h⟩ := bind_eq_ok h
      cases h
      rw [← length_of_lowerAll args as has'] at accepts
      exact Code.scoped_of_parts ⟨c, arity, found, has, accepts⟩ rfl
        (scoped_of_lowerAll vars args names as ma has' hk)
    · have other : ∀ place p, receiver ≠ .path place p := fun place p he ↦ hp ⟨place, p, he⟩
      rw [mentions] at hm
      · rw [lower] at h
        · obtain ⟨dr, mr, hm⟩ := bind_eq_ok hm
          obtain ⟨da, ma, hm⟩ := bind_eq_ok hm
          cases hm
          obtain ⟨r, as, hr, has, rfl⟩ := bind₂_eq_ok h
          obtain ⟨kr, ka⟩ := known_append hk
          exact Code.scoped_of_parts trivial rfl (List.forall_mem_cons.mpr
            ⟨scoped_of_lower vars receiver dr r mr hr kr,
              scoped_of_lowerAll vars args da as ma has ka⟩)
        · exact other
      · exact other
  | .call _ target args, names, code, hm, h, hk => by
    rw [mentions] at hm
    rw [lower] at h
    obtain ⟨dt, da, mt, ma, rfl⟩ := bind₂_eq_ok hm
    obtain ⟨t, as, ht, has, rfl⟩ := bind₂_eq_ok h
    obtain ⟨kt, ka⟩ := known_append hk
    exact Code.scoped_of_parts trivial rfl (List.forall_mem_cons.mpr
      ⟨scoped_of_lower vars target dt t mt ht kt, scoped_of_lowerNamed vars args da as ma has ka⟩)
  | .raise _ args, names, code, hm, h, hk => by
    rw [mentions] at hm
    rw [lower] at h
    obtain ⟨as, has, h⟩ := bind_eq_ok h
    cases h
    exact Code.scoped_of_parts trivial rfl (scoped_of_lowerAll vars args names as hm has hk)
  | .list _ items, names, code, hm, h, hk | .set _ items, names, code, hm, h, hk => by
    rw [mentions] at hm
    rw [lower] at h
    obtain ⟨cs, hcs, h⟩ := bind_eq_ok h
    cases h
    exact Code.scoped_of_parts trivial rfl (scoped_of_lowerAll vars items names cs hm hcs hk)
  | .map _ entries, names, code, hm, h, hk => by
    rw [mentions] at hm
    rw [lower] at h
    obtain ⟨es, hes, h⟩ := bind_eq_ok h
    cases h
    exact Code.scoped_of_parts trivial rfl (scoped_of_lowerEntries vars entries names es hm hes hk)
  | .comprehension _ yield binding source filter, names, code, hm, h, hk => by
    rw [mentions] at hm
    rw [lower] at h
    obtain ⟨ds, dy, df, ms, my, mf, rfl⟩ := bind₃_eq_ok hm
    obtain ⟨s, y, f, hs, hy, hf, rfl⟩ := bind₃_eq_ok h
    obtain ⟨ks, kinner⟩ := known_append hk
    -- A name that is not bound further in was not left out of what was found.
    have inner : ∀ x ∈ dy ++ df, x ∉ binding.names.reverse ++ vars → known x := by
      intro x hx free
      simp only [List.mem_append, List.mem_reverse, not_or] at free
      exact kinner x (List.mem_filter.mpr ⟨hx, by simpa using free.1⟩) free.2
    obtain ⟨ky, kf⟩ := known_append inner
    have length : (binding.names.reverse ++ vars).length =
        vars.length + if (binding.names.length == 2) = true then 2 else 1 := by
      cases binding with
      | single name | pair first second => simp [Binding.names]
    refine Code.scoped_comprehension trivial (scoped_of_lower vars source ds s ms hs ks) ?_
    rw [← length]
    exact List.forall_mem_append.mpr ⟨scoped_of_lowerYield _ yield dy y my hy ky,
      scoped_of_lowerOptional _ filter df f mf hf kf⟩

theorem scoped_of_lowerAll (vars : List String) :
    ∀ (es : List Expr) (names : List String) (codes : List Code),
      sc.mentionsAll vars es = .ok names → sc.lowerAll vars es = .ok codes →
      (∀ x ∈ names, x ∉ vars → known x) →
      ∀ c ∈ codes, c.Scoped (Code.Named sc known) vars.length
  | [], names, codes, hm, h, hk => by
    rw [lowerAll] at h
    cases h
    simp
  | e :: es, names, codes, hm, h, hk => by
    rw [mentionsAll] at hm
    rw [lowerAll] at h
    obtain ⟨de, des, me, mes, rfl⟩ := bind₂_eq_ok hm
    obtain ⟨c, cs, hc, hcs, rfl⟩ := bind₂_eq_ok h
    obtain ⟨ke, kes⟩ := known_append hk
    exact List.forall_mem_cons.mpr
      ⟨scoped_of_lower vars e de c me hc ke, scoped_of_lowerAll vars es des cs mes hcs kes⟩

theorem scoped_of_lowerNamed (vars : List String) :
    ∀ (es : List (Entry String Expr)) (names : List String) (entries : List (Entry Code Code)),
      sc.mentionsNamed vars es = .ok names → sc.lowerNamed vars es = .ok entries →
      (∀ x ∈ names, x ∉ vars → known x) →
      ∀ c ∈ entries.flatMap Entry.codes, c.Scoped (Code.Named sc known) vars.length
  | [], names, entries, hm, h, hk => by
    rw [lowerNamed] at h
    cases h
    simp
  | .pair name e :: es, names, entries, hm, h, hk => by
    rw [mentionsNamed] at hm
    rw [lowerNamed] at h
    obtain ⟨de, des, me, mes, rfl⟩ := bind₂_eq_ok hm
    obtain ⟨c, rest, hc, hrest, rfl⟩ := bind₂_eq_ok h
    obtain ⟨ke, kes⟩ := known_append hk
    have key : (Code.const (.str name)).Scoped (Code.Named sc known) vars.length :=
      Code.scoped_of_parts ⟨.str name, rfl⟩ rfl (by simp [Code.parts])
    have value := scoped_of_lower vars e de c me hc ke
    rw [List.flatMap_cons, List.forall_mem_append]
    exact ⟨by simp [Entry.codes, key, value], scoped_of_lowerNamed vars es des rest mes hrest kes⟩
  | .spread e :: es, names, entries, hm, h, hk => by
    rw [mentionsNamed] at hm
    rw [lowerNamed] at h
    obtain ⟨de, des, me, mes, rfl⟩ := bind₂_eq_ok hm
    obtain ⟨c, rest, hc, hrest, rfl⟩ := bind₂_eq_ok h
    obtain ⟨ke, kes⟩ := known_append hk
    have value := scoped_of_lower vars e de c me hc ke
    rw [List.flatMap_cons, List.forall_mem_append]
    exact ⟨by simp [Entry.codes, value], scoped_of_lowerNamed vars es des rest mes hrest kes⟩

theorem scoped_of_lowerEntries (vars : List String) :
    ∀ (es : List (Entry Expr Expr)) (names : List String) (entries : List (Entry Code Code)),
      sc.mentionsEntries vars es = .ok names → sc.lowerEntries vars es = .ok entries →
      (∀ x ∈ names, x ∉ vars → known x) →
      ∀ c ∈ entries.flatMap Entry.codes, c.Scoped (Code.Named sc known) vars.length
  | [], names, entries, hm, h, hk => by
    rw [lowerEntries] at h
    cases h
    simp
  | .pair k e :: es, names, entries, hm, h, hk => by
    rw [mentionsEntries] at hm
    rw [lowerEntries] at h
    obtain ⟨dk, de, des, mk, me, mes, rfl⟩ := bind₃_eq_ok hm
    obtain ⟨ck, c, rest, hck, hc, hrest, rfl⟩ := bind₃_eq_ok h
    obtain ⟨kke, kes⟩ := known_append hk
    obtain ⟨kk, ke⟩ := known_append kke
    have key := scoped_of_lower vars k dk ck mk hck kk
    have value := scoped_of_lower vars e de c me hc ke
    rw [List.flatMap_cons, List.forall_mem_append]
    exact ⟨by simp [Entry.codes, key, value], scoped_of_lowerEntries vars es des rest mes hrest kes⟩
  | .spread e :: es, names, entries, hm, h, hk => by
    rw [mentionsEntries] at hm
    rw [lowerEntries] at h
    obtain ⟨de, des, me, mes, rfl⟩ := bind₂_eq_ok hm
    obtain ⟨c, rest, hc, hrest, rfl⟩ := bind₂_eq_ok h
    obtain ⟨ke, kes⟩ := known_append hk
    have value := scoped_of_lower vars e de c me hc ke
    rw [List.flatMap_cons, List.forall_mem_append]
    exact ⟨by simp [Entry.codes, value], scoped_of_lowerEntries vars es des rest mes hrest kes⟩

theorem scoped_of_lowerYield (vars : List String) :
    ∀ (y : Yield Expr) (names : List String) (yield : Yield Code),
      sc.mentionsYield vars y = .ok names → sc.lowerYield vars y = .ok yield →
      (∀ x ∈ names, x ∉ vars → known x) →
      ∀ c ∈ yield.codes, c.Scoped (Code.Named sc known) vars.length
  | .list a, names, yield, hm, h, hk | .set a, names, yield, hm, h, hk => by
    rw [mentionsYield] at hm
    rw [lowerYield] at h
    obtain ⟨c, hc, h⟩ := bind_eq_ok h
    cases h
    simpa [Yield.codes] using scoped_of_lower vars a names c hm hc hk
  | .map k a, names, yield, hm, h, hk => by
    rw [mentionsYield] at hm
    rw [lowerYield] at h
    obtain ⟨dk, da, mk, ma, rfl⟩ := bind₂_eq_ok hm
    obtain ⟨ck, c, hck, hc, rfl⟩ := bind₂_eq_ok h
    obtain ⟨kk, ka⟩ := known_append hk
    have key := scoped_of_lower vars k dk ck mk hck kk
    have value := scoped_of_lower vars a da c ma hc ka
    simp [Yield.codes, key, value]

theorem scoped_of_lowerOptional (vars : List String) :
    ∀ (o : Option Expr) (names : List String) (filter : Option Code),
      sc.mentionsOptional vars o = .ok names → sc.lowerOptional vars o = .ok filter →
      (∀ x ∈ names, x ∉ vars → known x) →
      ∀ c ∈ filter.toList, c.Scoped (Code.Named sc known) vars.length
  | none, names, filter, hm, h, hk => by
    rw [lowerOptional] at h
    cases h
    simp
  | some e, names, filter, hm, h, hk => by
    rw [mentionsOptional] at hm
    rw [lowerOptional] at h
    obtain ⟨c, hc, h⟩ := bind_eq_ok h
    cases h
    simpa using scoped_of_lower vars e names c hm hc hk

end

end Scope

/-- The code of a member is that of the definition's expression. -/
theorem Definition.lowered_of_member {d : Definition} {m : Member} (h : d.member = .ok m) :
    d.scope.lowerOptional [] d.wording.body? = .ok m.body.code? := by
  unfold member at h
  split at h
  · next e said =>
    obtain ⟨deps, code, -, lowered, rfl⟩ := bind₂_eq_ok h
    rw [said, Wording.body?, Scope.lowerOptional, lowered]
    rfl
  · next default said =>
    obtain ⟨deps, code, -, lowered, rfl⟩ := bind₂_eq_ok h
    rw [said]
    exact lowered

/-- The code of a member uses names as it may, and as attributes only those that the member refers
to. -/
theorem Definition.scoped_code {d : Definition} {m : Member} {code : Code} (h : d.member = .ok m)
    (hc : m.body.code? = some code) : code.Scoped (Code.Named d.scope (· ∈ m.deps)) 0 := by
  obtain ⟨names, found, same⟩ := d.scope.mem_references_iff (fields_of_member h).2.2
  exact Scope.scoped_of_lowerOptional [] d.wording.body? names m.body.code? found
    (lowered_of_member h) (fun x hx _ ↦ (same x).mpr hx) code (Option.mem_toList.mpr hc)

namespace Program

variable (p : Program) {ref : NodeRef} {attr : String} {slot : Slot} {code : Code}

/-- The code of a program's members uses names as it may. -/
theorem scoped_code (h : p.library.slot? ref attr = some slot)
    (hc : slot.member.body.code? = some code) :
    ∃ l, definition? attr (p.lineage ref) = some l ∧
      code.Scoped (Code.Named l.definition.scope (· ∈ slot.member.deps)) 0 := by
  obtain ⟨l, found, holds⟩ := exists_of_rel_right (p.slot?_rel ref attr) h
  exact ⟨l, found, Definition.scoped_code holds.member hc⟩

end Program

/-- If a code is a constant, it is a literal. -/
def Code.Spelled : Code → Prop
  | const v => ∃ l : Literal, v = l.value
  | _ => True

/-- The constants in the code of a program's members are literals. -/
theorem Program.constants (p : Program) {ref : NodeRef} {attr : String} {slot : Slot} {code : Code}
    (h : p.library.slot? ref attr = some slot) (hc : slot.member.body.code? = some code) :
    code.Every Code.Spelled := by
  obtain ⟨l, -, named⟩ := p.scoped_code h hc
  refine named.every fun n c hn ↦ ?_
  cases c with
  | const v => exact hn
  | _ => trivial

end Formulary
