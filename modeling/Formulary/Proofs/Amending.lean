import Formulary.Proofs.Bulk
import Formulary.Proofs.WellFormed
import Formulary.Whitelist.Standard

/-!
# Amending node calls

A call is amended by merging entries into its parameters. Merging well-formed maps is associative
(`Value.merge_merge`), so that amending twice is amending once by the merged entries: maps act on
calls. Every way to write a merged map, or a call with merged parameters, gives the same entries in
the same order (`NodeCall.amending_acts`).
-/

namespace Formulary

/-! ### Dictionaries whose keys are told apart -/

namespace Ordered

universe u v

variable {α : Type u} {β : Type v} [BEq α]

/-- Among some keys equality is symmetric and transitive. -/
structure TellsApart (P : α → Prop) : Prop where
  symm : ∀ {a b : α}, P a → P b → (a == b) = (b == a)
  trans : ∀ {a b c : α}, P a → P b → P c → (a == b) = true → (b == c) = true → (a == c) = true

variable {P : α → Prop} {k k' : α} {v v' : β} {entries extra : List (α × β)}

/-- Equal keys equal the same keys. -/
theorem TellsApart.congr (apart : TellsApart P) {a b c : α} (ha : P a) (hb : P b) (hc : P c)
    (same : (a == b) = true) : (a == c) = (b == c) := by
  rw [Bool.eq_iff_iff]
  exact ⟨apart.trans hb ha hc ((apart.symm hb ha).trans same), apart.trans ha hb hc same⟩

/-- Of two values under equal keys the later one is kept, under the earlier key. -/
theorem put_put (apart : TellsApart P) (hk : P k) (hk' : P k') (he : ∀ e ∈ entries, P e.1)
    (same : (k == k') = true) : put k v (put k' v' entries) = put k' v entries := by
  induction entries with
  | nil => simp [put, same]
  | cons e rest ih =>
    obtain ⟨he, hrest⟩ := List.forall_mem_cons.mp he
    have alike : (k == e.1) = (k' == e.1) := apart.congr hk hk' he same
    by_cases here : (k' == e.1) = true
    · simp [put, here, alike]
    · simp [put, here, alike, ih hrest]

/-- Values under different keys can be stored in either order, if the one key has its place
already. -/
theorem put_comm (apart : TellsApart P) (hk : P k) (hk' : P k') (he : ∀ e ∈ entries, P e.1)
    (other : (k == k') = false) (there : hasKey k entries = true) :
    put k v (put k' v' entries) = put k' v' (put k v entries) := by
  induction entries with
  | nil => cases there
  | cons e rest ih =>
    obtain ⟨he, hrest⟩ := List.forall_mem_cons.mp he
    by_cases first : (k == e.1) = true
    · have second : (k' == e.1) = false := by
        rw [apart.symm hk' he, ← apart.congr hk he hk' first]
        exact other
      simp [put, first, second]
    · have later : hasKey k rest = true := by simpa [hasKey, first] using there
      by_cases second : (k' == e.1) = true
      · simp [put, first, second]
      · simp [put, first, second, ih hrest later]

theorem hasKey_put_of_hasKey (there : hasKey k entries = true) :
    hasKey k (put k' v entries) = true := by
  obtain ⟨e, he, same⟩ := List.any_eq_true.mp there
  have kept : e.1 ∈ (put k' v entries).map Prod.fst := by
    rw [keys_put]
    exact mem_add_of_mem (List.mem_map_of_mem he)
  obtain ⟨d, hd, eq⟩ := List.mem_map.mp kept
  exact List.any_eq_true.mpr ⟨d, hd, eq ▸ same⟩

theorem hasKey_put_of_same (apart : TellsApart P) (hk : P k) (hk' : P k')
    (he : ∀ e ∈ entries, P e.1) (same : (k == k') = true) :
    hasKey k (put k' v entries) = true := by
  induction entries with
  | nil => simp [put, hasKey, same]
  | cons e rest ih =>
    obtain ⟨he, hrest⟩ := List.forall_mem_cons.mp he
    by_cases here : (k' == e.1) = true
    · simp [put, hasKey, here, apart.trans hk hk' he same here]
    · have later := ih hrest
      simp only [hasKey] at later
      simp [put, hasKey, here, later]

theorem forall_put (hk : P k) (he : ∀ e ∈ entries, P e.1) : ∀ e ∈ put k v entries, P e.1 := by
  intro e mem
  rcases mem_put mem with mem | ⟨-, rfl | ⟨old, ho, eq⟩⟩
  · exact he e mem
  · exact hk
  · exact eq ▸ he old ho

/-- A value under a key that has its place already can be stored before other keys come. -/
theorem put_merge (apart : TellsApart P) (hk : P k) (he : ∀ e ∈ entries, P e.1)
    (hx : ∀ e ∈ extra, P e.1) (there : hasKey k entries = true)
    (other : ∀ e ∈ extra, (k == e.1) = false) :
    put k v (merge entries extra) = merge (put k v entries) extra := by
  induction extra generalizing entries with
  | nil => rfl
  | cons d extra ih =>
    obtain ⟨hd, hx⟩ := List.forall_mem_cons.mp hx
    obtain ⟨apart', other⟩ := List.forall_mem_cons.mp other
    calc put k v (merge (put d.1 d.2 entries) extra)
        = merge (put k v (put d.1 d.2 entries)) extra :=
          ih (forall_put hd he) hx (hasKey_put_of_hasKey there) other
      _ = merge (put d.1 d.2 (put k v entries)) extra := by
          rw [put_comm apart hk hd he apart' there]

/-- No key comes twice. -/
def Distinct (entries : List (α × β)) : Prop := entries.Pairwise fun a b ↦ (a.1 == b.1) = false

/-- Merging an entry that has been stored is storing it after merging. -/
theorem merge_put (apart : TellsApart P) (hk : P k) (he : ∀ e ∈ entries, P e.1)
    (hx : ∀ e ∈ extra, P e.1) (distinct : Distinct extra) :
    merge entries (put k v extra) = put k v (merge entries extra) := by
  induction extra generalizing entries with
  | nil => rfl
  | cons d rest ih =>
    obtain ⟨hd, hx⟩ := List.forall_mem_cons.mp hx
    obtain ⟨first, later⟩ := List.pairwise_cons.mp distinct
    by_cases here : (k == d.1) = true
    · have other : ∀ e ∈ rest, (k == e.1) = false := fun e mem ↦
        (apart.congr hk hd (hx e mem) here).trans (first e mem)
      calc merge entries (put k v (d :: rest))
          = merge (put d.1 v entries) rest := by
            rw [put, if_pos here]
            rfl
        _ = merge (put k v (put d.1 d.2 entries)) rest := by rw [put_put apart hk hd he here]
        _ = put k v (merge (put d.1 d.2 entries) rest) :=
          (put_merge apart hk (forall_put hd he) hx (hasKey_put_of_same apart hk hd he here)
            other).symm
    · rw [put, if_neg here]
      exact ih (forall_put hd he) hx later

theorem distinct_put (apart : TellsApart P) (hk : P k) (he : ∀ e ∈ entries, P e.1)
    (distinct : Distinct entries) : Distinct (put k v entries) := by
  by_cases there : hasKey k entries = true
  · have keys : (put k v entries).map Prod.fst = entries.map Prod.fst := by
      rw [keys_put, add, if_pos]
      simpa [has, hasKey, List.any_map, Function.comp_def] using there
    have same : ((put k v entries).map Prod.fst).Pairwise fun a b ↦ (a == b) = false := by
      rw [keys]
      exact List.pairwise_map.mpr distinct
    exact List.pairwise_map.mp same
  · have new : hasKey k entries = false := by simpa using there
    rw [put_of_hasKey_eq_false new]
    refine List.pairwise_append.mpr ⟨distinct, List.pairwise_singleton _ _, fun e mem d hd ↦ ?_⟩
    rw [List.mem_singleton.mp hd, apart.symm (he e mem) hk]
    simpa using List.any_eq_false.mp new e mem

/-- Merging is associative. -/
theorem merge_assoc (apart : TellsApart P) {more : List (α × β)} (he : ∀ e ∈ entries, P e.1)
    (hx : ∀ e ∈ extra, P e.1) (hm : ∀ e ∈ more, P e.1) (distinct : Distinct extra) :
    merge (merge entries extra) more = merge entries (merge extra more) := by
  induction more generalizing extra with
  | nil => rfl
  | cons d more ih =>
    obtain ⟨hd, hm⟩ := List.forall_mem_cons.mp hm
    calc merge (put d.1 d.2 (merge entries extra)) more
        = merge (merge entries (put d.1 d.2 extra)) more := by
          rw [merge_put apart hd he hx distinct]
      _ = merge entries (merge (put d.1 d.2 extra) more) :=
          ih (forall_put hd hx) hm (distinct_put apart hd hx distinct)

/-- A key has the value that was stored under it last. -/
theorem get?_put_of_apart (apart : TellsApart P) (hk : P k) (hk' : P k')
    (he : ∀ e ∈ entries, P e.1) :
    get? k (put k' v entries) = if k == k' then some v else get? k entries := by
  induction entries with
  | nil => rfl
  | cons e rest ih =>
    obtain ⟨he, hrest⟩ := List.forall_mem_cons.mp he
    by_cases here : (k' == e.1) = true
    · have alike : (k == k') = (k == e.1) := by
        rw [apart.symm hk hk', apart.symm hk he, apart.congr hk' he hk here]
      by_cases found : (k == e.1) = true <;> simp [put, get?, here, alike, found]
    · by_cases found : (k == e.1) = true
      · have other : (k == k') = false := by
          rw [apart.congr hk he hk' found, apart.symm he hk']
          simpa using here
        simp [put, get?, here, found, other]
      · simp [put, get?, here, found, ih hrest]

/-- Entries under other keys do not change what is found under a key. -/
theorem get?_merge_of_apart (apart : TellsApart P) (hk : P k) (he : ∀ e ∈ entries, P e.1)
    (hx : ∀ e ∈ extra, P e.1) (other : ∀ e ∈ extra, (k == e.1) = false) :
    get? k (merge entries extra) = get? k entries := by
  induction extra generalizing entries with
  | nil => rfl
  | cons d rest ih =>
    obtain ⟨hd, hx⟩ := List.forall_mem_cons.mp hx
    obtain ⟨here, other⟩ := List.forall_mem_cons.mp other
    calc get? k (merge (put d.1 d.2 entries) rest)
        = get? k (put d.1 d.2 entries) := ih (forall_put hd he) hx other
      _ = get? k entries := by rw [get?_put_of_apart apart hk hd he, here, if_neg (by simp)]

/-- The entries that are merged have their values in the result. -/
theorem get?_merge_of_mem (apart : TellsApart P) (he : ∀ e ∈ entries, P e.1)
    (hx : ∀ e ∈ extra, P e.1) (distinct : Distinct extra) (reflexive : (k == k) = true)
    (mem : (k, v) ∈ extra) : get? k (merge entries extra) = some v := by
  induction extra generalizing entries with
  | nil => cases mem
  | cons d rest ih =>
    obtain ⟨hd, hrest⟩ := List.forall_mem_cons.mp hx
    obtain ⟨first, later⟩ := List.pairwise_cons.mp distinct
    rcases List.mem_cons.mp mem with rfl | mem
    · calc get? k (merge (put k v entries) rest)
          = get? k (put k v entries) := get?_merge_of_apart apart hd (forall_put hd he) hrest first
        _ = some v := by rw [get?_put_of_apart apart hd hd he, if_pos reflexive]
    · exact ih (forall_put hd he) hrest later mem

/-- An entry stays as it is, and where it is, when others are stored. -/
theorem getElem?_put_of_ne {i : Nat} {e : α × β} (h : entries[i]? = some e)
    (other : (k == e.1) = false) : (put k v entries)[i]? = some e := by
  induction entries generalizing i with
  | nil => cases h
  | cons d rest ih =>
    rw [put]
    split
    · next here =>
      cases i with
      | zero =>
        cases h
        rw [here] at other
        cases other
      | succ i => exact h
    · cases i with
      | zero => exact h
      | succ i => exact ih h

theorem getElem?_merge_of_ne {i : Nat} {e : α × β} (h : entries[i]? = some e)
    (other : ∀ d ∈ extra, (d.1 == e.1) = false) : (merge entries extra)[i]? = some e := by
  induction extra generalizing entries with
  | nil => exact h
  | cons d rest ih =>
    obtain ⟨here, other⟩ := List.forall_mem_cons.mp other
    exact ih (getElem?_put_of_ne h here) other

/-- Entries that follow others are merged into these. -/
theorem ofEntries_append (entries extra : List (α × β)) :
    ofEntries (entries ++ extra) = merge (ofEntries entries) extra := by
  simp [ofEntries, merge]

end Ordered

namespace Value

variable {p q r : List (Value × Value)}

/-- Equality tells well-formed values apart. -/
theorem tellsApart_wellFormed : Ordered.TellsApart WellFormed where
  symm := equal_symm
  trans := equal_trans

theorem wellFormed_keys (h : (map p).WellFormed) : ∀ e ∈ p, e.1.WellFormed :=
  fun e he ↦ (h.entry e he).1

/-- A well-formed map has no key twice. -/
theorem distinct_of_wellFormed (h : (map p).WellFormed) : Ordered.Distinct p :=
  (List.pairwise_map.mp h.self).imp fun h ↦ h.1

theorem ofEntries_of_wellFormed (h : (map p).WellFormed) : Indexed.ofEntries p = p := by
  rw [Indexed.ofEntries_eq]
  exact Ordered.ofEntries_of_distinct ((List.pairwise_map.mp h.self).imp fun h ↦ h.2)

/-- Merging well-formed maps is associative. -/
theorem merge_merge (hp : (map p).WellFormed) (hq : (map q).WellFormed) (hr : (map r).WellFormed) :
    Indexed.merge (Indexed.merge p q) r = Indexed.merge p (Indexed.merge q r) := by
  simp only [Indexed.merge_eq]
  exact Ordered.merge_assoc tellsApart_wellFormed (wellFormed_keys hp) (wellFormed_keys hq)
    (wellFormed_keys hr) (distinct_of_wellFormed hq)

/-- A map literal with two maps spread in it is the one merged into the other. -/
theorem ofEntries_append_of_wellFormed (hp : (map p).WellFormed) :
    Indexed.ofEntries (p ++ q) = Indexed.merge p q := by
  rw [Indexed.ofEntries_eq, Ordered.ofEntries_append, ← Indexed.ofEntries_eq,
    ofEntries_of_wellFormed hp, Indexed.merge_eq]

end Value

/-! ### Evaluations that give something -/

section

variable {σ α β : Type}

/-- In every world an evaluation has a result, and the result is as said. -/
def Eval.Gives (m : Eval σ α) (Q : α → Prop) : Prop :=
  ∀ w, ∃ a w', m.run.run w = (.ok a, w') ∧ Q a

namespace Eval

variable {m : Eval σ α} {f : α → Eval σ β} {P : α → Prop} {Q : β → Prop}

theorem gives_pure {a : α} (h : P a) : Gives (pure a : Eval σ α) P := fun w ↦ ⟨a, w, rfl, h⟩

theorem gives_self (a : α) : Gives (pure a : Eval σ α) (· = a) := gives_pure rfl

theorem Gives.bind (hm : Gives m P) (hf : ∀ a, P a → Gives (f a) Q) : Gives (m >>= f) Q := by
  intro w
  obtain ⟨a, w', ran, ha⟩ := hm w
  rw [run_bind, ran]
  exact hf a ha w'

theorem gives_record (event : Event) : Gives (record event : Eval σ Unit) fun _ ↦ True :=
  fun _ ↦ ⟨(), _, rfl, trivial⟩

end Eval

end

namespace NodeCall

open Eval (Gives gives_pure gives_self gives_record)

variable {σ : Type} {s : Setting σ} {read : Read (Eval σ)} {cx : Context} {vars : List Value}
  {a b : Code} {p q params : List (Value × Value)} {node : NodeRef} {env : Nat}

/-- A value that is a call of a node with certain parameters. -/
def IsCall (node : NodeRef) (params : List (Value × Value)) (v : Value) : Prop :=
  ∃ env, v = .call env node params

/-- What making a call does: it makes an environment. -/
theorem run_create (node : NodeRef) (params : List (Value × Value)) (w : World σ) :
    (create node params).run.run w = (.ok (.call w.envs.size node params), w.withEnv params) := rfl

theorem gives_create (node : NodeRef) (params : List (Value × Value)) :
    Gives (create node params : Eval σ Value) (IsCall node params) :=
  fun w ↦ ⟨_, _, run_create node params w, w.envs.size, rfl⟩

theorem gives_spread (ha : Gives (run s read cx vars a) (· = .map p)) :
    Gives (runEntries s read cx vars [.spread a]) (· = p) := by
  rw [runEntries]
  refine ha.bind ?_
  rintro _ rfl
  refine (gives_self _).bind ?_
  rintro _ rfl
  rw [runEntries]
  exact (gives_self _).bind fun _ none ↦ gives_pure (by simp [none])

theorem gives_spreads (ha : Gives (run s read cx vars a) (· = .map p))
    (hb : Gives (run s read cx vars b) (· = .map q)) :
    Gives (runEntries s read cx vars [.spread a, .spread b]) (· = p ++ q) := by
  rw [runEntries]
  refine ha.bind ?_
  rintro _ rfl
  refine (gives_self _).bind ?_
  rintro _ rfl
  exact (gives_spread hb).bind fun _ same ↦ gives_pure (by rw [same])

/-- The map `{**a, **b}`. -/
theorem gives_map (ha : Gives (run s read cx vars a) (· = .map p))
    (hb : Gives (run s read cx vars b) (· = .map q)) (hp : (Value.map p).WellFormed) :
    Gives (run s read cx vars (.map [.spread a, .spread b])) (· = .map (Indexed.merge p q)) := by
  rw [run]
  refine (gives_spreads ha hb).bind ?_
  rintro _ rfl
  exact gives_pure (by rw [Value.ofEntries_append_of_wellFormed hp])

/-- The method call `a.merge(b)`, where it is permitted. -/
theorem gives_method (methods : s.builtIns = Value.send)
    (ha : Gives (run s read cx vars a) (· = .map p))
    (hb : Gives (run s read cx vars b) (· = .map q))
    (permitted : (s.whitelistOf cx.home).permit (.map p) "merge" [.map q] = .ok "merge") :
    Gives (run s read cx vars (.method a "merge" [b])) (· = .map (Indexed.merge p q)) := by
  have called : s.callMethod cx.home (.map p) "merge" [.map q] = (do
      Eval.record (.method cx.home (.map p) "merge" [.map q])
      pure (.map (Indexed.merge p q))) := by
    change (do
      let method ← Eval.ofExcept ((s.whitelistOf cx.home).permit (.map p) "merge" [.map q])
      Eval.record (.method cx.home (.map p) method [.map q])
      s.runMethod (.map p) method [.map q]) = _
    have sent : s.runMethod (.map p) "merge" [.map q] =
        Eval.ofOutcome (s.builtIns (.map p) "merge" [.map q]) := rfl
    rw [permitted, Eval.ofExcept_ok, pure_bind, sent, methods]
    rfl
  rw [run]
  refine ha.bind ?_
  rintro _ rfl
  have args : Gives (runAll s read cx vars [b]) (· = [.map q]) := by
    rw [runAll]
    refine hb.bind ?_
    rintro _ rfl
    rw [runAll]
    exact (gives_self _).bind fun _ none ↦ gives_pure (by rw [none])
  refine args.bind ?_
  rintro _ rfl
  rw [called]
  exact (gives_record _).bind fun _ _ ↦ gives_pure rfl

/-- The call `A(**a)`. -/
theorem gives_call (target : NodeTarget) (ha : Gives (run s read cx vars a) (· = .map p))
    (hp : (Value.map p).WellFormed) :
    Gives (run s read cx vars (.call (.node target) [.spread a]))
      (IsCall (target.ref cx.home cx.homeName) p) := by
  rw [run, run]
  refine (gives_self _).bind ?_
  rintro _ rfl
  refine (gives_spread ha).bind ?_
  rintro _ rfl
  rw [Value.ofEntries_of_wellFormed hp]
  exact gives_create _ _

/-- The call `A(**a, **b)`. -/
theorem gives_call_spreads (target : NodeTarget) (ha : Gives (run s read cx vars a) (· = .map p))
    (hb : Gives (run s read cx vars b) (· = .map q)) (hp : (Value.map p).WellFormed) :
    Gives (run s read cx vars (.call (.node target) [.spread a, .spread b]))
      (IsCall (target.ref cx.home cx.homeName) (Indexed.merge p q)) := by
  rw [run, run]
  refine (gives_self _).bind ?_
  rintro _ rfl
  refine (gives_spreads ha hb).bind ?_
  rintro _ rfl
  rw [Value.ofEntries_append_of_wellFormed hp]
  exact gives_create _ _

/-- The call `c(**b)` of a call. -/
theorem gives_call_call {c : Code} (hc : Gives (run s read cx vars c) (IsCall node p))
    (hb : Gives (run s read cx vars b) (· = .map q)) (hq : (Value.map q).WellFormed) :
    Gives (run s read cx vars (.call c [.spread b])) (IsCall node (Indexed.merge p q)) := by
  rw [run]
  refine hc.bind ?_
  rintro _ ⟨env, rfl⟩
  refine (gives_spread hb).bind ?_
  rintro _ rfl
  rw [Value.ofEntries_of_wellFormed hq]
  exact gives_create _ _

/-- The sum `c + b` of a call and a map. -/
theorem gives_sum {c : Code} (hc : Gives (run s read cx vars c) (IsCall node p))
    (hb : Gives (run s read cx vars b) (· = .map q)) :
    Gives (run s read cx vars (.binary .add c b)) (IsCall node (Indexed.merge p q)) := by
  rw [run]
  · refine hc.bind ?_
    rintro _ ⟨env, rfl⟩
    refine hb.bind ?_
    rintro _ rfl
    exact gives_create _ _
  · exact nofun
  · exact nofun

/-- Maps act on node calls by merging, and all forms of merging agree.

Let `c` be a node call, and let it and the maps `p`, `q` and `r` be well-formed. To amend `c` by `p`
and then by `q` is to amend it by the two merged: node and parameters are the same, in the same
order. Amending by no entries keeps the parameters. A key of `p` has its value of `p` in the
amended call, and an entry of `c` under another key is what it was and where it was. The amended
call has an environment of its own in which nothing has been computed; all environments from before,
that of `c` among them, are as they were. Merging is associative.

If moreover the codes `a` and `b` have the values `p` and `q`, then `{**a, **b}`, `a.merge(b)` where
it is permitted, and the parameters of `A(**a, **b)`, of `A(**a)(**b)` and of `A(**a) + b` are the
same map in the same order; for the method, if it is the built-in one. -/
theorem amending_acts (s : Setting σ) (read : Read (Eval σ)) (cx : Context) (vars : List Value)
    {r : List (Value × Value)} (hc : (Value.call env node params).WellFormed)
    (hp : (Value.map p).WellFormed) (hq : (Value.map q).WellFormed) (hr : (Value.map r).WellFormed)
    (ha : Gives (run s read cx vars a) (· = .map p))
    (hb : Gives (run s read cx vars b) (· = .map q)) (target : NodeTarget) (w : World σ) :
    let c := Value.call env node params
    (∃ m, Gives (do
          let amended ← applyBinary read cx.held .add c (.map p)
          applyBinary read cx.held .add amended (.map q)) (IsCall node m) ∧
      Gives (applyBinary read cx.held .add c (.map (Indexed.merge p q))) (IsCall node m)) ∧
    Gives (applyBinary read cx.held .add c (.map [])) (IsCall node params) ∧
    (∃ m w', (applyBinary read cx.held .add c (.map p)).run.run w =
        (.ok (.call w.envs.size node m), w') ∧
      (∀ e ∈ p, Ordered.get? e.1 m = some e.2) ∧
      (∀ (i : Nat) e, params[i]? = some e → (∀ d ∈ p, (d.1 == e.1) = false) → m[i]? = some e) ∧
      w'.envs[w.envs.size]? = some { params := m, memo := ∅ } ∧
      ∀ (i : Nat) e, w.envs[i]? = some e → w'.envs[i]? = some e) ∧
    (∃ m, (do (← (Value.map p).send "merge" [.map q]).send "merge" [.map r]) = .ok (.map m) ∧
      (do (Value.map p).send "merge" [← (Value.map q).send "merge" [.map r]]) = .ok (.map m)) ∧
    ∃ m, (Value.map p).send "merge" [.map q] = .ok (.map m) ∧
      Gives (run s read cx vars (.map [.spread a, .spread b])) (· = .map m) ∧
      (s.builtIns = Value.send →
        (s.whitelistOf cx.home).permit (.map p) "merge" [.map q] = .ok "merge" →
        Gives (run s read cx vars (.method a "merge" [b])) (· = .map m)) ∧
      Gives (run s read cx vars (.call (.node target) [.spread a, .spread b]))
        (IsCall (target.ref cx.home cx.homeName) m) ∧
      Gives (run s read cx vars (.call (.call (.node target) [.spread a]) [.spread b]))
        (IsCall (target.ref cx.home cx.homeName) m) ∧
      Gives (run s read cx vars (.binary .add (.call (.node target) [.spread a]) b))
        (IsCall (target.ref cx.home cx.homeName) m) := by
  have hparams : (Value.map params).WellFormed := Value.wellFormed_call_iff.mp hc
  have called := gives_call target ha hp
  refine ⟨⟨Indexed.merge (Indexed.merge params p) q, ?_, ?_⟩, gives_create _ _,
    ⟨Indexed.merge params p, w.withEnv (Indexed.merge params p), run_create _ _ w, ?_, ?_, ?_, ?_⟩,
    ⟨Indexed.merge (Indexed.merge p q) r, rfl, ?_⟩,
    ⟨Indexed.merge p q, rfl, gives_map ha hb hp,
      fun methods ↦ gives_method methods ha hb, gives_call_spreads target ha hb hp,
      gives_call_call called hb hq, gives_sum called hb⟩⟩
  · refine (gives_create node _).bind ?_
    rintro _ ⟨env, rfl⟩
    exact gives_create node _
  · rw [Value.merge_merge hparams hp hq]
    exact gives_create node _
  · intro e he
    rw [Indexed.merge_eq]
    exact Ordered.get?_merge_of_mem Value.tellsApart_wellFormed (Value.wellFormed_keys hparams)
      (Value.wellFormed_keys hp) (Value.distinct_of_wellFormed hp)
      (by rw [Value.beq_eq_equal]; exact Value.equal_self e.1) he
  · intro i e here other
    rw [Indexed.merge_eq]
    exact Ordered.getElem?_merge_of_ne here other
  · exact Array.getElem?_push_size
  · intro i e here
    have bound : i < w.envs.size := (Array.getElem?_eq_some_iff.mp here).1
    change (w.envs.push _)[i]? = some e
    rw [Array.getElem?_push_lt bound, ← Array.getElem?_eq_getElem bound]
    exact here
  · rw [Value.merge_merge hp hq hr]
    rfl

end NodeCall

/-! ### A call with three parameters -/

namespace Order

open NodeCall (IsCall)

/-- What was ordered, and two changes that overlap. -/
def ordered : List (Value × Value) := [(.str "size", .int 1)]

@[inherit_doc ordered] def changed : List (Value × Value) :=
  [(.str "size", .int 2), (.str "colour", .str "red")]

@[inherit_doc ordered] def further : List (Value × Value) :=
  [(.str "colour", .str "blue"), (.str "gift", .bool true)]

theorem wellFormed_of_leaves {entries : List (Value × Value)}
    (distinct : Value.Distinct (entries.map Prod.fst))
    (leaves : ∀ e ∈ entries, e.1.Leaf ∧ e.2.Leaf) : (Value.map entries).WellFormed :=
  Value.every_of_map distinct fun e he ↦
    ⟨Value.wellFormed_of_leaf (leaves e he).1, Value.wellFormed_of_leaf (leaves e he).2⟩

theorem wellFormed_ordered : (Value.map ordered).WellFormed :=
  wellFormed_of_leaves (List.pairwise_singleton _ _) fun e he ↦ by
    rw [List.mem_singleton.mp he]
    exact ⟨⟨trivial, rfl⟩, trivial, rfl⟩

theorem wellFormed_changed : (Value.map changed).WellFormed :=
  wellFormed_of_leaves (List.pairwise_pair.mpr (by decide)) fun e he ↦ by
    rcases List.mem_pair.mp he with rfl | rfl <;> exact ⟨⟨trivial, rfl⟩, trivial, rfl⟩

theorem wellFormed_further : (Value.map further).WellFormed :=
  wellFormed_of_leaves (List.pairwise_pair.mpr (by decide)) fun e he ↦ by
    rcases List.mem_pair.mp he with rfl | rfl <;> exact ⟨⟨trivial, rfl⟩, trivial, rfl⟩

/-- The node that is called. -/
def node : NodeRef := ⟨0, 0, "M", "A"⟩

def setting : Setting Unit := ⟨{}, Host.bare, .standard, Value.send⟩

def read : Read (Eval Unit) := fun _ _ _ _ ↦ throw .exhausted

def context : Context := ⟨0, [], node, 0, "M"⟩

/-- All ways to change what was ordered twice agree, with the two changes as variables. -/
theorem changed_further :
    (Value.call 0 node ordered).WellFormed ∧ (Value.map changed).WellFormed ∧
      (Value.map further).WellFormed ∧
      (∃ m, Eval.Gives (do
          let c ← applyBinary read [] .add (.call 0 node ordered) (.map changed)
          applyBinary read [] .add c (.map further)) (IsCall node m) ∧
        Eval.Gives (applyBinary read [] .add (.call 0 node ordered)
          (.map (Indexed.merge changed further))) (IsCall node m)) ∧
      ∃ m, (Value.map changed).send "merge" [.map further] = .ok (.map m) ∧
        Eval.Gives (run setting read context [.map changed, .map further]
          (.method (.var 0) "merge" [.var 1])) (· = .map m) := by
  have hc : (Value.call 0 node ordered).WellFormed :=
    Value.wellFormed_call_iff.mpr wellFormed_ordered
  have permitted : (setting.whitelistOf context.home).permit (.map changed) "merge"
      [.map further] = .ok "merge" := by decide
  obtain ⟨twice, -, -, -, m, merged, -, method, -⟩ :=
    NodeCall.amending_acts setting read context [.map changed, .map further] (a := .var 0)
      (b := .var 1) hc wellFormed_changed wellFormed_further wellFormed_ordered
      (fun w ↦ ⟨_, w, rfl, rfl⟩) (fun w ↦ ⟨_, w, rfl, rfl⟩) (.own 0 "A") { host := () }
  exact ⟨hc, wellFormed_changed, wellFormed_further, twice, m, merged, method rfl permitted⟩

end Order

end Formulary
