import Formulary.Proofs.WellFormed
import Formulary.Value.Lookup

/-!
# Laws of equality

Equality of well-formed values is an equivalence, and it is told what it compares
(`Value.Same`): collections but for lists up to order, calls, nodes and foreign objects by their
identity. Equal values are hashed by the same data, and so is a text that is a key in place of the
string. `Value.equality_lawful` is the theorem on which all look-up in sets and maps rests.
-/

namespace Formulary.Value

/-! ### Arrangements -/

section

variable {α : Type} {R : α → α → Prop} {as bs : List α}

/-- Some others are, in some order, partners of these. -/
def Arranged (R : α → α → Prop) (as bs : List α) : Prop :=
  ∃ cs : List α, cs.Perm bs ∧ List.Forall₂ R as cs

/-- Looking for each thing among as many others is enough to arrange them. -/
theorem arranged_iff (apart : as.Pairwise fun a a' ↦ ¬ R a a')
    (symm : ∀ a ∈ as, ∀ b ∈ bs, R a b → R b a)
    (trans : ∀ a ∈ as, ∀ b ∈ bs, ∀ a' ∈ as, R a b → R b a' → R a a') :
    (as.length = bs.length ∧ ∀ a ∈ as, ∃ b ∈ bs, R a b) ↔ Arranged R as bs := by
  constructor
  · rintro ⟨size, each⟩
    exact exists_arranged size (partners_apart apart symm trans) each
  · rintro ⟨cs, perm, same⟩
    refine ⟨same.length_eq.trans perm.length_eq, fun a ha ↦ ?_⟩
    obtain ⟨b, hb, h⟩ := exists_of_forall₂ same.flip a ha
    exact ⟨b, perm.mem_iff.mp hb, h⟩

end

/-! ### What is compared -/

/-- What it takes for two values to be equal: the same content, item by item in lists and up to
order in sets, maps and records; the same bits in floating-point numbers; being one and the same
for calls, nodes and foreign objects; and for classes the name. -/
def Same : Value → Value → Prop
  | nil, nil => True
  | bool a, bool b => a = b
  | int a, int b => a = b
  | float a, float b => a.bits = b.bits
  | str a, str b => a = b
  | symbol a, symbol b => a = b
  | list as, list bs => List.Forall₂ (fun a b ↦ equal a b = true) as bs
  | set as, set bs => Arranged (fun a b ↦ equal a b = true) as bs
  | map as, map bs => Arranged SameEntry as bs
  | record t as, record u bs => t = u ∧ Arranged SameField as bs
  | call a _ _, call b _ _ => a = b
  | node a, node b => a.module = b.module ∧ a.index = b.index
  | hostClass a, hostClass b => a = b
  | foreign a _, foreign b _ => a = b
  | _, _ => False

section

variable {as bs : List Value} {ds es : List (Value × Value)} {fs gs : List (String × Value)}

theorem arranged_set_iff (ha : (set as).WellFormed) (hb : (set bs).WellFormed) :
    (as.length = bs.length ∧ ∀ a ∈ as, ∃ b ∈ bs, equal a b = true) ↔
      Arranged (fun a b ↦ equal a b = true) as bs := by
  apply arranged_iff
  · exact List.Pairwise.imp (fun h ↦ by simp [← beq_eq_equal, h.1]) ha.self
  · exact fun a h b h' ↦ (lawful a).symm (ha.member a h) (hb.member b h')
  · exact fun a h b h' a' h'' ↦
      (lawful a).trans (ha.member a h) (hb.member b h') (ha.member a' h'')

theorem arranged_map_iff (hd : (map ds).WellFormed) (he : (map es).WellFormed) :
    (ds.length = es.length ∧ ∀ d ∈ ds, ∃ e ∈ es, SameEntry d e) ↔ Arranged SameEntry ds es := by
  apply arranged_iff
  · refine (List.pairwise_map.mp hd.self).imp fun h same ↦ ?_
    rw [beq_eq_equal, same.1] at h
    cases h.1
  · exact fun d h e h' ⟨k, v⟩ ↦ ⟨(lawful d.1).symm (hd.entry d h).1 (he.entry e h').1 k,
      (lawful d.2).symm (hd.entry d h).2 (he.entry e h').2 v⟩
  · exact fun d h e h' d' h'' ⟨k, v⟩ ⟨k', v'⟩ ↦
      ⟨(lawful d.1).trans (hd.entry d h).1 (he.entry e h').1 (hd.entry d' h'').1 k k',
        (lawful d.2).trans (hd.entry d h).2 (he.entry e h').2 (hd.entry d' h'').2 v v'⟩

theorem arranged_record_iff {t u : String} (hf : (record t fs).WellFormed)
    (hg : (record u gs).WellFormed) :
    (fs.length = gs.length ∧ ∀ f ∈ fs, ∃ g ∈ gs, SameField f g) ↔ Arranged SameField fs gs := by
  apply arranged_iff
  · exact (List.pairwise_map.mp hf.self).imp fun h same ↦ h same.1
  · exact fun f h g h' ⟨n, v⟩ ↦ ⟨n.symm, (lawful f.2).symm (hf.field f h) (hg.field g h') v⟩
  · exact fun f h g h' f' h'' ⟨n, v⟩ ⟨n', v'⟩ ↦ ⟨n.trans n',
      (lawful f.2).trans (hf.field f h) (hg.field g h') (hf.field f' h'') v v'⟩

end

/-- Equality of well-formed values compares this. -/
theorem equal_iff_same {a b : Value} (ha : a.WellFormed) (hb : b.WellFormed) :
    equal a b = true ↔ Same a b := by
  cases a with
  | list as => cases b <;> simp only [equal, equalItems_iff, Same, Bool.false_eq_true]
  | set as =>
    cases b <;> simp only [equal, itemsIn_iff, Bool.and_eq_true, beq_iff_eq, Same,
      Bool.false_eq_true]
    exact arranged_set_iff ha hb
  | map ds =>
    cases b <;> simp only [equal, entriesIn_iff, Bool.and_eq_true, beq_iff_eq, Same,
      Bool.false_eq_true]
    exact arranged_map_iff ha hb
  | record t fs =>
    cases b <;> simp only [equal, fieldsIn_iff, Bool.and_eq_true, beq_iff_eq, Same,
      Bool.false_eq_true]
    rw [and_assoc, arranged_record_iff ha hb]
  | float x =>
    cases b <;> simp only [equal, beq_iff_eq, Same, Bool.false_eq_true]
    exact Binary64.mk.injEq x.bits _ ▸ Iff.rfl
  | _ =>
    cases b <;> simp only [equal, NodeRef.same, Bool.and_eq_true, beq_iff_eq, Same,
      Bool.false_eq_true]

/-- Equality is an equivalence that hashing respects.

On well-formed values equality is reflexive, for a NaN too, symmetric and transitive, and it
compares what `Same` says: sets, maps and records regardless of order, calls, nodes and foreign
objects by identity, and classes by name. Equal values are hashed by the same data, which is all
that their codes are mixed from. A text as a key fits just the values that the string equals, and is
hashed as they are. -/
theorem equality_lawful {a b c : Value} (ha : a.WellFormed) (hb : b.WellFormed)
    (hc : c.WellFormed) :
    (a == a) = true ∧ ((a == b) = true → (b == a) = true) ∧
      ((a == b) = true → (b == c) = true → (a == c) = true) ∧
      ((a == b) = true ↔ Same a b) ∧
      ((a == b) = true → a.hashed = b.hashed) ∧ a.hashCode = a.hashed.digest ∧
      ∀ key : TextKey, (key.fits a = true ↔ (str key.text == a) = true) ∧
        ((str key.text == a) = true → key.hashed = a.hashed) := by
  refine ⟨beq_self_eq_true a, ?_, equal_trans ha hb hc, ?_, ?_, hashCode_eq_digest a,
    fun key ↦ ⟨by rw [key.fits_eq], fun h ↦ ?_⟩⟩
  · rw [equal_symm ha hb]
    exact id
  · rw [beq_eq_equal]
    exact equal_iff_same ha hb
  · rw [beq_eq_equal]
    exact hashed_eq_of_equal a b
  · rw [← key.fits_eq] at h
    exact (TextKey.hashed_eq_of_fits h).symm

end Formulary.Value

/-! ### A set in two orders -/

namespace Formulary.Shuffled

/-- Two entries whose keys have the same text. -/
def entries : List (Value × Value) := [(.str "k", .int 1), (.symbol "k", .nil)]

/-- A set with a NaN in it and a map. -/
def bag : Value := .set [.float .nan, .map entries]

/-- The set the other way round, and the map in it. -/
def turned : Value := .set [.map entries.reverse, .float .nan]

theorem wellFormed_entries : (Value.map entries).WellFormed := by
  have leaf : ∀ {v : Value}, v.Leaf → v.WellFormed := Value.wellFormed_of_leaf
  refine Value.every_of_map (List.pairwise_pair.mpr (by decide)) fun e he ↦ ?_
  rcases List.mem_pair.mp he with rfl | rfl <;> exact ⟨leaf ⟨trivial, rfl⟩, leaf ⟨trivial, rfl⟩⟩

theorem wellFormed_reverse : (Value.map entries.reverse).WellFormed := by
  refine Value.every_of_map (List.pairwise_pair.mpr (by decide)) fun e he ↦ ?_
  exact wellFormed_entries.entry e (List.mem_reverse.mp he)

theorem wellFormed_bag : bag.WellFormed := by
  refine Value.every_of_set (List.pairwise_pair.mpr (by decide)) fun v hv ↦ ?_
  rcases List.mem_pair.mp hv with rfl | rfl
  · exact Value.wellFormed_of_leaf ⟨trivial, rfl⟩
  · exact wellFormed_entries

theorem wellFormed_turned : turned.WellFormed := by
  refine Value.every_of_set (List.pairwise_pair.mpr (by decide)) fun v hv ↦ ?_
  rcases List.mem_pair.mp hv with rfl | rfl
  · exact wellFormed_reverse
  · exact Value.wellFormed_of_leaf ⟨trivial, rfl⟩

/-- The two sets are equal, both ways, and are hashed by the same data. -/
theorem turned_equal :
    bag.WellFormed ∧ turned.WellFormed ∧ Value.Same bag turned ∧ (turned == bag) = true ∧
      (bag == bag) = true ∧ bag.hashed = turned.hashed := by
  have laws := Value.equality_lawful wellFormed_bag wellFormed_turned wellFormed_bag
  have equal : (bag == turned) = true := by
    rw [Value.beq_eq_equal]
    decide
  obtain ⟨-, symm, trans, same, hashed, -⟩ := laws
  exact ⟨wellFormed_bag, wellFormed_turned, same.mp equal, symm equal, trans equal (symm equal),
    hashed equal⟩

end Formulary.Shuffled
