import Formulary.Proofs.MadeOf
import Mathlib.Data.List.Forall2

/-!
# Equality of well-formed values

A value is well-formed if no collection in it, at any depth, has an element, a key or a field twice
(`Value.WellFormed`). Sets, maps and records are compared by looking up the parts of the one in the
other, which by itself is a relation with a direction. Among well-formed values it is symmetric and
transitive (`Value.equal_symm`, `Value.equal_trans`): two collections of the same size, each part of
the first having its own partner in the second, leave no part of the second without one.
-/

namespace Formulary

/-! ### Partners -/

section

variable {α β : Type} {as : List α} {bs : List β}

/-- If each of some things has a partner among others, and no two have the same one, then their
partners are some of the others. -/
theorem exists_partners {R : α → β → Prop}
    (apart : as.Pairwise fun a a' ↦ ∀ b ∈ bs, R a b → ¬ R a' b)
    (each : ∀ a ∈ as, ∃ b ∈ bs, R a b) : ∃ cs : List β, cs.Subperm bs ∧ List.Forall₂ R as cs := by
  induction as generalizing bs with
  | nil => exact ⟨[], List.nil_subperm, .nil⟩
  | cons a as ih =>
    obtain ⟨first, later⟩ := List.pairwise_cons.mp apart
    obtain ⟨b₀, hb₀, h₀⟩ := each a List.mem_cons_self
    obtain ⟨before, after, rfl⟩ := List.append_of_mem hb₀
    -- The others find their partners among those that are left when `b₀` is taken away.
    have rest : ∃ cs : List β, cs.Subperm (before ++ after) ∧ List.Forall₂ R as cs :=
      ih (later.imp fun h b hb ↦ h b (by simp at hb ⊢; tauto)) fun a' ha' ↦ by
        obtain ⟨b, hb, h⟩ := each a' (List.mem_cons_of_mem _ ha')
        have other : b ≠ b₀ := fun same ↦ first a' ha' b₀ hb₀ h₀ (same ▸ h)
        exact ⟨b, by simp at hb ⊢; tauto, h⟩
    obtain ⟨cs, sub, same⟩ := rest
    have whole := ((List.subperm_cons b₀).mpr sub).trans List.perm_middle.symm.subperm
    exact ⟨b₀ :: cs, whole, .cons h₀ same⟩

/-- If there are no more others than things, then the others can be arranged like the partners. -/
theorem exists_arranged {R : α → β → Prop} (size : as.length = bs.length)
    (apart : as.Pairwise fun a a' ↦ ∀ b ∈ bs, R a b → ¬ R a' b)
    (each : ∀ a ∈ as, ∃ b ∈ bs, R a b) : ∃ cs : List β, cs.Perm bs ∧ List.Forall₂ R as cs := by
  obtain ⟨cs, sub, same⟩ := exists_partners apart each
  exact ⟨cs, sub.perm_of_length_le (size.symm.trans same.length_eq).le, same⟩

theorem exists_of_forall₂ {R : α → β → Prop} (h : List.Forall₂ R as bs) :
    ∀ b ∈ bs, ∃ a ∈ as, R a b := by
  induction h with
  | nil => exact List.forall_mem_nil _
  | @cons a b as bs here _ ih =>
    refine List.forall_mem_cons.mpr ⟨⟨a, List.mem_cons_self, here⟩, fun b' hb' ↦ ?_⟩
    obtain ⟨a', ha', h⟩ := ih b' hb'
    exact ⟨a', List.mem_cons_of_mem _ ha', h⟩

/-- Things that are told apart by a relation have partners of their own. -/
theorem partners_apart {R : α → α → Prop} {as bs : List α} (apart : as.Pairwise fun a a' ↦ ¬ R a a')
    (symm : ∀ a ∈ as, ∀ b ∈ bs, R a b → R b a)
    (trans : ∀ a ∈ as, ∀ b ∈ bs, ∀ a' ∈ as, R a b → R b a' → R a a') :
    as.Pairwise fun a a' ↦ ∀ b ∈ bs, R a b → ¬ R a' b :=
  apart.imp_of_mem fun ha ha' h b hb hab ha'b ↦
    h (trans _ ha b hb _ ha' hab (symm _ ha' b hb ha'b))

/-- Things that are told apart by a relation, and all have partners among as many others, are
partners of these. -/
theorem partners_symm {R : α → α → Prop} {as bs : List α} (size : as.length = bs.length)
    (apart : as.Pairwise fun a a' ↦ ¬ R a a') (symm : ∀ a ∈ as, ∀ b ∈ bs, R a b → R b a)
    (trans : ∀ a ∈ as, ∀ b ∈ bs, ∀ a' ∈ as, R a b → R b a' → R a a')
    (each : ∀ a ∈ as, ∃ b ∈ bs, R a b) : ∀ b ∈ bs, ∃ a ∈ as, R b a := by
  obtain ⟨cs, perm, arranged⟩ := exists_arranged size (partners_apart apart symm trans) each
  intro b hb
  obtain ⟨a, ha, h⟩ := exists_of_forall₂ arranged b (perm.mem_iff.mpr hb)
  exact ⟨a, ha, symm a ha b hb h⟩

theorem partners_trans {R : α → α → Prop} {as bs cs : List α}
    (trans : ∀ a ∈ as, ∀ b ∈ bs, ∀ c ∈ cs, R a b → R b c → R a c)
    (first : ∀ a ∈ as, ∃ b ∈ bs, R a b) (second : ∀ b ∈ bs, ∃ c ∈ cs, R b c) :
    ∀ a ∈ as, ∃ c ∈ cs, R a c := by
  intro a ha
  obtain ⟨b, hb, hab⟩ := first a ha
  obtain ⟨c, hc, hbc⟩ := second b hb
  exact ⟨c, hc, trans a ha b hb c hc hab hbc⟩

theorem itemwise_trans {R : α → α → Prop} {as bs cs : List α}
    (trans : ∀ a ∈ as, ∀ b ∈ bs, ∀ c ∈ cs, R a b → R b c → R a c)
    (first : List.Forall₂ R as bs) (second : List.Forall₂ R bs cs) : List.Forall₂ R as cs := by
  induction first generalizing cs with
  | nil => exact second
  | cons here _ ih =>
    cases second with
    | cons here' later =>
      refine .cons (trans _ (by simp) _ (by simp) _ (by simp) here here') (ih ?_ later)
      exact fun a ha b hb c hc ↦
        trans a (List.mem_cons_of_mem _ ha) b (List.mem_cons_of_mem _ hb) c
          (List.mem_cons_of_mem _ hc)

end

namespace Value

/-! ### What equality compares -/

theorem equalItems_iff {as bs : List Value} :
    equalItems as bs = true ↔ List.Forall₂ (fun a b ↦ equal a b = true) as bs := by
  induction as generalizing bs with
  | nil => cases bs <;> simp [equalItems]
  | cons a as ih => cases bs <;> simp [equalItems, ih]

theorem itemsIn_iff {as bs : List Value} :
    itemsIn as bs = true ↔ ∀ a ∈ as, ∃ b ∈ bs, equal a b = true := by
  induction as with
  | nil => simp [itemsIn]
  | cons a as ih => simp [itemsIn, ih]

/-- Two entries have equal keys and equal values. -/
def SameEntry (e d : Value × Value) : Prop := equal e.1 d.1 = true ∧ equal e.2 d.2 = true

theorem entriesIn_iff {as bs : List (Value × Value)} :
    entriesIn as bs = true ↔ ∀ a ∈ as, ∃ b ∈ bs, SameEntry a b := by
  induction as with
  | nil => simp [entriesIn]
  | cons a as ih => simp [entriesIn, ih, SameEntry]

/-- Two fields have the same name and equal values. -/
def SameField (e d : String × Value) : Prop := e.1 = d.1 ∧ equal e.2 d.2 = true

theorem fieldsIn_iff {as bs : List (String × Value)} :
    fieldsIn as bs = true ↔ ∀ a ∈ as, ∃ b ∈ bs, SameField a b := by
  induction as with
  | nil => simp [fieldsIn]
  | cons a as ih => simp [fieldsIn, ih, SameField]

theorem equal_list_iff {as : List Value} {v : Value} : equal (list as) v = true ↔
    ∃ bs, v = list bs ∧ List.Forall₂ (fun a b ↦ equal a b = true) as bs := by
  cases v <;> simp [equal, equalItems_iff]

theorem equal_set_iff {as : List Value} {v : Value} : equal (set as) v = true ↔
    ∃ bs, v = set bs ∧ as.length = bs.length ∧ ∀ a ∈ as, ∃ b ∈ bs, equal a b = true := by
  cases v <;> simp [equal, itemsIn_iff]

theorem equal_map_iff {as : List (Value × Value)} {v : Value} : equal (map as) v = true ↔
    ∃ bs, v = map bs ∧ as.length = bs.length ∧ ∀ a ∈ as, ∃ b ∈ bs, SameEntry a b := by
  cases v <;> simp [equal, entriesIn_iff]

theorem equal_record_iff {type : String} {as : List (String × Value)} {v : Value} :
    equal (record type as) v = true ↔
      ∃ bs, v = record type bs ∧ as.length = bs.length ∧ ∀ a ∈ as, ∃ b ∈ bs, SameField a b := by
  cases v <;> simp [equal, fieldsIn_iff, and_assoc]
  tauto

/-- Values other than lists, sets, maps and records, which are compared as a whole. -/
def Whole : Value → Prop
  | list _ | set _ | map _ | record _ _ => False
  | _ => True

/-- What a value that is compared as a whole equals can stand in its place. -/
theorem Whole.equal_congr {a b : Value} (ha : a.Whole) (h : equal a b = true) (c : Value) :
    equal b c = equal a c := by
  cases a with
  | list _ | set _ | map _ | record _ _ => exact ha.elim
  | nil | bool _ | int _ | float _ | str _ | symbol _ | hostClass _ =>
    cases b <;> simp [equal] at h
    first | rw [h] | rfl
  | call _ _ _ | foreign _ _ =>
    cases b <;> simp [equal] at h
    cases c <;> simp [equal, h]
  | node _ =>
    cases b <;> simp [equal, NodeRef.same] at h
    cases c <;> simp [equal, NodeRef.same, h]

/-! ### Well-formed values -/

/-- No two values are equal. -/
def Distinct (xs : List Value) : Prop :=
  xs.Pairwise fun a b ↦ (a == b) = false ∧ (b == a) = false

/-- A collection has no element, no key and no field twice. -/
def Proper : Value → Prop
  | set items => Distinct items
  | map entries | call _ _ entries => Distinct (entries.map Prod.fst)
  | record _ fields => (fields.map Prod.fst).Nodup
  | _ => True

/-- No collection in a value, at any depth, has an element, a key or a field twice. -/
def WellFormed : Value → Prop := Every Proper

/-- Equality with a value is symmetric and transitive. -/
structure Lawful (a : Value) : Prop where
  symm : ∀ {b}, a.WellFormed → b.WellFormed → equal a b = true → equal b a = true
  trans : ∀ {b c}, a.WellFormed → b.WellFormed → c.WellFormed → equal a b = true →
    equal b c = true → equal a c = true

theorem lawful_of_whole {a : Value} (ha : a.Whole) : Lawful a where
  symm _ _ h := by
    rw [ha.equal_congr h]
    exact equal_self a
  trans _ _ _ h h' := by rwa [ha.equal_congr h] at h'

theorem lawful_list {as : List Value} (ih : ∀ a ∈ as, Lawful a) : Lawful (list as) where
  symm {b} ha hb h := by
    obtain ⟨bs, rfl, each⟩ := equal_list_iff.mp h
    have swapped : List.Forall₂ (fun a b ↦ equal b a = true) as bs :=
      List.forall₂_iff_zip.mpr ⟨each.length_eq, fun {a b} hab ↦ by
        obtain ⟨ha', hb'⟩ := List.of_mem_zip hab
        exact (ih a ha').symm (ha.item a ha') (hb.item b hb') (List.forall₂_zip each hab)⟩
    exact equal_list_iff.mpr ⟨as, rfl, swapped.flip⟩
  trans {b c} ha hb hc h h' := by
    obtain ⟨bs, rfl, each⟩ := equal_list_iff.mp h
    obtain ⟨cs, rfl, each'⟩ := equal_list_iff.mp h'
    exact equal_list_iff.mpr ⟨cs, rfl, itemwise_trans
      (fun a h b h' c h'' ↦ (ih a h).trans (ha.item a h) (hb.item b h') (hc.item c h'')) each each'⟩

theorem lawful_set {as : List Value} (ih : ∀ a ∈ as, Lawful a) : Lawful (set as) where
  symm ha hb h := by
    obtain ⟨bs, rfl, size, h⟩ := equal_set_iff.mp h
    refine equal_set_iff.mpr ⟨as, rfl, size.symm, ?_⟩
    have apart : as.Pairwise fun a a' ↦ ¬ equal a a' = true :=
      List.Pairwise.imp (fun h ↦ by simp [← beq_eq_equal, h.1]) ha.self
    exact partners_symm size apart
      (fun a h b h' ↦ (ih a h).symm (ha.member a h) (hb.member b h'))
      (fun a h b h' a' h'' ↦ (ih a h).trans (ha.member a h) (hb.member b h') (ha.member a' h'')) h
  trans ha hb hc h h' := by
    obtain ⟨bs, rfl, size, h⟩ := equal_set_iff.mp h
    obtain ⟨cs, rfl, size', h'⟩ := equal_set_iff.mp h'
    exact equal_set_iff.mpr ⟨cs, rfl, size.trans size', partners_trans
      (fun a h b h' c h'' ↦ (ih a h).trans (ha.member a h) (hb.member b h') (hc.member c h''))
      h h'⟩

theorem lawful_map {as : List (Value × Value)} (ih : ∀ a ∈ as, BothOf Lawful a) :
    Lawful (map as) where
  symm ha hb h := by
    obtain ⟨bs, rfl, size, h⟩ := equal_map_iff.mp h
    refine equal_map_iff.mpr ⟨as, rfl, size.symm, ?_⟩
    have apart : as.Pairwise fun a a' ↦ ¬ SameEntry a a' :=
      (List.pairwise_map.mp ha.self).imp fun h same ↦ by
        rw [beq_eq_equal, same.1] at h
        cases h.1
    exact partners_symm size apart
      (fun a h b h' ⟨k, v⟩ ↦ ⟨(ih a h).1.symm (ha.entry a h).1 (hb.entry b h').1 k,
        (ih a h).2.symm (ha.entry a h).2 (hb.entry b h').2 v⟩)
      (fun a h b h' a' h'' ⟨k, v⟩ ⟨k', v'⟩ ↦
        ⟨(ih a h).1.trans (ha.entry a h).1 (hb.entry b h').1 (ha.entry a' h'').1 k k',
          (ih a h).2.trans (ha.entry a h).2 (hb.entry b h').2 (ha.entry a' h'').2 v v'⟩) h
  trans ha hb hc h h' := by
    obtain ⟨bs, rfl, size, h⟩ := equal_map_iff.mp h
    obtain ⟨cs, rfl, size', h'⟩ := equal_map_iff.mp h'
    exact equal_map_iff.mpr ⟨cs, rfl, size.trans size', partners_trans
      (fun a h b h' c h'' ⟨k, v⟩ ⟨k', v'⟩ ↦
        ⟨(ih a h).1.trans (ha.entry a h).1 (hb.entry b h').1 (hc.entry c h'').1 k k',
          (ih a h).2.trans (ha.entry a h).2 (hb.entry b h').2 (hc.entry c h'').2 v v'⟩) h h'⟩

theorem Every.field {p : Value → Prop} {type : String} {fields : List (String × Value)}
    (h : (record type fields).Every p) : ∀ e ∈ fields, e.2.Every p :=
  fun _ he ↦ h.part (List.mem_map_of_mem he)

theorem lawful_record {type : String} {as : List (String × Value)}
    (ih : ∀ a ∈ as, Lawful a.2) : Lawful (record type as) where
  symm ha hb h := by
    obtain ⟨bs, rfl, size, h⟩ := equal_record_iff.mp h
    refine equal_record_iff.mpr ⟨as, rfl, size.symm, ?_⟩
    have apart : as.Pairwise fun a a' ↦ ¬ SameField a a' :=
      (List.pairwise_map.mp ha.self).imp fun h same ↦ h same.1
    exact partners_symm size apart
      (fun a h b h' ⟨f, v⟩ ↦ ⟨f.symm, (ih a h).symm (ha.field a h) (hb.field b h') v⟩)
      (fun a h b h' a' h'' ⟨f, v⟩ ⟨f', v'⟩ ↦ ⟨f.trans f',
        (ih a h).trans (ha.field a h) (hb.field b h') (ha.field a' h'') v v'⟩) h
  trans ha hb hc h h' := by
    obtain ⟨bs, rfl, size, h⟩ := equal_record_iff.mp h
    obtain ⟨cs, rfl, size', h'⟩ := equal_record_iff.mp h'
    exact equal_record_iff.mpr ⟨cs, rfl, size.trans size', partners_trans
      (fun a h b h' c h'' ⟨f, v⟩ ⟨f', v'⟩ ↦ ⟨f.trans f',
        (ih a h).trans (ha.field a h) (hb.field b h') (hc.field c h'') v v'⟩) h h'⟩

/-- The two laws are proved together: that no two elements have the same partner rests on both. -/
theorem lawful (a : Value) : Lawful a := by
  induction a using parts_induction with
  | step a ih =>
    cases a with
    | list items => exact lawful_list ih
    | set items => exact lawful_set ih
    | map entries => exact lawful_map (bothOf_of_parts ih)
    | record type fields => exact lawful_record fun e he ↦ ih _ (List.mem_map_of_mem he)
    | _ => exact lawful_of_whole trivial

/-- Of two well-formed values either equals the other or none does. -/
theorem equal_symm {a b : Value} (ha : a.WellFormed) (hb : b.WellFormed) : (a == b) = (b == a) := by
  rw [beq_eq_equal, beq_eq_equal, Bool.eq_iff_iff]
  exact ⟨(lawful a).symm ha hb, (lawful b).symm hb ha⟩

theorem equal_trans {a b c : Value} (ha : a.WellFormed) (hb : b.WellFormed) (hc : c.WellFormed)
    (h : (a == b) = true) (h' : (b == c) = true) : (a == c) = true := by
  rw [beq_eq_equal] at h h' ⊢
  exact (lawful a).trans ha hb hc h h'

end Value

end Formulary
