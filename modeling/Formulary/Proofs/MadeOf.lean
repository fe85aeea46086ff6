import Formulary.Method
import Formulary.Proofs.Congruence
import Formulary.Proofs.Members
import Formulary.Proofs.Arranging
import Formulary.Scope.Lower

/-!
# What values are made of

Values are built by operations out of parts that were there before. So if everything in the operands
is of some kind, at any depth, and if collections that are put together from others are of that kind
(`Value.Formed`), then everything in the result is (`Value.Formed.operationsKeep`,
`Value.Formed.every_send`). In particular, what no operand has in it the result has not, as far as
nodes and node calls go (`Value.operationsKeep_every`, `Value.every_send`).
-/

namespace Formulary

namespace Value

/-- The values that a value is directly made of. -/
def parts : Value → List Value
  | list items | set items => items
  | map entries | call _ _ entries => entries.flatMap fun e ↦ [e.1, e.2]
  | record _ fields => fields.map Prod.snd
  | _ => []

/-- A value is in another one, at some depth. -/
inductive Within (u : Value) : Value → Prop where
  | here : Within u u
  | part {v w : Value} (h : w ∈ v.parts) (rest : Within u w) : Within u v

/-- Everything in a value, itself included, is of some kind. -/
def Every (p : Value → Prop) (v : Value) : Prop := ∀ u, u.Within v → p u

/-- Values other than nodes and node calls. -/
def Ordinary : Value → Prop
  | call _ _ _ | node _ => False
  | _ => True

/-- Values with nothing in them, other than nodes and node calls. -/
def Leaf (v : Value) : Prop := v.Ordinary ∧ v.parts = []

theorem leaf_literal (l : Literal) : l.value.Leaf := by
  cases l <;> exact ⟨trivial, rfl⟩

section

variable {p : Value → Prop} {v : Value}

theorem every_iff : v.Every p ↔ p v ∧ ∀ w ∈ v.parts, w.Every p := by
  constructor
  · intro h
    exact ⟨h v .here, fun w hw u hu ↦ h u (.part hw hu)⟩
  · rintro ⟨self, parts⟩ u hu
    cases hu with
    | here => exact self
    | part hw rest => exact parts _ hw u rest

theorem Every.self (h : v.Every p) : p v := h v .here

theorem Every.part {w : Value} (h : v.Every p) (hw : w ∈ v.parts) : w.Every p :=
  (every_iff.mp h).2 w hw

theorem Every.item {items : List Value} (h : (list items).Every p) : ∀ w ∈ items, w.Every p :=
  fun _ hw ↦ h.part hw

theorem Every.member {items : List Value} (h : (set items).Every p) : ∀ w ∈ items, w.Every p :=
  fun _ hw ↦ h.part hw

/-- The parts of a map are its keys and their values. -/
theorem bothOf_of_parts {entries : List (Value × Value)} (h : ∀ w ∈ (map entries).parts, p w) :
    ∀ e ∈ entries, BothOf p e := by
  intro e he
  exact ⟨h e.1 (List.mem_flatMap.mpr ⟨e, he, by simp⟩),
    h e.2 (List.mem_flatMap.mpr ⟨e, he, by simp⟩)⟩

theorem Every.entry {entries : List (Value × Value)} (h : (map entries).Every p) :
    ∀ e ∈ entries, BothOf (Every p) e :=
  bothOf_of_parts fun _ hw ↦ h.part hw

theorem sizeOf_lt_of_mem_parts {v w : Value} (h : w ∈ v.parts) : sizeOf w < sizeOf v := by
  cases v with
  | list items | set items =>
    have : sizeOf w < sizeOf items := List.sizeOf_lt_of_mem h
    simp
    omega
  | map entries | call _ _ entries =>
    obtain ⟨e, he, hw⟩ := List.mem_flatMap.mp h
    have := List.sizeOf_lt_of_mem he
    obtain ⟨k, u⟩ := e
    rcases List.mem_pair.mp hw with rfl | rfl <;> simp at this ⊢ <;> omega
  | record _ fields =>
    obtain ⟨e, he, rfl⟩ := List.mem_map.mp h
    have := List.sizeOf_lt_of_mem he
    obtain ⟨f, u⟩ := e
    simp at this ⊢
    omega
  | _ => cases h

/-- What holds of a value if it holds of its parts holds of all values. -/
theorem parts_induction {P : Value → Prop} (step : ∀ v, (∀ w ∈ v.parts, P w) → P v) (v : Value) :
    P v :=
  step v fun w _ ↦ parts_induction step w
termination_by sizeOf v
decreasing_by exact sizeOf_lt_of_mem_parts ‹_›

/-! ### Readings -/

theorem every_get? {a key v : Value} (ha : a.Every p) (h : a.get? key = some v) : v.Every p := by
  cases a with
  | map entries =>
    rw [get?_map] at h
    obtain ⟨e, he, rfl⟩ := Ordered.mem_of_get?_eq_some h
    exact (ha.entry e he).2
  | _ => cases h

theorem every_lookup? {a key v : Value} (ha : a.Every p) (h : a.lookup? key = some v) :
    v.Every p := by
  unfold lookup? at h
  split at h
  · next found =>
    cases h
    exact every_get? ha found
  · split at h
    · exact every_get? ha h
    · cases h

theorem every_field? {a v : Value} {name : String} (ha : a.Every p) (h : a.field? name = some v) :
    v.Every p := by
  cases a with
  | record type fields =>
    rw [field?_record] at h
    obtain ⟨before, after, rfl, -⟩ := List.lookup_eq_some_iff.mp h
    exact ha.part (List.mem_map.mpr ⟨(name, v), by simp, rfl⟩)
  | _ => cases h

theorem every_bindItem {pair : Bool} {a : Value} {vars : List Value} (ha : a.Every p)
    (h : bindItem pair a = .ok vars) : ∀ v ∈ vars, v.Every p := by
  unfold bindItem at h
  split at h
  · split at h
    · cases h
      intro v hv
      rcases List.mem_pair.mp hv with rfl | rfl
      · exact ha.item _ (by simp)
      · exact ha.item _ (by simp)
    · cases h
  · cases h
    intro v hv
    rw [List.mem_singleton.mp hv]
    exact ha

theorem every_spreadEntries {a : Value} {entries : List (Value × Value)} (ha : a.Every p)
    (h : spreadEntries a = .ok entries) : ∀ e ∈ entries, BothOf (Every p) e := by
  unfold spreadEntries at h
  split at h
  · cases h
    exact ha.entry
  · cases h
    intro e he
    cases he
  · cases h

theorem every_extreme {operation : String} {beats : Ordering} {items : List Value} {v : Value}
    (hi : ∀ v ∈ items, v.Every p) (nil : Value.nil.Every p)
    (h : Method.extreme operation beats items = .ok v) : v.Every p := by
  cases items with
  | nil =>
    cases h
    exact nil
  | cons x xs =>
    obtain ⟨hx, hxs⟩ := List.forall_mem_cons.mp hi
    rw [Method.extreme] at h
    clear hi
    induction xs generalizing x with
    | nil =>
      cases h
      exact hx
    | cons y xs ih =>
      obtain ⟨hy, hxs⟩ := List.forall_mem_cons.mp hxs
      rw [List.foldlM_cons] at h
      obtain ⟨best, hbest, h⟩ := bind_eq_ok h
      obtain ⟨o, -, hbest⟩ := bind_eq_ok hbest
      cases hbest
      refine ih _ h ?_ hxs
      split
      · exact hy
      · exact hx

mutual

theorem every_flattenValue : ∀ v : Value, v.Every p → ∀ w ∈ Method.flattenValue v, w.Every p
  | .list items, h => by
    rw [Method.flattenValue]
    exact every_flattenItems items h.item
  | .nil, h | .bool _, h | .int _, h | .float _, h | .str _, h | .symbol _, h | .set _, h
  | .map _, h | .record _ _, h | .call _ _ _, h | .node _, h | .hostClass _, h
  | .foreign _ _, h => by
    rw [Method.flattenValue]
    · intro w hw
      rw [List.mem_singleton.mp hw]
      exact h
    · intro items he
      cases he

theorem every_flattenItems : ∀ items : List Value, (∀ v ∈ items, v.Every p) →
    ∀ w ∈ Method.flattenItems items, w.Every p
  | [], _ => by
    rw [Method.flattenItems]
    intro w hw
    cases hw
  | v :: vs, h => by
    obtain ⟨hv, hvs⟩ := List.forall_mem_cons.mp h
    rw [Method.flattenItems]
    exact List.forall_mem_append.mpr ⟨every_flattenValue v hv, every_flattenItems vs hvs⟩

end

theorem every_sortItems {items sorted : List Value} (hi : ∀ v ∈ items, v.Every p)
    (h : Method.sortItems items = .ok sorted) : ∀ v ∈ sorted, v.Every p :=
  fun v hv ↦ hi v ((Method.perm_of_sortItems h).mem_iff.mp hv)

theorem every_fetchItem {items args : List Value} {v : Value} (hi : ∀ v ∈ items, v.Every p)
    (ha : ∀ v ∈ args, v.Every p) (h : Method.fetchItem (.list items) args = .ok v) :
    v.Every p := by
  unfold Method.fetchItem at h
  dsimp only at h
  split at h
  · next found =>
    cases h
    obtain ⟨i, -, found⟩ := Option.bind_eq_some_iff.mp found
    obtain ⟨position, -, found⟩ := Option.bind_eq_some_iff.mp found
    rw [item?_list] at found
    exact hi _ (List.mem_of_getElem? found)
  · cases h
    exact ha _ (by simp)
  · cases h

theorem every_fetchEntry {map v : Value} {args : List Value} (hm : map.Every p)
    (ha : ∀ v ∈ args, v.Every p) (h : Method.fetchEntry map args = .ok v) : v.Every p := by
  unfold Method.fetchEntry at h
  split at h
  · next found =>
    cases h
    exact every_lookup? hm found
  · cases h
    exact ha _ (by simp)
  · cases h

end

/-! ### Kinds that collections are of -/

/-- A kind of values that lists are of, and values with nothing in them, and that the operations on
sets and maps do not leave. -/
structure Formed (p : Value → Prop) : Prop where
  leaf : ∀ {v}, v.Leaf → p v
  lists : ∀ items, p (list items)
  union : ∀ {xs ys}, (set xs).Every p → (∀ v ∈ ys, v.Every p) → p (set (Ordered.union xs ys))
  subset : ∀ {xs ys : List Value}, p (set ys) → xs.Sublist ys → p (set xs)
  merge : ∀ {entries extra}, (map entries).Every p → (∀ e ∈ extra, BothOf (Every p) e) →
    p (map (Ordered.merge entries extra))
  submap : ∀ {entries extra : List (Value × Value)}, p (map extra) → entries.Sublist extra →
    p (map entries)
  fault : ∀ f : Fault, p f.toValue

theorem every_of_set {p : Value → Prop} {items : List Value} (self : p (set items))
    (h : ∀ v ∈ items, v.Every p) : (set items).Every p :=
  every_iff.mpr ⟨self, h⟩

theorem every_of_map {p : Value → Prop} {entries : List (Value × Value)} (self : p (map entries))
    (h : ∀ e ∈ entries, BothOf (Every p) e) : (map entries).Every p := by
  refine every_iff.mpr ⟨self, ?_⟩
  intro w hw
  obtain ⟨e, he, hw⟩ := List.mem_flatMap.mp hw
  rcases List.mem_pair.mp hw with rfl | rfl
  · exact (h e he).1
  · exact (h e he).2

/-! ### Operators -/

theorem leaf_of_exact {operation : String} {n : Int} {v : Value} (h : exact operation n = .ok v) :
    v.Leaf := by
  unfold exact at h
  split at h
  · cases h
    exact ⟨trivial, rfl⟩
  · cases h

theorem leaf_of_intBinary {op : BinaryOp} {a b : Int64} {v : Value}
    (h : intBinary op a b = .ok v) : v.Leaf := by
  unfold intBinary at h
  split at h
  · exact leaf_of_exact h
  · exact leaf_of_exact h
  · exact leaf_of_exact h
  · unfold quotient at h
    split at h
    · cases h
    split at h
    · cases h
    split at h <;> cases h <;> exact ⟨trivial, rfl⟩
  · unfold remainder at h
    split at h
    · cases h
    split at h
    · cases h
    split at h <;> cases h <;> exact ⟨trivial, rfl⟩
  · cases h

theorem leaf_of_floatBinary {op : BinaryOp} {a b : Binary64} {left right v : Value}
    (h : floatBinary op a b left right = .ok v) : v.Leaf := by
  unfold floatBinary at h
  split at h
  case h_6 => cases h
  all_goals
    cases h
    exact ⟨trivial, rfl⟩

theorem leaf_of_comparison {op : BinaryOp} {left right v : Value} {holds : Ordering → Bool}
    (h : comparison op left right holds = .ok v) : v.Leaf := by
  obtain ⟨o, -, rfl⟩ := map_eq_ok h
  exact ⟨trivial, rfl⟩

theorem leaf_of_unary {op : UnaryOp} {a v : Value} (h : unary op a = .ok v) : v.Leaf := by
  unfold unary at h
  split at h
  · cases h
    exact ⟨trivial, rfl⟩
  · exact leaf_of_exact h
  · cases h
    exact ⟨trivial, rfl⟩
  · cases h

theorem leaf_of_integerOf {x : Binary64} {v : Value} (h : Method.integerOf x = .ok v) : v.Leaf := by
  unfold Method.integerOf at h
  split at h
  · cases h
  · split at h
    · cases h
      exact ⟨trivial, rfl⟩
    · cases h

/-- What a method gives, if its receiver has it and it does not fail. -/
def Yields (q : Value → Prop) (r : Method.Result) : Prop := ∀ v, r = some (.ok v) → q v

theorem yields_give {q : Value → Prop} {v : Value} (h : q v) : Yields q (Method.give v) := by
  intro w hw
  cases hw
  exact h

theorem yields_attempt {q : Value → Prop} {x : Except Fault Value} (h : ∀ v, x = .ok v → q v) :
    Yields q (Method.attempt x) := by
  intro w hw
  cases x with
  | ok v =>
    cases hw
    exact h w rfl
  | error f => cases hw

theorem yields_none {q : Value → Prop} : Yields q none := fun v hv ↦ by cases hv

namespace Formed

variable {p : Value → Prop} (form : Formed p)
include form

theorem every_leaf {v : Value} (h : v.Leaf) : v.Every p := by
  rw [every_iff, h.2]
  exact ⟨form.leaf h, fun w hw ↦ by cases hw⟩

theorem every_list {items : List Value} (h : ∀ v ∈ items, v.Every p) : (list items).Every p :=
  every_iff.mpr ⟨form.lists items, h⟩

theorem every_merge {entries extra : List (Value × Value)} (he : (map entries).Every p)
    (hx : ∀ e ∈ extra, BothOf (Every p) e) : (map (Indexed.merge entries extra)).Every p := by
  rw [Indexed.merge_eq]
  exact every_of_map (form.merge he hx) (Ordered.forall_merge he.entry hx)

theorem every_ofElements {items : List Value} (h : ∀ v ∈ items, v.Every p) :
    (set (Indexed.ofElements items)).Every p := by
  rw [Indexed.ofElements_eq]
  refine every_of_set (form.union (form.every_leaf ⟨trivial, rfl⟩) h) fun w hw ↦ ?_
  rcases Ordered.mem_union hw with hw | hw
  · cases hw
  · exact h w hw

theorem every_listBinary {op : BinaryOp} {as bs : List Value} {v : Value}
    (ha : ∀ v ∈ as, v.Every p) (hb : ∀ v ∈ bs, v.Every p) (h : listBinary op as bs = .ok v) :
    v.Every p := by
  unfold listBinary at h
  split at h
  · cases h
    exact form.every_list (List.forall_mem_append.mpr ⟨ha, hb⟩)
  · cases h
    exact form.every_list fun w hw ↦ ha w (List.mem_filter.mp hw).1
  · cases h

theorem every_setBinary {op : BinaryOp} {as bs : List Value} {v : Value}
    (ha : (set as).Every p) (hb : ∀ v ∈ bs, v.Every p) (h : setBinary op as bs = .ok v) :
    v.Every p := by
  unfold setBinary at h
  split at h
  · cases h
    rw [Indexed.union_eq]
    refine every_of_set (form.union ha hb) fun w hw ↦ ?_
    rcases Ordered.mem_union hw with hw | hw
    · exact ha.member w hw
    · exact hb w hw
  · cases h
    rw [Indexed.difference_eq]
    exact every_of_set (form.subset ha.self List.filter_sublist) fun w hw ↦
      ha.member w (List.mem_filter.mp hw).1
  · cases h

theorem every_combine {op : BinaryOp} {a b v : Value} (ha : a.Every p) (hb : b.Every p)
    (h : combine op a b = .ok v) : v.Every p := by
  unfold combine at h
  split at h
  · exact form.every_leaf (leaf_of_intBinary h)
  · split at h
    · cases h
      exact form.every_leaf ⟨trivial, rfl⟩
    · cases h
  · split at h
    · obtain ⟨count, -, rfl⟩ := map_eq_ok h
      exact form.every_leaf ⟨trivial, rfl⟩
    · cases h
  · exact form.every_listBinary ha.item hb.item h
  · split at h
    · obtain ⟨count, -, rfl⟩ := map_eq_ok h
      refine form.every_list fun w hw ↦ ?_
      obtain ⟨items, hitems, hw⟩ := List.mem_flatten.mp hw
      rw [List.eq_of_mem_replicate hitems] at hw
      exact ha.item w hw
    · cases h
  · exact form.every_setBinary ha hb.member h
  · split at h
    · exact form.every_leaf (leaf_of_floatBinary h)
    · cases h

theorem every_binary {op : BinaryOp} {a b v : Value} (ha : a.Every p) (hb : b.Every p)
    (h : binary op a b = .ok v) : v.Every p := by
  unfold binary at h
  split at h
  case h_1 | h_2 =>
    cases h
    exact form.every_leaf ⟨trivial, rfl⟩
  case h_7 => exact form.every_combine ha hb h
  all_goals exact form.every_leaf (leaf_of_comparison h)

/-! ### Selections and collections -/

theorem every_selectItems {a v : Value} {args : List Value} (ha : a.Every p)
    (h : selectItems a args = .ok v) : v.Every p := by
  obtain ⟨selection, -, rfl⟩ := map_eq_ok h
  unfold Selection.ofList
  split
  · exact form.every_leaf ⟨trivial, rfl⟩
  · next position =>
    cases a with
    | list items =>
      rw [item?_list]
      cases found : items[position]? with
      | none => exact form.every_leaf ⟨trivial, rfl⟩
      | some w => exact ha.item w (List.mem_of_getElem? found)
    | _ => exact form.every_leaf ⟨trivial, rfl⟩
  · next start count =>
    cases a with
    | list items =>
      rw [part_list]
      exact form.every_list fun w hw ↦
        ha.item w (List.mem_of_mem_drop (List.mem_of_mem_take hw))
    | _ => exact form.every_list fun w hw ↦ by cases hw

theorem every_selectChars {a v : Value} {args : List Value} (h : selectChars a args = .ok v) :
    v.Every p := by
  obtain ⟨selection, -, rfl⟩ := map_eq_ok h
  cases selection <;> exact form.every_leaf ⟨trivial, rfl⟩

theorem every_ofEntry {e : Value × Value} (h : BothOf (Every p) e) : (ofEntry e).Every p := by
  refine form.every_list fun w hw ↦ ?_
  rcases List.mem_pair.mp hw with rfl | rfl
  · exact h.1
  · exact h.2

theorem every_iterate {a : Value} {items : List Value} (ha : a.Every p)
    (h : a.iterate = .ok items) : ∀ v ∈ items, v.Every p := by
  unfold iterate at h
  split at h
  · cases h
    exact ha.item
  · cases h
    exact ha.member
  · cases h
    intro v hv
    obtain ⟨e, he, rfl⟩ := List.mem_map.mp hv
    exact form.every_ofEntry (ha.entry e he)
  · cases h

theorem every_toValue (f : Fault) : f.toValue.Every p := by
  have text : ∀ s, (str s).Every p := fun s ↦ form.every_leaf ⟨trivial, rfl⟩
  have number : ∀ n, (int n).Every p := fun n ↦ form.every_leaf ⟨trivial, rfl⟩
  refine every_of_map (form.fault f) fun e he ↦ ?_
  rcases List.mem_pair.mp he with rfl | rfl
  · exact ⟨text _, text _⟩
  · refine ⟨text _, form.every_list fun w hw ↦ ?_⟩
    obtain ⟨frame, -, rfl⟩ := List.mem_map.mp hw
    refine form.every_list fun u hu ↦ ?_
    simp only [List.mem_cons, List.not_mem_nil, or_false] at hu
    rcases hu with rfl | rfl | rfl
    · exact text _
    · exact number _
    · exact text _

/-- Operators and readings do not leave the kind. -/
theorem operationsKeep : OperationsKeep (Every p) where
  nil := form.every_leaf ⟨trivial, rfl⟩
  hostClass _ := form.every_leaf ⟨trivial, rfl⟩
  fault := form.every_toValue
  list h := form.every_list h
  set h := form.every_ofElements h
  map h := form.every_merge (form.every_leaf ⟨trivial, rfl⟩) h
  unary _ h := form.every_leaf (leaf_of_unary h)
  binary ha hb h := form.every_binary ha hb h
  lookup ha h := every_lookup? ha h
  field ha h := every_field? ha h
  selectItems ha h := form.every_selectItems ha h
  selectChars _ h := form.every_selectChars h
  iterate ha h := form.every_iterate ha h
  bindItem ha h := every_bindItem ha h
  spread ha h := every_spreadEntries ha h

/-! ### Methods -/

theorem every_total {items : List Value} {v : Value} (hi : ∀ v ∈ items, v.Every p)
    (h : Method.total items = .ok v) : v.Every p := by
  unfold Method.total at h
  have start : (int 0).Every p := form.every_leaf ⟨trivial, rfl⟩
  generalize int 0 = sum at h start
  induction items generalizing sum with
  | nil =>
    cases h
    exact start
  | cons x items ih =>
    obtain ⟨hx, hi⟩ := List.forall_mem_cons.mp hi
    rw [List.foldlM_cons] at h
    obtain ⟨next, hnext, h⟩ := bind_eq_ok h
    exact ih hi _ h (form.every_binary start hx hnext)

theorem every_argument {args : List Value} (ha : ∀ v ∈ args, v.Every p) (i : Nat) :
    (Method.argument args i).Every p := by
  unfold Method.argument
  rw [List.getD_eq_getElem?_getD]
  cases found : args[i]? with
  | none => exact form.every_leaf ⟨trivial, rfl⟩
  | some v => exact ha v (List.mem_of_getElem? found)

theorem yields_onInt (n : Int64) (m : Method) : Yields (Every p) (m.onInt n) := by
  unfold Method.onInt
  split
  case h_6 => exact yields_attempt fun v h ↦ form.every_leaf (leaf_of_exact h)
  case h_7 => exact yields_none
  all_goals exact yields_give (form.every_leaf ⟨trivial, rfl⟩)

theorem yields_onFloat (x : Binary64) (args : List Value) (m : Method) :
    Yields (Every p) (m.onFloat x args) := by
  have whole : ∀ x, Yields (Every p) (Method.attempt (Method.integerOf x)) :=
    fun x ↦ yields_attempt fun v h ↦ form.every_leaf (leaf_of_integerOf h)
  unfold Method.onFloat
  split
  · exact whole _
  · exact yields_give (form.every_leaf ⟨trivial, rfl⟩)
  · split
    · exact yields_give (form.every_leaf ⟨trivial, rfl⟩)
    · exact whole _
  · exact whole _
  · exact whole _
  · exact yields_give (form.every_leaf ⟨trivial, rfl⟩)
  · exact yields_none

theorem yields_onText (text : String) (args : List Value) (m : Method) :
    Yields (Every p) (m.onText text args) := by
  have test : ∀ arg holds, Yields (Every p) (Method.testText arg holds) := by
    intro arg holds
    unfold Method.testText
    split
    all_goals exact yields_give (form.every_leaf ⟨trivial, rfl⟩)
  have pieces : ∀ arg, ∀ v ∈ Method.splitText text arg, v.Every p := by
    intro arg v hv
    unfold Method.splitText at hv
    split at hv
    · split at hv
      all_goals
        obtain ⟨piece, -, rfl⟩ := List.mem_map.mp hv
        exact form.every_leaf ⟨trivial, rfl⟩
    · obtain ⟨piece, -, rfl⟩ := List.mem_map.mp hv
      exact form.every_leaf ⟨trivial, rfl⟩
  unfold Method.onText
  split
  case h_8 => exact yields_give (form.every_list (pieces _))
  case h_9 => exact test _ _
  case h_10 => exact test _ _
  case h_11 => exact test _ _
  case h_13 => exact yields_none
  all_goals exact yields_give (form.every_leaf ⟨trivial, rfl⟩)

theorem yields_onList {items args : List Value} (hi : ∀ v ∈ items, v.Every p)
    (ha : ∀ v ∈ args, v.Every p) (m : Method) :
    Yields (Every p) (m.onList (.list items) items args) := by
  have nil : Value.nil.Every p := form.every_leaf ⟨trivial, rfl⟩
  have ofElements : ∀ v ∈ Indexed.ofElements items, v.Every p :=
    (form.every_ofElements hi).member
  unfold Method.onList
  split
  case h_4 => exact yields_attempt fun v h ↦ every_fetchItem hi ha h
  case h_5 =>
    refine yields_give ?_
    cases items with
    | nil => exact nil
    | cons x items => exact hi x List.mem_cons_self
  case h_6 =>
    rw [last_list, List.getLastD_eq_getLast?]
    refine yields_give ?_
    cases found : items.getLast? with
    | none => exact nil
    | some v => exact hi v (List.mem_of_getLast? found)
  case h_7 => exact yields_give (form.every_list fun v hv ↦ hi v (List.mem_reverse.mp hv))
  case h_8 =>
    intro v h
    obtain ⟨sorted, hs, rfl⟩ := map_eq_ok (Option.some.inj h)
    exact form.every_list (every_sortItems hi hs)
  case h_9 => exact yields_give (form.every_list ofElements)
  case h_10 => exact yields_give (form.every_list (every_flattenItems items hi))
  case h_11 =>
    exact yields_give (form.every_list fun v hv ↦ hi v (List.mem_filter.mp hv).1)
  case h_13 => exact yields_attempt fun v h ↦ form.every_total hi h
  case h_14 => exact yields_attempt fun v h ↦ every_extreme hi nil h
  case h_15 => exact yields_attempt fun v h ↦ every_extreme hi nil h
  case h_16 => exact yields_give (form.every_list hi)
  case h_17 => exact yields_none
  all_goals exact yields_give (form.every_leaf ⟨trivial, rfl⟩)

theorem yields_onSet {receiver : Value} {items : List Value} (hi : ∀ v ∈ items, v.Every p)
    (args : List Value) (m : Method) : Yields (Every p) (m.onSet receiver items args) := by
  have nil : Value.nil.Every p := form.every_leaf ⟨trivial, rfl⟩
  unfold Method.onSet
  split
  case h_4 => exact yields_attempt fun v h ↦ form.every_total hi h
  case h_5 => exact yields_attempt fun v h ↦ every_extreme hi nil h
  case h_6 => exact yields_attempt fun v h ↦ every_extreme hi nil h
  case h_7 => exact yields_give (form.every_list hi)
  case h_8 => exact yields_none
  all_goals exact yields_give (form.every_leaf ⟨trivial, rfl⟩)

theorem yields_onMap {entries : List (Value × Value)} {args : List Value}
    (hm : (map entries).Every p) (ha : ∀ v ∈ args, v.Every p) (m : Method) :
    Yields (Every p) (m.onMap (.map entries) entries args) := by
  have he := hm.entry
  unfold Method.onMap
  split
  case h_4 =>
    refine yields_give (form.every_list fun v hv ↦ ?_)
    obtain ⟨e, hmem, rfl⟩ := List.mem_map.mp hv
    exact (he e hmem).1
  case h_5 =>
    refine yields_give (form.every_list fun v hv ↦ ?_)
    obtain ⟨e, hmem, rfl⟩ := List.mem_map.mp hv
    exact (he e hmem).2
  case h_6 =>
    have argument := form.every_argument ha 0
    split
    · next extra given =>
      rw [given] at argument
      exact yields_give (form.every_merge hm argument.entry)
    · exact yields_attempt fun v h ↦ by cases h
  case h_7 => exact yields_attempt fun v h ↦ every_fetchEntry hm ha h
  case h_8 =>
    exact yields_give (every_of_map (form.submap hm.self List.filter_sublist) fun e hmem ↦
      he e (List.mem_filter.mp hmem).1)
  case h_9 =>
    refine yields_give (form.every_list fun v hv ↦ ?_)
    obtain ⟨e, hmem, rfl⟩ := List.mem_map.mp hv
    exact form.every_ofEntry (he e hmem)
  case h_10 => exact yields_none
  all_goals exact yields_give (form.every_leaf ⟨trivial, rfl⟩)

theorem yields_onReceiver {receiver : Value} {args : List Value} (hr : receiver.Every p)
    (ha : ∀ v ∈ args, v.Every p) (m : Method) :
    Yields (Every p) (m.onReceiver receiver args) := by
  unfold Method.onReceiver
  split
  · unfold Method.onNil
    split
    · exact yields_give (form.every_leaf ⟨trivial, rfl⟩)
    · exact yields_give (form.every_leaf ⟨trivial, rfl⟩)
    · exact yields_none
  · exact form.yields_onInt _ m
  · exact form.yields_onFloat _ args m
  · exact form.yields_onText _ args m
  · exact form.yields_onList hr.item ha m
  · exact form.yields_onSet hr.member args m
  · exact form.yields_onMap hr ha m
  · exact yields_none

/-- Methods do not leave the kind. -/
theorem every_send {receiver v : Value} {name : String} {args : List Value}
    (hr : receiver.Every p) (ha : ∀ v ∈ args, v.Every p)
    (h : receiver.send name args = .ok v) : v.Every p := by
  unfold send at h
  split at h
  · next m _ =>
    unfold Method.call at h
    split at h
    · cases h
      exact form.every_leaf ⟨trivial, rfl⟩
    · split at h
      · next found => exact form.yields_onReceiver hr ha m v (by rw [found, h])
      · cases h
  · cases h

end Formed

/-! ### Nodes and node calls -/

section

variable {p : Value → Prop} (free : ∀ v, v.Ordinary → p v)
include free

/-- A kind that all values but nodes and node calls are of. -/
theorem formed_of_free : Formed p where
  leaf h := free _ h.1
  lists _ := free _ trivial
  union _ _ := free _ trivial
  subset _ _ := free _ trivial
  merge _ _ := free _ trivial
  submap _ _ := free _ trivial
  fault _ := free _ trivial

theorem every_leaf {v : Value} (h : v.Leaf) : v.Every p := (formed_of_free free).every_leaf h

theorem every_map {entries : List (Value × Value)} (h : ∀ e ∈ entries, BothOf (Every p) e) :
    (map entries).Every p :=
  every_of_map (free _ trivial) h

/-- Operators and readings make up no nodes and no node calls. -/
theorem operationsKeep_every : OperationsKeep (Every p) := (formed_of_free free).operationsKeep

/-- Methods make up no nodes and no node calls. -/
theorem every_send {receiver v : Value} {name : String} {args : List Value}
    (hr : receiver.Every p) (ha : ∀ v ∈ args, v.Every p)
    (h : receiver.send name args = .ok v) : v.Every p :=
  (formed_of_free free).every_send hr ha h

end

end Value

end Formulary
