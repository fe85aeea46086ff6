import Formulary.Evaluator
import Formulary.Proofs.Renumbering
import Formulary.Proofs.Arranging
import Mathlib.Logic.Function.Basic

/-!
# Operations on renumbered values

No operation on values looks at the numbers of modules, except to see whether two nodes are the
same. So each commutes with every renumbering that keeps different modules apart
(`Value.binary_renumber`, `Value.send_renumber`, `Whitelist.permit_renumber`).
-/

namespace Formulary

/-! ### Equality -/

namespace Value

variable {f : Nat → Nat}

theorem same_renumber (inj : Function.Injective f) (a b : NodeRef) :
    (a.renumber f).same (b.renumber f) = a.same b := by
  simp only [NodeRef.same, NodeRef.renumber]
  congr 1
  rw [Bool.eq_iff_iff, beq_iff_eq, beq_iff_eq]
  exact inj.eq_iff

mutual

/-- Values are equal just if they are equal with other numbers. -/
theorem equal_renumber (inj : Function.Injective f) : ∀ a b : Value,
    equal (a.renumber f) (b.renumber f) = equal a b
  | nil, b | bool _, b | int _, b | float _, b | str _, b | symbol _, b | hostClass _, b
  | foreign _ _, b | call _ _ _, b => by cases b <;> rfl
  | node ref, b => by
    cases b with
    | node ref' => exact same_renumber inj ref ref'
    | _ => rfl
  | list as, b => by
    cases b with
    | list bs => exact equalItems_renumber inj as bs
    | _ => rfl
  | set as, b => by
    cases b with
    | set bs =>
      rw [renumber_set, renumber_set, equal, equal, List.length_map, List.length_map,
        itemsIn_renumber inj as bs]
    | _ => rfl
  | map as, b => by
    cases b with
    | map bs =>
      rw [renumber_map, renumber_map, equal, equal, List.length_map, List.length_map,
        entriesIn_renumber inj as bs]
    | _ => rfl
  | record t as, b => by
    cases b with
    | record u bs =>
      rw [renumber_record, renumber_record, equal, equal, List.length_map, List.length_map,
        fieldsIn_renumber inj as bs]
    | _ => rfl

theorem equalItems_renumber (inj : Function.Injective f) : ∀ as bs : List Value,
    equalItems (renumberAll f as) (renumberAll f bs) = equalItems as bs
  | [], bs => by cases bs <;> rfl
  | a :: as, [] => rfl
  | a :: as, b :: bs => by
    rw [renumberAll, renumberAll, equalItems, equalItems, equal_renumber inj a b,
      equalItems_renumber inj as bs]

theorem itemsIn_renumber (inj : Function.Injective f) : ∀ as bs : List Value,
    itemsIn (as.map (renumber f)) (bs.map (renumber f)) = itemsIn as bs
  | [], _ => rfl
  | a :: as, bs => by
    rw [List.map_cons, itemsIn, itemsIn, List.any_map, itemsIn_renumber inj as bs]
    simp only [Function.comp_def, equal_renumber inj a]

theorem entriesIn_renumber (inj : Function.Injective f) : ∀ as bs : List (Value × Value),
    entriesIn (as.map (renumberEntry f)) (bs.map (renumberEntry f)) = entriesIn as bs
  | [], _ => rfl
  | (k, v) :: as, bs => by
    rw [List.map_cons, renumberEntry, Prod.map, entriesIn, entriesIn, List.any_map,
      ← renumberEntry, entriesIn_renumber inj as bs]
    simp only [Function.comp_def, renumberEntry, Prod.map, equal_renumber inj k,
      equal_renumber inj v]

theorem fieldsIn_renumber (inj : Function.Injective f) : ∀ as bs : List (String × Value),
    fieldsIn (as.map (Prod.map id (renumber f))) (bs.map (Prod.map id (renumber f))) =
      fieldsIn as bs
  | [], _ => rfl
  | (name, v) :: as, bs => by
    rw [List.map_cons, Prod.map, fieldsIn, fieldsIn, List.any_map, fieldsIn_renumber inj as bs]
    simp only [Function.comp_def, Prod.map, id_eq, equal_renumber inj v]

end

theorem beq_renumber (inj : Function.Injective f) (a b : Value) :
    (a.renumber f == b.renumber f) = (a == b) := by
  rw [beq_eq_equal, beq_eq_equal, equal_renumber inj]

theorem looselyEqual_renumber (inj : Function.Injective f) (a b : Value) :
    looselyEqual (a.renumber f) (b.renumber f) = looselyEqual a b := by
  have strict := beq_renumber inj a b
  cases a with
  | int n | float x => cases b <;> rfl
  | _ => exact strict

/-! ### What a number of a module does not show in -/

section

variable (f) (v : Value)

@[simp] theorem truthy_renumber : (v.renumber f).truthy = v.truthy := by cases v <;> rfl

@[simp] theorem isNil_renumber : (v.renumber f).isNil = v.isNil := by cases v <;> rfl

@[simp] theorem asStr?_renumber : (v.renumber f).asStr? = v.asStr? := by cases v <;> rfl

@[simp] theorem asInt?_renumber : (v.renumber f).asInt? = v.asInt? := by cases v <;> rfl

@[simp] theorem typeName_renumber : (v.renumber f).typeName = v.typeName := by cases v <;> rfl

@[simp] theorem widerTypes_renumber : (v.renumber f).widerTypes = v.widerTypes := by
  cases v <;> rfl

@[simp] theorem isA_renumber (type : String) : (v.renumber f).isA type = v.isA type := by
  rw [isA, isA, typeName_renumber, widerTypes_renumber]

end

mutual

theorem render_renumber (f : Nat → Nat) (shown : Bool) : ∀ v : Value,
    render shown (v.renumber f) = render shown v
  | nil | bool _ | int _ | float _ | str _ | symbol _ | node _ | hostClass _ | foreign _ _ => rfl
  | list items | set items => by
    rw [renumber, render, render, renderItems_renumber f items]
  | map entries => by
    rw [renumber, render, render, renderEntries_renumber f true entries]
  | record type fields => by
    rw [renumber, render, render, renderFields_renumber f fields]
  | call env ref params => by
    rw [renumber, render, render, renderEntries_renumber f false params]
    rfl

theorem renderItems_renumber (f : Nat → Nat) : ∀ vs : List Value,
    renderItems (renumberAll f vs) = renderItems vs
  | [] => rfl
  | v :: vs => by
    rw [renumberAll, renderItems, renderItems, render_renumber f true v, renderItems_renumber f vs]

theorem renderEntries_renumber (f : Nat → Nat) (shown : Bool) : ∀ es : List (Value × Value),
    renderEntries shown (renumberEntries f es) = renderEntries shown es
  | [] => rfl
  | (k, v) :: es => by
    rw [renumberEntries, renderEntries, renderEntries, render_renumber f shown k,
      render_renumber f true v, renderEntries_renumber f shown es]

theorem renderFields_renumber (f : Nat → Nat) : ∀ fs : List (String × Value),
    renderFields (renumberFields f fs) = renderFields fs
  | [] => rfl
  | (name, v) :: fs => by
    rw [renumberFields, renderFields, renderFields, render_renumber f true v,
      renderFields_renumber f fs]

end

section

variable (f)

@[simp] theorem text_renumber (v : Value) : (v.renumber f).text = v.text :=
  render_renumber f false v

@[simp] theorem inspect_renumber (v : Value) : (v.renumber f).inspect = v.inspect :=
  render_renumber f true v

/-! ### Parts -/

@[simp] theorem size_renumber (v : Value) : (v.renumber f).size = v.size := by
  cases v with
  | list items | set items | map entries | record type fields => simp
  | _ => rfl

@[simp] theorem item?_renumber (v : Value) (i : Nat) :
    (v.renumber f).item? i = (v.item? i).map (renumber f) := by
  cases v with
  | list items => simp
  | _ => rfl

@[simp] theorem part_renumber (v : Value) (start count : Nat) :
    (v.renumber f).part start count = (v.part start count).map (renumber f) := by
  cases v with
  | list items => simp
  | _ => rfl

@[simp] theorem textPart_renumber (v : Value) (start count : Nat) :
    (v.renumber f).textPart start count = v.textPart start count := by
  cases v <;> rfl

@[simp] theorem last_renumber (v : Value) : (v.renumber f).last = v.last.renumber f := by
  cases v with
  | list items => cases h : items.getLast? <;> simp [List.getLastD_eq_getLast?, h]
  | _ => rfl

@[simp] theorem field?_renumber (v : Value) (name : String) :
    (v.renumber f).field? name = (v.field? name).map (renumber f) := by
  cases v with
  | record type fields =>
    rw [renumber_record, field?_record, field?_record]
    induction fields with
    | nil => rfl
    | cons e rest ih =>
      have key : (Prod.map id (renumber f) e).1 = e.1 := rfl
      rw [List.map_cons, List.lookup_cons, List.lookup_cons, key]
      cases name == e.1 with
      | true => rfl
      | false => exact ih
  | _ => rfl

end

theorem hasMember_renumber (inj : Function.Injective f) (v x : Value) :
    (v.renumber f).hasMember (x.renumber f) = v.hasMember x := by
  cases v with
  | set items =>
    rw [renumber_set, hasMember_set, hasMember_set, Ordered.has_map (beq_renumber inj)]
  | _ => rfl

theorem get?_renumber (inj : Function.Injective f) (v k : Value) :
    (v.renumber f).get? (k.renumber f) = (v.get? k).map (renumber f) := by
  cases v with
  | map entries =>
    rw [renumber_map, get?_map, get?_map]
    exact Ordered.get?_map (beq_renumber inj) _ k entries
  | _ => rfl

theorem hasKey_renumber (inj : Function.Injective f) (v k : Value) :
    (v.renumber f).hasKey (k.renumber f) = v.hasKey k := by
  cases v with
  | map entries =>
    rw [renumber_map, hasKey_map, hasKey_map]
    exact Ordered.hasKey_map (beq_renumber inj) _ k entries
  | _ => rfl

theorem lookup?_renumber (inj : Function.Injective f) (v k : Value) :
    (v.renumber f).lookup? (k.renumber f) = (v.lookup? k).map (renumber f) := by
  unfold lookup?
  rw [get?_renumber inj]
  cases v.get? k with
  | some found => rfl
  | none =>
    cases k with
    | str s => exact get?_renumber inj v (symbol s)
    | _ => rfl

/-! ### Collections -/

theorem merge_renumber (inj : Function.Injective f) (entries extra : List (Value × Value)) :
    Indexed.merge (entries.map (renumberEntry f)) (extra.map (renumberEntry f)) =
      (Indexed.merge entries extra).map (renumberEntry f) := by
  rw [Indexed.merge_eq, Indexed.merge_eq]
  exact Ordered.merge_map (beq_renumber inj) _ entries extra

theorem ofEntries_renumber (inj : Function.Injective f) (entries : List (Value × Value)) :
    Indexed.ofEntries (entries.map (renumberEntry f)) =
      (Indexed.ofEntries entries).map (renumberEntry f) :=
  merge_renumber inj [] entries

theorem union_renumber (inj : Function.Injective f) (xs ys : List Value) :
    Indexed.union (xs.map (renumber f)) (ys.map (renumber f)) =
      (Indexed.union xs ys).map (renumber f) := by
  rw [Indexed.union_eq, Indexed.union_eq, Ordered.union_map (beq_renumber inj)]

theorem ofElements_renumber (inj : Function.Injective f) (xs : List Value) :
    Indexed.ofElements (xs.map (renumber f)) = (Indexed.ofElements xs).map (renumber f) :=
  union_renumber inj [] xs

theorem difference_renumber (inj : Function.Injective f) (xs ys : List Value) :
    Indexed.difference (xs.map (renumber f)) (ys.map (renumber f)) =
      (Indexed.difference xs ys).map (renumber f) := by
  rw [Indexed.difference_eq, Indexed.difference_eq, Ordered.difference_map (beq_renumber inj)]

/-! ### Operators -/

theorem map_exact_renumber (f : Nat → Nat) (operation : String) (n : Int) :
    (exact operation n).map (renumber f) = exact operation n := by
  unfold exact
  split <;> rfl

theorem unary_renumber (f : Nat → Nat) (op : UnaryOp) (v : Value) :
    unary op (v.renumber f) = (unary op v).map (renumber f) := by
  cases op with
  | not =>
    change Except.ok (bool (!(v.renumber f).truthy)) = Except.ok (bool (!v.truthy))
    rw [truthy_renumber]
  | neg =>
    cases v with
    | int n => exact (map_exact_renumber f "negation" _).symm
    | _ => rfl

theorem map_intBinary_renumber (f : Nat → Nat) (op : BinaryOp) (a b : Int64) :
    (intBinary op a b).map (renumber f) = intBinary op a b := by
  cases op with
  | add | sub | mul => exact map_exact_renumber f _ _
  | div =>
    change (quotient a b).map (renumber f) = quotient a b
    unfold quotient
    repeat' split
    all_goals rfl
  | mod =>
    change (remainder a b).map (renumber f) = remainder a b
    unfold remainder
    repeat' split
    all_goals rfl
  | _ => rfl

theorem listBinary_renumber (inj : Function.Injective f) (op : BinaryOp) (as bs : List Value) :
    listBinary op (as.map (renumber f)) (bs.map (renumber f)) =
      (listBinary op as bs).map (renumber f) := by
  cases op with
  | add => simp [listBinary, Except.map]
  | sub =>
    simp [listBinary, Except.map, List.filter_map, Function.comp_def, looselyEqual_renumber inj]
  | _ => rfl

theorem setBinary_renumber (inj : Function.Injective f) (op : BinaryOp) (as bs : List Value) :
    setBinary op (as.map (renumber f)) (bs.map (renumber f)) =
      (setBinary op as bs).map (renumber f) := by
  cases op with
  | add => simp [setBinary, Except.map, union_renumber inj]
  | sub => simp [setBinary, Except.map, difference_renumber inj]
  | _ => rfl

theorem order_renumber (f : Nat → Nat) (operation : String) (a b : Value) :
    order operation (a.renumber f) (b.renumber f) = order operation a b := by
  cases a <;> cases b <;> rfl

theorem map_floatBinary_renumber (f : Nat → Nat) (op : BinaryOp) (a b : Binary64)
    (left right : Value) :
    (floatBinary op a b left right).map (renumber f) = floatBinary op a b left right := by
  cases op <;> rfl

theorem combine_renumber (inj : Function.Injective f) (op : BinaryOp) (a b : Value) :
    combine op (a.renumber f) (b.renumber f) = (combine op a b).map (renumber f) := by
  cases a with
  | int m =>
    cases b with
    | int n => exact (map_intBinary_renumber f op m n).symm
    | float y => exact (map_floatBinary_renumber f op _ y _ _).symm
    | _ => rfl
  | float x =>
    cases b with
    | int n => exact (map_floatBinary_renumber f op x _ _ _).symm
    | float y => exact (map_floatBinary_renumber f op x y _ _).symm
    | _ => rfl
  | str s =>
    cases b with
    | str t =>
      simp only [combine, renumber_str]
      split <;> rfl
    | int n =>
      simp only [combine, renumber_str, renumber_int]
      split
      · cases repetitions n s.utf8ByteSize (str s) (int n) <;> rfl
      · rfl
    | _ => rfl
  | list as =>
    cases b with
    | list bs =>
      simp only [combine, renumber_list]
      exact listBinary_renumber inj op as bs
    | int n =>
      simp only [combine, renumber_list, renumber_int, List.length_map]
      split
      · have same : repetitions n as.length (list (as.map (renumber f))) (int n) =
            repetitions n as.length (list as) (int n) := rfl
        rw [same]
        cases repetitions n as.length (list as) (int n) with
        | error fault => rfl
        | ok count => simp [Except.map, List.map_flatten, List.map_replicate]
      · rfl
    | _ => rfl
  | set as =>
    cases b with
    | set bs =>
      simp only [combine, renumber_set]
      exact setBinary_renumber inj op as bs
    | _ => rfl
  | _ => cases b <;> rfl

/-- A binary operator commutes with renumbering. -/
theorem binary_renumber (inj : Function.Injective f) (op : BinaryOp) (a b : Value) :
    binary op (a.renumber f) (b.renumber f) = (binary op a b).map (renumber f) := by
  have compared (holds : Ordering → Bool) : comparison op (a.renumber f) (b.renumber f) holds =
      (comparison op a b holds).map (renumber f) := by
    rw [comparison, comparison, order_renumber]
    cases order op.symbol a b <;> rfl
  cases op with
  | eq | ne => simp [binary, looselyEqual_renumber inj, Except.map]
  | lt | le | gt | ge => exact compared _
  | _ => exact combine_renumber inj _ a b

end Value

variable (f : Nat → Nat)

theorem Fault.renumber_toValue (fault : Fault) : fault.toValue.renumber f = fault.toValue := by
  simp [toValue, Value.renumberEntry, Function.comp_def]

/-! ### Indices -/

open Value (renumber renumberEntry)

theorem Selection.ofArgs_renumber (type : String) (args : List Value)
    (length : Nat) : ofArgs type (args.map (renumber f)) length = ofArgs type args length := by
  cases args with
  | nil => rfl
  | cons a rest =>
    cases rest with
    | nil => cases a <;> rfl
    | cons b rest =>
      cases rest with
      | nil | cons c rest => cases a <;> first | rfl | (cases b <;> rfl)

theorem selectItems_renumber (list : Value) (args : List Value) :
    selectItems (list.renumber f) (args.map (renumber f)) =
      (selectItems list args).map (renumber f) := by
  rw [selectItems, selectItems, Selection.ofArgs_renumber, Value.size_renumber]
  cases Selection.ofArgs "List" args list.size with
  | error fault => rfl
  | ok selection =>
    cases selection with
    | nothing => rfl
    | item p =>
      simp only [Except.map, Selection.ofList, Value.item?_renumber]
      cases list.item? p <;> rfl
    | part start count => simp [Except.map, Selection.ofList]

theorem selectChars_renumber (text : Value) (args : List Value) :
    selectChars (text.renumber f) (args.map (renumber f)) =
      (selectChars text args).map (renumber f) := by
  rw [selectChars, selectChars, Selection.ofArgs_renumber, Value.size_renumber]
  cases Selection.ofArgs "String" args text.size with
  | error fault => rfl
  | ok selection => cases selection <;> simp [Except.map, Selection.ofText]

theorem Access.singleArg_renumber (receiver : Value) (args : List Value) :
    singleArg (receiver.renumber f) (args.map (renumber f)) =
      (singleArg receiver args).map (renumber f) := by
  cases args with
  | nil => simp [singleArg, Fault.fail, Except.map]
  | cons a rest =>
    cases rest with
    | nil => rfl
    | cons b rest => simp [singleArg, Fault.fail, Except.map]

theorem Access.nameArg_renumber (receiver : Value) (args : List Value) :
    nameArg (receiver.renumber f) (args.map (renumber f)) = nameArg receiver args := by
  rw [nameArg, nameArg, singleArg_renumber, Value.typeName_renumber]
  cases singleArg receiver args with
  | error fault => rfl
  | ok key => cases key <;> rfl

/-! ### Comprehensions and calls -/

theorem Value.iterate_renumber (v : Value) :
    (v.renumber f).iterate = v.iterate.map (List.map (renumber f)) := by
  cases v with
  | list items | set items => simp [iterate, Except.map]
  | map entries =>
    simp only [renumber_map, iterate, Except.map, List.map_map]
    congr 1
  | _ => rfl

theorem bindItem_renumber (pair : Bool) (item : Value) :
    bindItem pair (item.renumber f) = (bindItem pair item).map (List.map (renumber f)) := by
  cases pair with
  | false => rfl
  | true =>
    cases item with
    | list items =>
      cases items with
      | nil => rfl
      | cons a rest =>
        cases rest with
        | nil => rfl
        | cons b rest => cases rest <;> rfl
    | _ => rfl

theorem spreadEntries_renumber (v : Value) :
    spreadEntries (v.renumber f) = (spreadEntries v).map (List.map (renumberEntry f)) := by
  cases v with
  | map entries => simp [spreadEntries, Except.map]
  | _ => rfl

/-! ### Whitelists -/

theorem ArgSpec.accepts_renumber (spec : ArgSpec) (v : Value) :
    spec.accepts (v.renumber f) = spec.accepts v := by
  rw [accepts, accepts, Value.isNil_renumber]
  congr 2
  funext type
  exact Value.isA_renumber f v type

theorem Rule.checkArgs_renumber (method : String) (i : Nat) (specs : List ArgSpec)
    (args : List Value) : checkArgs method i specs (args.map (renumber f)) =
      checkArgs method i specs args := by
  induction specs generalizing i args with
  | nil => rfl
  | cons spec specs ih =>
    have head : (args.map (renumber f)).headD .nil = (args.headD .nil).renumber f := by
      cases args <;> rfl
    rw [checkArgs, checkArgs, head, ArgSpec.accepts_renumber, ← List.map_tail, ih,
      Value.text_renumber, Value.typeName_renumber]

/-- A call is permitted, and under the same name, whatever the numbers are. -/
theorem Whitelist.permit_renumber (w : Whitelist) (receiver : Value)
    (method : String) (args : List Value) :
    w.permit (receiver.renumber f) method (args.map (renumber f)) =
      w.permit receiver method args := by
  have checked (method : String) (rules : List Rule) :
      Rule.check method rules (receiver.renumber f) (args.map (renumber f)) =
        Rule.check method rules receiver args := by
    simp only [Rule.check, Value.isA_renumber, Value.typeName_renumber, List.length_map,
      Rule.checkArgs_renumber]
  simp only [permit, checked]

/-! ### Methods -/

namespace Method

variable {f}

theorem argument_renumber (f : Nat → Nat) (args : List Value) (i : Nat) :
    argument (args.map (renumber f)) i = (argument args i).renumber f := by
  rw [argument, argument, List.getD_eq_getElem?_getD, List.getD_eq_getElem?_getD, List.getElem?_map]
  cases args[i]? <;> rfl

theorem map_integerOf_renumber (f : Nat → Nat) (x : Binary64) :
    (integerOf x).map (renumber f) = integerOf x := by
  unfold integerOf
  split
  · rfl
  · split <;> rfl

theorem arrange_renumber (f : Nat → Nat) {n : Nat} (item : Fin n → Value) :
    arrange (fun i ↦ (item i).renumber f) = (arrange item).map (List.map (renumber f)) := by
  have same : isLess (fun i ↦ (item i).renumber f) = isLess item := by
    funext i j
    rw [isLess, isLess, Value.order_renumber]
  unfold arrange
  rw [same]
  split
  · rfl
  · rfl
  · simp only [Except.map, List.map_map, Function.comp_def]

theorem sortItems_renumber (f : Nat → Nat) (items : List Value) :
    sortItems (items.map (renumber f)) = (sortItems items).map (List.map (renumber f)) := by
  rw [sortItems_eq, sortItems_eq, ← arrange_renumber]
  exact arrange_congr (List.length_map _) fun i ↦ by simp

theorem extreme_renumber (f : Nat → Nat) (operation : String) (beats : Ordering)
    (items : List Value) : extreme operation beats (items.map (renumber f)) =
      (extreme operation beats items).map (renumber f) := by
  cases items with
  | nil => rfl
  | cons x xs =>
    rw [List.map_cons, extreme, extreme]
    induction xs generalizing x with
    | nil => rfl
    | cons y xs ih =>
      rw [List.map_cons, List.foldlM_cons, List.foldlM_cons, Value.order_renumber]
      cases Value.order operation y x with
      | error fault => rfl
      | ok o =>
        change List.foldlM _ (if (o == beats) = true then y.renumber f else x.renumber f) _ =
          Except.map _ (List.foldlM _ (if (o == beats) = true then y else x) _)
        split
        · exact ih y
        · exact ih x

theorem total_renumber (inj : Function.Injective f) (items : List Value) :
    total (items.map (renumber f)) = (total items).map (renumber f) := by
  have step (acc : Value) : (items.map (renumber f)).foldlM (Value.binary .add) (acc.renumber f) =
      (items.foldlM (Value.binary .add) acc).map (renumber f) := by
    induction items generalizing acc with
    | nil => rfl
    | cons v items ih =>
      rw [List.map_cons, List.foldlM_cons, List.foldlM_cons, Value.binary_renumber inj]
      cases Value.binary .add acc v with
      | error fault => rfl
      | ok sum => exact ih sum
  exact step (.int 0)

mutual

theorem flattenValue_renumber (f : Nat → Nat) : ∀ v : Value,
    flattenValue (v.renumber f) = (flattenValue v).map (renumber f)
  | .list items => by
    rw [renumber, flattenValue, flattenValue, flattenItems_renumber f items]
  | .nil | .bool _ | .int _ | .float _ | .str _ | .symbol _ | .set _ | .map _ | .record _ _
  | .call _ _ _ | .node _ | .hostClass _ | .foreign _ _ => rfl

theorem flattenItems_renumber (f : Nat → Nat) : ∀ vs : List Value,
    flattenItems (Value.renumberAll f vs) = (flattenItems vs).map (renumber f)
  | [] => rfl
  | v :: vs => by
    rw [Value.renumberAll, flattenItems, flattenItems, flattenValue_renumber f v,
      flattenItems_renumber f vs, List.map_append]

end

theorem fetchItem_renumber (f : Nat → Nat) (list : Value) (args : List Value) :
    fetchItem (list.renumber f) (args.map (renumber f)) =
      (fetchItem list args).map (renumber f) := by
  have found : ((argument (args.map (renumber f)) 0).asInt?.bind fun i ↦
      (Selection.position? i (list.renumber f).size).bind (list.renumber f).item?) =
      ((argument args 0).asInt?.bind fun i ↦
        (Selection.position? i list.size).bind list.item?).map (renumber f) := by
    rw [argument_renumber, Value.asInt?_renumber, Value.size_renumber]
    cases (argument args 0).asInt? with
    | none => rfl
    | some i =>
      cases h : Selection.position? i list.size <;> simp [h]
  unfold fetchItem
  dsimp only
  rw [found, argument_renumber, Value.text_renumber]
  cases (argument args 0).asInt?.bind fun i ↦ (Selection.position? i list.size).bind list.item? with
  | some v => rfl
  | none =>
    cases args with
    | nil => rfl
    | cons a rest => cases rest <;> rfl

theorem fetchEntry_renumber (inj : Function.Injective f) (map : Value) (args : List Value) :
    fetchEntry (map.renumber f) (args.map (renumber f)) =
      (fetchEntry map args).map (renumber f) := by
  unfold fetchEntry
  rw [argument_renumber, Value.lookup?_renumber inj, Value.inspect_renumber]
  cases map.lookup? (argument args 0) with
  | some v => rfl
  | none =>
    cases args with
    | nil => rfl
    | cons a rest => cases rest <;> rfl

theorem joinItems_renumber (f : Nat → Nat) (items : List Value) (separator : Value) :
    joinItems (items.map (renumber f)) (separator.renumber f) = joinItems items separator := by
  simp [joinItems, Function.comp_def]

/-- A result with other numbers of modules. -/
def Result.renumber (f : Nat → Nat) (r : Result) : Result := r.map (Except.map (Value.renumber f))

theorem attempt_renumber {f : Nat → Nat} {x y : Except Fault Value}
    (h : x = y.map (Value.renumber f)) : attempt x = Result.renumber f (attempt y) := by
  subst h
  cases y <;> rfl

theorem onInt_renumber (f : Nat → Nat) (n : Int64) (m : Method) :
    Result.renumber f (onInt n m) = onInt n m := by
  cases m with
  | abs => exact (attempt_renumber (Value.map_exact_renumber f "abs" _).symm).symm
  | _ => rfl

theorem onFloat_renumber (f : Nat → Nat) (x : Binary64) (args : List Value) (m : Method) :
    onFloat x (args.map (renumber f)) m = Result.renumber f (onFloat x args m) := by
  cases m with
  | toI => exact attempt_renumber (map_integerOf_renumber f x).symm
  | floor | ceil => exact attempt_renumber (map_integerOf_renumber f _).symm
  | round =>
    cases args with
    | nil => exact attempt_renumber (map_integerOf_renumber f _).symm
    | cons a rest =>
      cases a with
      | int places => rfl
      | _ => exact attempt_renumber (map_integerOf_renumber f _).symm
  | _ => rfl

theorem testText_renumber (f : Nat → Nat) (arg : Value) (holds : String → Bool) :
    testText (arg.renumber f) holds = Result.renumber f (testText arg holds) := by
  cases arg <;> rfl

theorem splitText_renumber (f : Nat → Nat) (s : String) (separator : Value) :
    splitText s (separator.renumber f) = (splitText s separator).map (renumber f) := by
  cases separator with
  | str sep =>
    simp only [splitText, Value.renumber_str]
    split <;> simp
  | _ => simp [splitText]

theorem onText_renumber (f : Nat → Nat) (s : String) (args : List Value) (m : Method) :
    onText s (args.map (renumber f)) m = Result.renumber f (onText s args m) := by
  cases m with
  | split =>
    simp only [onText, argument_renumber, splitText_renumber]
    simp [Result.renumber, give, Except.map]
  | startsWith | endsWith | contains =>
    simp only [onText, argument_renumber]
    exact testText_renumber f _ _
  | _ => rfl

theorem onList_renumber (inj : Function.Injective f) (items args : List Value) (m : Method) :
    onList (.list (items.map (renumber f))) (items.map (renumber f)) (args.map (renumber f)) m =
      Result.renumber f (onList (.list items) items args m) := by
  have receiver : Value.list (items.map (renumber f)) = (Value.list items).renumber f :=
    (Value.renumber_list f items).symm
  cases m with
  | length => simp [onList, give, count, Result.renumber, Except.map]
  | isEmpty => simp [onList, give, Result.renumber, Except.map]
  | contains =>
    simp [onList, give, Result.renumber, Except.map, argument_renumber, List.any_map,
      Function.comp_def, Value.looselyEqual_renumber inj]
  | fetch => exact attempt_renumber (receiver ▸ fetchItem_renumber f (.list items) args)
  | first => cases items <;> rfl
  | last => exact congrArg give (receiver ▸ Value.last_renumber f (.list items))
  | reverse => simp [onList, give, Result.renumber, Except.map]
  | sort =>
    simp only [onList, Result.renumber, sortItems_renumber]
    cases sortItems items <;> simp [Except.map]
  | uniq => simp [onList, give, Result.renumber, Except.map, Value.ofElements_renumber inj]
  | flatten =>
    have flat := flattenItems_renumber f items
    rw [Value.renumberAll_eq_map] at flat
    simp [onList, give, Result.renumber, Except.map, flat]
  | compact =>
    simp [onList, give, Result.renumber, Except.map, List.filter_map, Function.comp_def]
  | join => simp only [onList, argument_renumber, joinItems_renumber]; rfl
  | sum => exact attempt_renumber (total_renumber inj items)
  | min => exact attempt_renumber (extreme_renumber f "min" .lt items)
  | max => exact attempt_renumber (extreme_renumber f "max" .gt items)
  | toA => exact congrArg give receiver
  | _ => rfl

theorem onSet_renumber (inj : Function.Injective f) (items args : List Value) (m : Method) :
    onSet (.set (items.map (renumber f))) (items.map (renumber f)) (args.map (renumber f)) m =
      Result.renumber f (onSet (.set items) items args m) := by
  cases m with
  | length => simp [onSet, give, count, Result.renumber, Except.map]
  | isEmpty => simp [onSet, give, Result.renumber, Except.map]
  | contains =>
    simp only [onSet, argument_renumber, ← Value.renumber_set, Value.hasMember_renumber inj]
    rfl
  | sum => exact attempt_renumber (total_renumber inj items)
  | min => exact attempt_renumber (extreme_renumber f "min" .lt items)
  | max => exact attempt_renumber (extreme_renumber f "max" .gt items)
  | toA => simp [onSet, give, Result.renumber, Except.map]
  | _ => rfl

theorem onMap_renumber (inj : Function.Injective f) (entries : List (Value × Value))
    (args : List Value) (m : Method) :
    onMap (.map (entries.map (renumberEntry f))) (entries.map (renumberEntry f))
      (args.map (renumber f)) m = Result.renumber f (onMap (.map entries) entries args m) := by
  cases m with
  | length => simp [onMap, give, count, Result.renumber, Except.map]
  | isEmpty => simp [onMap, give, Result.renumber, Except.map]
  | contains =>
    simp only [onMap, argument_renumber, ← Value.renumber_map, Value.hasKey_renumber inj]
    rfl
  | keys | values => simp [onMap, give, Result.renumber, Except.map, renumberEntry]
  | merge =>
    simp only [onMap, argument_renumber]
    cases argument args 0 with
    | map extra =>
      simp [give, Result.renumber, Except.map, Value.merge_renumber inj]
    | _ => rfl
  | fetch =>
    simp only [onMap, ← Value.renumber_map]
    exact attempt_renumber (fetchEntry_renumber inj (.map entries) args)
  | compact =>
    simp [onMap, give, Result.renumber, Except.map, List.filter_map, Function.comp_def,
      renumberEntry]
  | toA =>
    simp only [onMap, give, Result.renumber, Except.map, Option.map_some, Value.renumber_list,
      List.map_map]
    congr 3
  | _ => rfl

theorem onReceiver_renumber (inj : Function.Injective f) (m : Method) (receiver : Value)
    (args : List Value) : m.onReceiver (receiver.renumber f) (args.map (renumber f)) =
      Result.renumber f (m.onReceiver receiver args) := by
  cases receiver with
  | nil => cases m <;> rfl
  | int n => exact (onInt_renumber f n m).symm
  | float x => exact onFloat_renumber f x args m
  | str s => exact onText_renumber f s args m
  | list items =>
    rw [Value.renumber_list]
    exact onList_renumber inj items args m
  | set items =>
    rw [Value.renumber_set]
    exact onSet_renumber inj items args m
  | map entries =>
    rw [Value.renumber_map]
    exact onMap_renumber inj entries args m
  | _ => rfl

end Method

/-- A method commutes with renumbering. -/
theorem Value.send_renumber {f : Nat → Nat} (inj : Function.Injective f) (receiver : Value)
    (method : String) (args : List Value) :
    (receiver.renumber f).send method (args.map (renumber f)) =
      (receiver.send method args).map (renumber f) := by
  unfold send
  cases Method.ofName? method with
  | none =>
    dsimp only
    rw [typeName_renumber]
    rfl
  | some m =>
    dsimp only [Method.call]
    rw [text_renumber, typeName_renumber, Method.onReceiver_renumber inj]
    split
    · rfl
    · cases m.onReceiver receiver args <;> rfl

end Formulary
