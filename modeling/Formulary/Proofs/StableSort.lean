import Formulary.Proofs.Sorting

/-!
# Sorting lists of any length

A comparison that goes by a ranking sorts a list by it: the result has the same items, in order
(`Sorting.gives_stableSort`). Runs and pivots only choose what is compared. That nothing is lost on
the way holds of every comparison, since sorting breaks off where the ends of a merge do not meet.
-/

namespace Formulary.Sorting

open Lifting (gives_ite)

variable {α : Type} {m : Type → Type} [Monad m] {L : Lifting m} {K : Ranking α}
  {less : α → α → m Bool}

/-- The order of a stretch, which is descending or is not. -/
def Ranking.Along (K : Ranking α) (descending : Bool) (x y : α) : Prop :=
  if descending then K.Le y x else K.Le x y

/-! ### Merging -/

/-- Two lists in order are linked by the last item of the one and the first of the other. -/
theorem Ranking.sorted_link {xs ys zs : List α} {x y : α} (hx : K.Sorted (xs ++ x :: zs))
    (hy : K.Sorted (y :: ys)) (le : K.Le x y) : K.Sorted (xs ++ x :: y :: ys) := by
  obtain ⟨hxs, -, before⟩ := Ranking.sorted_append.mp hx
  obtain ⟨after, -⟩ := List.pairwise_cons.mp hy
  have follows : ∀ z ∈ y :: ys, K.Le x z := by
    intro z hz
    rcases List.mem_cons.mp hz with rfl | hz
    · exact le
    · exact K.le_trans le (after z hz)
  refine Ranking.sorted_append.mpr ⟨hxs, List.pairwise_cons.mpr ⟨follows, hy⟩, fun a ha z hz ↦ ?_⟩
  have precedes := before a ha x List.mem_cons_self
  rcases List.mem_cons.mp hz with rfl | hz
  · exact precedes
  · exact K.le_trans precedes (follows z hz)

section

variable (hless : Compares L K less)

include hless

theorem gives_mergeUp (merged left right : List α) (hl : K.Sorted (merged.reverse ++ left))
    (hr : K.Sorted (merged.reverse ++ right)) :
    L.Gives (K.Sorts (merged ++ (left ++ right))) (mergeUp less merged left right) := by
  fun_induction mergeUp less merged left right with
  | case1 merged right => exact L.gives_pure ⟨merged.reverse_perm.append_right right, hr⟩
  | case2 merged left _ =>
    rw [List.append_nil]
    exact L.gives_pure ⟨merged.reverse_perm.append_right left, hl⟩
  | case3 merged l left r right ihr ihl =>
    refine (hless r l).bind fun b tells ↦ ?_
    cases b with
    | true =>
      refine (ihr ?_ ?_).mono fun out h ↦ ⟨h.perm.trans ?_, h.sorted⟩
      · rw [List.reverse_cons, List.append_assoc]
        exact Ranking.sorted_link hr (Ranking.sorted_append.mp hl).2.1 (K.le_of_lt tells.eq_true)
      · rwa [List.reverse_cons, List.append_assoc]
      · exact ((List.perm_middle.append_left merged).trans List.perm_middle).symm
    | false =>
      refine (ihl ?_ ?_).mono fun out h ↦ ⟨h.perm.trans ?_, h.sorted⟩
      · rwa [List.reverse_cons, List.append_assoc]
      · rw [List.reverse_cons, List.append_assoc]
        exact Ranking.sorted_link hl (Ranking.sorted_append.mp hr).2.1 tells.eq_false
      · exact List.perm_middle.symm

theorem gives_mergeDown (merged left right : List α) (hl : K.Sorted (left.reverse ++ merged))
    (hr : K.Sorted (right.reverse ++ merged)) :
    L.Gives (K.Sorts (merged ++ (left ++ right))) (mergeDown less merged left right) := by
  fun_induction mergeDown less merged left right with
  | case1 merged right =>
    exact L.gives_pure ⟨(right.reverse_perm.append_right merged).trans List.perm_append_comm, hr⟩
  | case2 merged left _ =>
    rw [List.append_nil]
    exact L.gives_pure ⟨(left.reverse_perm.append_right merged).trans List.perm_append_comm, hl⟩
  | case3 merged l left r right ihl ihr =>
    rw [List.reverse_cons, List.append_assoc] at hl hr
    refine (hless r l).bind fun b tells ↦ ?_
    cases b with
    | true =>
      refine (ihl hl ?_).mono fun out h ↦ ⟨h.perm.trans List.perm_middle.symm, h.sorted⟩
      rw [List.reverse_cons, List.append_assoc]
      exact Ranking.sorted_link hr (Ranking.sorted_append.mp hl).2.1 (K.le_of_lt tells.eq_true)
    | false =>
      refine (ihr ?_ hr).mono fun out h ↦ ⟨h.perm.trans ?_, h.sorted⟩
      · rw [List.reverse_cons, List.append_assoc]
        exact Ranking.sorted_link hl (Ranking.sorted_append.mp hr).2.1 tells.eq_false
      · exact ((List.perm_middle.append_left merged).trans List.perm_middle).symm

theorem gives_mergeSorted {left right : List α} (hl : K.Sorted left) (hr : K.Sorted right) :
    L.Gives (K.Sorts (left ++ right)) (mergeSorted less left right) := by
  refine gives_ite (fun _ ↦ gives_mergeUp hless [] left right hl hr) fun _ ↦ ?_
  refine (gives_mergeDown hless [] left.reverse right.reverse ?_ ?_).mono fun out h ↦ ?_
  · rwa [List.reverse_reverse, List.append_nil]
  · rwa [List.reverse_reverse, List.append_nil]
  · exact ⟨h.perm.trans (left.reverse_perm.append right.reverse_perm), h.sorted⟩

/-! ### Runs -/

omit [Monad m] hless in
theorem Ranking.Along.trans {descending : Bool} {x y z : α} (hxy : K.Along descending x y)
    (hyz : K.Along descending y z) : K.Along descending x z := by
  cases descending with
  | true => exact K.le_trans hyz hxy
  | false => exact K.le_trans hxy hyz

omit [Monad m] hless in
theorem Ranking.Tells.along {x y : α} {b : Bool} (tells : K.Tells y x b) : K.Along b x y := by
  cases b with
  | true => exact K.le_of_lt tells.eq_true
  | false => exact tells.eq_false

omit [Monad m] hless in
/-- A stretch goes on before its first item. -/
theorem Ranking.Tells.stretch {x y : α} {b : Bool} {rest : List α} (tells : K.Tells y x b)
    (pairwise : (y :: rest).Pairwise (K.Along b)) : (x :: y :: rest).Pairwise (K.Along b) := by
  refine List.pairwise_cons.mpr ⟨fun z hz ↦ ?_, pairwise⟩
  rcases List.mem_cons.mp hz with rfl | hz
  · exact tells.along
  · exact tells.along.trans ((List.pairwise_cons.mp pairwise).1 z hz)

theorem gives_stretch (descending : Bool) (count : Nat) (previous : α) (items : List α) :
    L.Gives (fun n ↦ ∃ k ≤ items.length, n = count + k ∧
        (previous :: items.take k).Pairwise (K.Along descending))
      (stretch less descending count previous items) := by
  induction items generalizing count previous with
  | nil => exact L.gives_pure ⟨0, Nat.le_refl 0, rfl, List.pairwise_singleton _ _⟩
  | cons x rest ih =>
    rw [stretch]
    refine (hless x previous).bind fun b tells ↦ gives_ite (fun goes_on ↦ ?_) fun _ ↦ ?_
    · obtain rfl : b = descending := beq_iff_eq.mp goes_on
      refine (ih (count + 1) x).mono fun n h ↦ ?_
      obtain ⟨k, bound, count_eq, pairwise⟩ := h
      refine ⟨k + 1, Nat.succ_le_succ bound, by omega, ?_⟩
      rw [List.take_succ_cons]
      exact tells.stretch pairwise
    · exact L.gives_pure ⟨0, Nat.zero_le _, rfl, List.pairwise_singleton _ _⟩

theorem gives_findRun (items : List α) :
    L.Gives (fun found ↦ found.1 ≤ items.length ∧
      (items.take found.1).Pairwise (K.Along found.2)) (findRun less items) := by
  rcases items with _ | ⟨first, _ | ⟨second, rest⟩⟩
  · exact L.gives_pure ⟨Nat.le_refl _, .nil⟩
  · exact L.gives_pure ⟨Nat.le_refl _, List.pairwise_singleton _ _⟩
  · refine (hless second first).bind fun descending tells ↦ ?_
    refine (gives_stretch hless descending 2 second rest).bind fun n h ↦ ?_
    obtain ⟨k, bound, count_eq, pairwise⟩ := h
    obtain rfl : n = k + 1 + 1 := by omega
    exact L.gives_pure ⟨Nat.succ_le_succ (Nat.succ_le_succ bound), tells.stretch pairwise⟩

theorem gives_runAhead (minRun size : Nat) (items : List α) :
    L.Gives (fun found ↦ found.1 ≤ items.length ∧
      (items.take found.1).Pairwise (K.Along found.2)) (runAhead less minRun size items) :=
  gives_ite (fun _ ↦ gives_findRun hless items) fun _ ↦ L.gives_pure ⟨Nat.zero_le _, .nil⟩

omit hless in
theorem sorts_of_along {descending : Bool} {xs : List α}
    (pairwise : xs.Pairwise (K.Along descending)) :
    K.Sorts xs (if descending then xs.reverse else xs) := by
  cases descending with
  | true => exact ⟨xs.reverse_perm, Ranking.sorted_reverse.mpr pairwise⟩
  | false => exact ⟨.refl _, pairwise⟩

/-- A run says how many items it has, and its items are in order where it says so. -/
structure Run.Sound (K : Ranking α) (run : Run α) : Prop where
  size_eq : run.size = run.items.length
  sorted : run.sorted = true → K.Sorted run.items

/-- A run and the rest of a list from which it was taken. -/
structure Run.Starts (K : Ranking α) (items : List α) (next : Run α × List α) : Prop where
  sound : next.1.Sound K
  perm : (next.1.items ++ next.2).Perm items
  size_pos : 0 < next.1.size

theorem gives_nextRun [BreaksOff m] (hbreak : MayBreakOff L K) (eager : Bool) {minRun : Nat}
    (positive : 0 < minRun) {items : List α} (some : items ≠ []) :
    L.Gives (Run.Starts K items) (nextRun less eager minRun items.length items) := by
  have whole (n : Nat) : (items.take n ++ items.drop n).Perm items := by
    rw [List.take_append_drop]
  have length := List.length_pos_iff.mpr some
  unfold nextRun
  simp only [List.splitAt_eq]
  refine (gives_runAhead hless minRun items.length items).bind fun found stretch ↦ ?_
  refine gives_ite (fun long ↦ ?_) fun short ↦ gives_ite (fun _ ↦ ?_) fun _ ↦ ?_
  · have run := sorts_of_along stretch.2
    refine L.gives_pure ⟨⟨?_, fun _ ↦ run.sorted⟩, (run.perm.append_right _).trans (whole _), ?_⟩
    · rw [run.perm.length_eq, List.length_take, Nat.min_eq_left stretch.1]
    · exact Nat.lt_of_lt_of_le positive long
  · refine (gives_smallSort hless hbreak _).bind fun run h ↦ ?_
    refine L.gives_pure ⟨⟨?_, fun _ ↦ h.sorted⟩, (h.perm.append_right _).trans (whole _), ?_⟩
    · rw [h.perm.length_eq, List.length_take]
    · exact Nat.lt_min.mpr ⟨by decide, length⟩
  · refine L.gives_pure ⟨⟨?_, fun h ↦ absurd h Bool.false_ne_true⟩, whole minRun, ?_⟩
    · rw [List.length_take]
    · exact Nat.lt_min.mpr ⟨positive, length⟩

end

section

variable {sort : List α → m (List α)}

theorem gives_inOrder (hsort : ∀ items, L.Gives (K.Sorts items) (sort items)) {run : Run α}
    (sound : run.Sound K) : L.Gives (K.Sorts run.items) (run.inOrder sort) :=
  gives_ite (fun sorted ↦ L.gives_pure ⟨.refl _, sound.sorted sorted⟩) fun _ ↦ hsort _

theorem gives_joinRuns (hless : Compares L K less)
    (hsort : ∀ items, L.Gives (K.Sorts items) (sort items)) (room : Nat) {left right : Run α}
    (hl : left.Sound K) (hr : right.Sound K) :
    L.Gives (fun run ↦ run.Sound K ∧ run.items.Perm (left.items ++ right.items))
      (joinRuns less sort room left right) := by
  have size : left.size + right.size = (left.items ++ right.items).length := by
    rw [hl.size_eq, hr.size_eq, List.length_append]
  refine gives_ite (fun _ ↦ L.gives_pure ⟨⟨size, fun h ↦ absurd h Bool.false_ne_true⟩, .refl _⟩)
    fun _ ↦ ?_
  refine (gives_inOrder hsort hl).bind fun first h₁ ↦ ?_
  refine (gives_inOrder hsort hr).bind fun second h₂ ↦ ?_
  refine (gives_mergeSorted hless h₁.sorted h₂.sorted).bind fun out h ↦ ?_
  have perm := h.perm.trans (h₁.perm.append h₂.perm)
  exact L.gives_pure ⟨⟨size.trans perm.length_eq.symm, fun _ ↦ h.sorted⟩, perm⟩

/-- The items of the runs before the last one. -/
abbrev itemsBefore (before : List (Run α × Nat)) : List α := before.flatMap (·.1.items)

/-- Runs that are joined with the last one still hold the same items, and none is left before it if
all of them lie deep enough. -/
structure Collapses (K : Ranking α) (depth : Nat) (before : List (Run α × Nat)) (last : Run α)
    (joined : List (Run α × Nat) × Run α) : Prop where
  before_sound : ∀ e ∈ joined.1, e.1.Sound K
  last_sound : joined.2.Sound K
  perm : (itemsBefore joined.1 ++ joined.2.items).Perm (itemsBefore before ++ last.items)
  all : depth = 0 → joined.1 = []

theorem gives_collapse (hless : Compares L K less)
    (hsort : ∀ items, L.Gives (K.Sorts items) (sort items)) (room depth : Nat)
    {before : List (Run α × Nat)} {last : Run α} (hb : ∀ e ∈ before, e.1.Sound K)
    (hl : last.Sound K) :
    L.Gives (Collapses K depth before last) (collapse less sort room depth before last) := by
  induction before generalizing last with
  | nil => exact L.gives_pure ⟨hb, hl, .refl _, fun _ ↦ rfl⟩
  | cons e before ih =>
    obtain ⟨he, hbefore⟩ := List.forall_mem_cons.mp hb
    rw [collapse]
    refine gives_ite (fun _ ↦ ?_) fun shallow ↦ ?_
    · refine (gives_joinRuns hless hsort room he hl).bind fun run one ↦ ?_
      refine (ih hbefore one.1).mono fun joined h ↦
        ⟨h.before_sound, h.last_sound, h.perm.trans ?_, h.all⟩
      rw [itemsBefore, itemsBefore, List.flatMap_cons, List.append_assoc]
      exact (one.2.append_left _).trans (List.perm_append_comm_assoc _ _ _)
    · exact L.gives_pure ⟨hb, hl, .refl _, fun zero ↦ by omega⟩

theorem minRunOf_pos {size : Nat} (positive : 0 < size) : 0 < minRunOf size := by
  unfold minRunOf
  split
  · omega
  · next long =>
    have log : 1 ≤ size.log2 := (Nat.le_log2 (by omega)).mpr (by omega)
    have power : Nat.pow 2 1 ≤ Nat.pow 2 ((1 + size.log2) / 2) :=
      Nat.pow_le_pow_right Nat.two_pos (by omega)
    exact Nat.div_pos (Nat.le_add_right_of_le power) Nat.two_pos

section

variable [BreaksOff m] (hless : Compares L K less) (hbreak : MayBreakOff L K)
  (hsort : ∀ items, L.Gives (K.Sorts items) (sort items))

include hless hbreak hsort

/-- The runs that are joined make up what stands before the rest of the list. Each turn takes at
least one item off the rest, so the fuel lasts, and only the first turn starts at the start. -/
theorem gives_joinAll (eager : Bool) (room fuel : Nat) :
    ∀ (before : List (Run α × Nat)) (last : Run α) (start : Nat) (rest : List α),
    rest.length < fuel → (start = 0 → itemsBefore before ++ last.items = []) →
    (∀ e ∈ before, e.1.Sound K) → last.Sound K →
    L.Gives (fun run ↦ run.Sound K ∧ run.items.Perm (itemsBefore before ++ last.items ++ rest))
      (joinAll less eager sort room (start + rest.length) fuel before last start rest) := by
  induction fuel with
  | zero => exact fun before last start rest short ↦ absurd short (Nat.not_lt_zero _)
  | succ fuel ih =>
    intro before last start rest short first hb hl
    rw [joinAll]
    refine gives_ite (fun done ↦ ?_) fun more ↦ ?_
    · refine (gives_collapse hless hsort room 0 hb hl).bind fun joined h ↦ ?_
      have perm := h.perm
      rw [h.all rfl] at perm
      rw [List.isEmpty_iff.mp done, List.append_nil]
      exact L.gives_pure ⟨h.last_sound, perm⟩
    · have some : rest ≠ [] := fun none ↦ more (List.isEmpty_iff.mpr none)
      have length := List.length_pos_iff.mpr some
      have positive : 0 < minRunOf (start + rest.length) := minRunOf_pos (by omega)
      rw [Nat.add_sub_cancel_left]
      refine (gives_nextRun hless hbreak eager positive some).bind fun next h ↦ ?_
      have total : next.1.size + next.2.length = rest.length := by
        rw [h.sound.size_eq, ← List.length_append, h.perm.length_eq]
      have shorter : next.2.length < fuel := by
        have := h.size_pos
        omega
      refine gives_ite (fun zero ↦ ?_) fun _ ↦ ?_
      · rw [zero, Nat.zero_add, ← total, first zero, List.nil_append]
        refine (ih [] next.1 next.1.size next.2 shorter ?_ (List.forall_mem_nil _) h.sound).mono
          fun run result ↦ ?_
        · exact fun none ↦ absurd none (Nat.ne_of_gt h.size_pos)
        · exact ⟨result.1, result.2.trans h.perm⟩
      · refine (gives_collapse hless hsort room _ hb hl).bind fun joined collapsed ↦ ?_
        have stop : start + rest.length = start + next.1.size + next.2.length := by omega
        rw [stop]
        refine (ih _ next.1 _ next.2 shorter ?_ ?_ h.sound).mono fun run result ↦ ?_
        · exact fun none ↦ absurd none (by have := h.size_pos; omega)
        · exact List.forall_mem_cons.mpr ⟨collapsed.last_sound, collapsed.before_sound⟩
        · refine ⟨result.1, result.2.trans ?_⟩
          rw [itemsBefore, List.flatMap_cons, List.append_assoc]
          exact (List.perm_append_comm.trans collapsed.perm).append h.perm

theorem gives_runSort (eager : Bool) (room : Nat) (items : List α) :
    L.Gives (K.Sorts items) (runSort less eager sort room items) := by
  have joined := gives_joinAll hless hbreak hsort eager room (items.length + 1) [] ⟨true, 0, []⟩ 0
    items (Nat.lt_succ_self _) (fun _ ↦ rfl) (List.forall_mem_nil _) ⟨rfl, fun _ ↦ .nil⟩
  rw [Nat.zero_add] at joined
  refine joined.bind fun run whole ↦ ?_
  exact (gives_inOrder hsort whole.1).mono fun out h ↦ ⟨h.perm.trans whole.2, h.sorted⟩

end

end

/-! ### Pivots -/

section

variable (hless : Compares L K less)

include hless

theorem gives_median (get : Nat → α) (a b c : Nat) :
    L.Gives (fun _ ↦ True) (median less get a b c) := by
  unfold median
  refine (hless _ _).bind fun first _ ↦ (hless _ _).bind fun second _ ↦ ?_
  refine gives_ite (fun _ ↦ ?_) fun _ ↦ L.gives_pure trivial
  exact (hless _ _).bind fun _ _ ↦ L.gives_pure trivial

theorem gives_medianNear (get : Nat → α) (a b c n : Nat) :
    L.Gives (fun _ ↦ True) (medianNear less get a b c n) := by
  fun_induction medianNear less get a b c n with
  | case1 a b c n _ k iha ihb ihc =>
    refine iha.bind fun _ _ ↦ ihb.bind fun _ _ ↦ ihc.bind fun _ _ ↦ ?_
    exact gives_median hless get _ _ _
  | case2 a b c n _ => exact gives_median hless get a b c

theorem gives_pivotPlace (get : Nat → α) (size : Nat) :
    L.Gives (fun _ ↦ True) (pivotPlace less get size) :=
  gives_ite (fun _ ↦ gives_median hless _ _ _ _) fun _ ↦ gives_medianNear hless _ _ _ _ _

/-- A pivot that repeats the one before it may stand before it. -/
theorem gives_repeatsPivot (ancestor : Option α) (pivot : α) :
    L.Gives (fun again ↦ again = true → ∃ p ∈ ancestor, K.Le pivot p)
      (repeatsPivot less ancestor pivot) := by
  cases ancestor with
  | none => exact L.gives_pure fun again ↦ absurd again Bool.false_ne_true
  | some p =>
    refine (hless p pivot).bind fun b tells ↦ L.gives_pure fun again ↦ ⟨p, rfl, ?_⟩
    obtain rfl : b = false := by simpa using again
    exact tells.eq_false

end

/-- Every item is put where it is said to go, and the one at `place` where it is not asked about. -/
structure Divides (Q : α → Bool → Prop) (items : List α) (parts : List α × List α) : Prop where
  perm : (parts.1 ++ parts.2).Perm items
  first : ∀ x ∈ parts.1, Q x true
  second : ∀ x ∈ parts.2, Q x false

section

variable {Q : α → Bool → Prop} {place : Nat} {placeFirst : Bool} {goesFirst : α → m Bool}
  (hgoes : ∀ x, L.Gives (Q x) (goesFirst x))

include hgoes

theorem gives_divideFrom (items : List α) : ∀ (first second : List α) (i : Nat),
    (∀ k x, items[k]? = some x → i + k = place → Q x placeFirst) →
    (∀ x ∈ first, Q x true) → (∀ x ∈ second, Q x false) →
    L.Gives (Divides Q (first ++ (second ++ items)))
      (divideFrom place placeFirst goesFirst first second i items) := by
  induction items with
  | nil =>
    intro first second i here hf hs
    rw [List.append_nil]
    exact L.gives_pure ⟨first.reverse_perm.append second.reverse_perm,
      fun x hx ↦ hf x (List.mem_reverse.mp hx), fun x hx ↦ hs x (List.mem_reverse.mp hx)⟩
  | cons x rest ih =>
    intro first second i here hf hs
    have goes : L.Gives (Q x) (if i = place then pure placeFirst else goesFirst x) :=
      gives_ite (fun placed ↦ L.gives_pure (here 0 x rfl placed)) fun _ ↦ hgoes x
    have later : ∀ k y, rest[k]? = some y → i + 1 + k = place → Q y placeFirst :=
      fun k y found placed ↦ here (k + 1) y found (by omega)
    rw [divideFrom]
    refine goes.bind fun b hb ↦ ?_
    cases b with
    | true =>
      refine (ih (x :: first) second (i + 1) later (List.forall_mem_cons.mpr ⟨hb, hf⟩) hs).mono
        fun parts h ↦ ⟨h.perm.trans ?_, h.first, h.second⟩
      exact ((List.perm_middle.append_left first).trans List.perm_middle).symm
    | false =>
      refine (ih first (x :: second) (i + 1) later hf (List.forall_mem_cons.mpr ⟨hb, hs⟩)).mono
        fun parts h ↦ ⟨h.perm.trans ?_, h.first, h.second⟩
      exact List.perm_middle.symm.append_left first

theorem gives_divide {items : List α} (here : ∀ x, items[place]? = some x → Q x placeFirst) :
    L.Gives (Divides Q items) (divide place placeFirst goesFirst items) :=
  gives_divideFrom hgoes items [] [] 0
    (fun k x found placed ↦ here x (by rwa [← placed, Nat.zero_add])) (List.forall_mem_nil _)
    (List.forall_mem_nil _)

end

/-- The items are known not to stand before an earlier pivot. -/
abbrev Follows (K : Ranking α) (ancestor : Option α) (items : List α) : Prop :=
  ∀ p ∈ ancestor, ∀ x ∈ items, K.Le p x

theorem follows_none {items : List α} : Follows K none items := fun p hp ↦ by cases hp

theorem follows_some {pivot : α} {items : List α} (h : ∀ x ∈ items, K.Le pivot x) :
    Follows K (some pivot) items := by
  intro p hp
  cases hp
  exact h

section

variable (hless : Compares L K less)

include hless

theorem gives_divideAround {ancestor : Option α} {place : Nat} {pivot : α} {items : List α}
    (follows : Follows K ancestor items) (here : ∀ x, items[place]? = some x → x = pivot) :
    L.Gives (fun parts ↦ (parts.1 = [] → ∀ x ∈ items, K.Le pivot x) ∧
        (parts.1 ≠ [] → Divides (K.Tells · pivot) items parts))
      (divideAround less ancestor place pivot items) := by
  unfold divideAround
  refine (gives_repeatsPivot hless ancestor pivot).bind fun again repeated ↦
    gives_ite (fun h ↦ ?_) fun _ ↦ ?_
  · obtain ⟨p, hp, le⟩ := repeated h
    exact L.gives_pure ⟨fun _ x hx ↦ K.le_trans le (follows p hp x hx), fun some ↦ absurd rfl some⟩
  · refine (gives_divide (fun x ↦ hless x pivot) fun x found ↦ ?_).mono fun parts h ↦
      ⟨fun none x hx ↦ ?_, fun _ ↦ h⟩
    · rw [here x found]
      exact K.le_refl pivot
    · have perm := h.perm
      rw [none, List.nil_append] at perm
      exact (h.second x (perm.mem_iff.mpr hx)).eq_false

theorem gives_setApart {sort : List α → m (List α)}
    (hsort : ∀ items, L.Gives (K.Sorts items) (sort items)) {place : Nat} {pivot : α}
    {items : List α} (least : ∀ x ∈ items, K.Le pivot x)
    (here : ∀ x, items[place]? = some x → x = pivot) :
    L.Gives (K.Sorts items) (setApart less sort place pivot items) := by
  have goes (x : α) : L.Gives (fun first ↦ K.Tells pivot x !first) (do return !(← less pivot x)) :=
    (hless pivot x).bind fun b tells ↦ L.gives_pure (by rwa [Bool.not_not])
  have placed : ∀ x, items[place]? = some x → K.Tells pivot x !true := by
    intro x found
    rw [here x found]
    exact K.le_refl pivot
  refine (gives_divide goes placed).bind fun parts h ↦ ?_
  refine (hsort parts.2).bind fun larger sorts ↦ L.gives_pure ⟨?_, ?_⟩
  · exact (sorts.perm.append_left parts.1).trans h.perm
  · have inside : ∀ x ∈ parts.1, x ∈ items :=
      fun x hx ↦ h.perm.mem_iff.mp (List.mem_append_left _ hx)
    have below : ∀ x ∈ parts.1, K.Le x pivot := fun x hx ↦ (h.first x hx).eq_false
    have equal : K.Sorted parts.1 := List.pairwise_of_forall_mem_list fun x hx y hy ↦
      K.le_trans (below x hx) (least y (inside y hy))
    refine Ranking.sorted_append_of_between equal sorts.sorted below fun x hx ↦ ?_
    exact K.le_of_lt (h.second x (sorts.perm.mem_iff.mp hx)).eq_true

variable [BreaksOff m] (hbreak : MayBreakOff L K)

include hbreak

theorem gives_pivotSort (limit : Nat) : ∀ (ancestor : Option α) (items : List α),
    Follows K ancestor items → L.Gives (K.Sorts items) (pivotSort less limit ancestor items) := by
  induction limit with
  | zero =>
    intro ancestor items _
    cases items with
    | nil => exact L.gives_pure ⟨.refl _, .nil⟩
    | cons first others =>
      rw [pivotSort]
      refine gives_ite (fun _ ↦ gives_smallSort hless hbreak _) fun _ ↦ ?_
      exact gives_runSort hless hbreak (gives_smallSort hless hbreak) true _ _
  | succ limit ih =>
    intro ancestor items follows
    cases items with
    | nil => exact L.gives_pure ⟨.refl _, .nil⟩
    | cons first others =>
      rw [pivotSort]
      refine gives_ite (fun _ ↦ gives_smallSort hless hbreak _) fun _ ↦ ?_
      refine (gives_pivotPlace hless _ _).bind fun place _ ↦ ?_
      dsimp only
      generalize hpivot : (first :: others).toArray.getD place first = pivot
      have here : ∀ x, (first :: others)[place]? = some x → x = pivot := by
        intro x found
        rw [← hpivot, Array.getD_eq_getD_getElem?, List.getElem?_toArray, found, Option.getD_some]
      refine (gives_divideAround hless follows here).bind fun parts around ↦ ?_
      refine gives_ite (fun none ↦ ?_) fun some ↦ ?_
      · exact gives_setApart hless (fun items ↦ ih _ items follows_none)
          (around.1 (List.isEmpty_iff.mp none)) here
      · have h := around.2 fun none ↦ some (List.isEmpty_iff.mpr none)
        have inside : ∀ x ∈ parts.1, x ∈ first :: others :=
          fun x hx ↦ h.perm.mem_iff.mp (List.mem_append_left _ hx)
        have above : ∀ x ∈ parts.2, K.Le pivot x := fun x hx ↦ (h.second x hx).eq_false
        refine (ih _ parts.2 (follows_some above)).bind fun larger h₂ ↦ ?_
        refine (ih ancestor parts.1 fun p hp x hx ↦ follows p hp x (inside x hx)).bind
          fun smaller h₁ ↦ L.gives_pure ⟨(h₁.perm.append h₂.perm).trans h.perm, ?_⟩
        refine Ranking.sorted_append_of_between (p := pivot) h₁.sorted h₂.sorted (fun x hx ↦ ?_)
          fun x hx ↦ ?_
        · exact K.le_of_lt (h.first x (h₁.perm.mem_iff.mp hx)).eq_true
        · exact above x (h₂.perm.mem_iff.mp hx)

/-- A comparison that goes by a ranking sorts by it. -/
theorem gives_stableSort (items : List α) : L.Gives (K.Sorts items) (stableSort less items) :=
  gives_ite (fun _ ↦ gives_insertionSort hless items) fun _ ↦
    gives_runSort hless hbreak
      (fun piece ↦ gives_pivotSort hless hbreak _ none piece follows_none) _ _ items

end

end Formulary.Sorting
