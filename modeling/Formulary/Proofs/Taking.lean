import Formulary.Proofs.EvalLaws
import Formulary.Proofs.ReadFrom
import Formulary.Proofs.Reading
import Formulary.Script.Parser
import Mathlib.Data.List.Basic

/-!
# The tokens that readers take

A reader takes tokens and makes something of them. `Reader.Takes` says what, if it succeeds at a
cursor, in terms of just these tokens; none of them ends a line. The rules below follow a reader
from cursor to cursor, and they show of each reader that expressions are read from the tokens that
are taken for them (`Reader.takes_expression`).
-/

namespace Formulary

open Token (Kind)

/-- The tokens with which lines end. -/
def Token.Kind.endsLine : Kind → Bool
  | newline | eof => true
  | _ => false

/-! ### Cursors -/

namespace Cursor

/-- From one cursor to another the tokens are taken, none of which ends a line. -/
structure Passes (c : Cursor) (ts : List Token) (c' : Cursor) : Prop where
  ahead : c.ahead = ts ++ c'.ahead
  inLine : ∀ t ∈ ts, t.kind.endsLine = false
  still : ts = [] → c' = c
  last : ∀ t ∈ ts.getLast?, c'.previous = t.span

variable {c c₁ c₂ : Cursor} {ts us : List Token}

theorem passes_nil (c : Cursor) : c.Passes [] c :=
  ⟨rfl, List.forall_mem_nil _, fun _ ↦ rfl, fun _ h ↦ by cases h⟩

theorem Passes.trans (first : c.Passes ts c₁) (second : c₁.Passes us c₂) :
    c.Passes (ts ++ us) c₂ where
  ahead := by rw [first.ahead, second.ahead, List.append_assoc]
  inLine := List.forall_mem_append.mpr ⟨first.inLine, second.inLine⟩
  still none := by
    obtain ⟨hts, hus⟩ := List.append_eq_nil_iff.mp none
    rw [second.still hus, first.still hts]
  last t ht := by
    rcases us.eq_nil_or_concat with rfl | ⟨us', u, rfl⟩
    · rw [second.still rfl]
      rw [List.append_nil] at ht
      exact first.last t ht
    · apply second.last t
      simpa using ht

/-- A token that is not the end of the file can be taken. -/
theorem ahead_eq (more : c.current.kind ≠ .eof) : c.ahead = c.current :: c.advance.ahead := by
  have tail : c.advance.ahead = c.ahead.tail := by rw [advance, if_neg more]
  rw [tail]
  unfold current at more ⊢
  cases ahead : c.ahead with
  | nil =>
    rw [ahead] at more
    exact absurd rfl more
  | cons t rest => rfl

theorem passes_advance (inLine : c.current.kind.endsLine = false) :
    c.Passes [c.current] c.advance := by
  have more : c.current.kind ≠ .eof := by
    intro h
    rw [h] at inLine
    cases inLine
  refine ⟨ahead_eq more, List.forall_mem_singleton.mpr inLine,
    fun none ↦ absurd none (List.cons_ne_nil _ _), fun t ht ↦ ?_⟩
  obtain rfl := Option.some.inj ht
  rw [advance, if_neg more]
  rfl

theorem previous_advance (inLine : c.current.kind.endsLine = false) :
    c.advance.previous = c.current.span := (passes_advance inLine).last _ rfl

theorem Passes.starts (h : c.Passes ts c₁) (some : ts ≠ []) : [c.current] <+: ts := by
  obtain ⟨t, rest, rfl⟩ := List.exists_cons_of_ne_nil some
  have here : c.current = t := by rw [current, h.ahead]; rfl
  exact ⟨rest, by rw [here]; rfl⟩

theorem Passes.ends (h : c.Passes ts c₁) (some : ts ≠ []) :
    ∃ t ∈ ts.getLast?, c₁.previous = t.span := by
  obtain ⟨t, ht⟩ := Option.isSome_iff_exists.mp (List.getLast?_isSome.mpr some)
  exact ⟨t, ht, h.last t ht⟩

end Cursor

namespace Reader

variable {α β : Type} {c : Cursor} {r : Reader α} {f : α → Reader β}
  {P : List Token → α → Prop} {Q : List Token → β → Prop} {k : Kind}

/-- If the reader succeeds at the cursor, then what it returns and the tokens that it takes are as
described, and none of these ends a line. -/
def Takes (c : Cursor) (r : Reader α) (P : List Token → α → Prop) : Prop :=
  ∀ a c', r.run c = .ok (a, c') → ∃ ts, c.Passes ts c' ∧ P ts a

theorem takes_pure {a : α} (h : P [] a) : Takes c (pure a) P := by
  intro b c' ran
  cases ran
  exact ⟨[], c.passes_nil, h⟩

theorem Takes.bind (first : Takes c r P) (second : ∀ a ts c₁, c.Passes ts c₁ → P ts a →
      Takes c₁ (f a) fun us b ↦ Q (ts ++ us) b) : Takes c (r >>= f) Q := by
  intro b c₂ ran
  obtain ⟨⟨a, c₁⟩, ran₁, ran₂⟩ := bind_eq_ok ran
  obtain ⟨ts, passes, ha⟩ := first a c₁ ran₁
  obtain ⟨us, passes', hb⟩ := second a ts c₁ passes ha b c₂ ran₂
  exact ⟨ts ++ us, passes.trans passes', hb⟩

theorem Takes.imp {P' : List Token → α → Prop} (h : Takes c r P)
    (weaker : ∀ ts a, P ts a → P' ts a) : Takes c r P' := by
  intro a c' ran
  obtain ⟨ts, passes, ha⟩ := h a c' ran
  exact ⟨ts, passes, weaker ts a ha⟩

/-! ### Single tokens -/

theorem takes_kind_bind {f : Kind → Reader β} (h : Takes c (f c.current.kind) Q) :
    Takes c (kind >>= f) Q := h

theorem takes_get_bind {f : Cursor → Reader β} (h : Takes c (f c) Q) : Takes c (get >>= f) Q := h

theorem takes_span_bind {f : Span → Reader β} (h : Takes c (f c.current.span) Q) :
    Takes c (span >>= f) Q := h

theorem takes_spanFrom_bind {start : Span} {f : Span → Reader β}
    (h : Takes c (f (start.merge c.previous)) Q) : Takes c (spanFrom start >>= f) Q := h

/-- A span that goes up to the last token that was taken. -/
theorem takes_spanFrom_pure {c' : Cursor} {ts : List Token} {start : Span} {form : Span → α}
    (passes : c.Passes ts c') (some : ts ≠ [])
    (h : ∀ last ∈ ts.getLast?, P [] (form (start.merge last.span))) :
    Takes c' (do return form (← spanFrom start)) P := by
  obtain ⟨last, ends, previous⟩ := passes.ends some
  apply takes_spanFrom_bind
  rw [previous]
  exact takes_pure (h last ends)

theorem Takes.bind_spanFrom {start : Span} {form : α → Span → β} (first : Takes c r P)
    (some : ∀ ts a, P ts a → ts ≠ []) (h : ∀ ts a c', c.Passes ts c' → P ts a →
      ∀ last ∈ ts.getLast?, Q ts (form a (start.merge last.span))) :
    Takes c (do return form (← r) (← spanFrom start)) Q := by
  apply first.bind
  intro a ts c' passes ha
  apply takes_spanFrom_pure passes (some ts a ha)
  intro last ends
  rw [List.append_nil]
  exact h ts a c' passes ha last ends

theorem takes_remaining_bind {f : Nat → Reader β} (h : Takes c (f c.count) Q) :
    Takes c (remaining >>= f) Q := h

theorem takes_atLineEnd_bind {f : Bool → Reader β} (h : ∀ b, Takes c (f b) Q) :
    Takes c (atLineEnd >>= f) Q := h _

theorem takes_refuse (cause : Refusal.Cause) : Takes c (refuse cause) P := by
  intro a c' ran
  cases ran

theorem takes_expected (what : String) : Takes c (expected what) P := by
  intro a c' ran
  cases ran

theorem takes_advance_bind {f : Unit → Reader β} (inLine : c.current.kind.endsLine = false)
    (h : Takes c.advance (f ()) fun ts b ↦ Q (c.current :: ts) b) : Takes c (advance >>= f) Q := by
  intro b c' ran
  obtain ⟨ts, passes, hb⟩ := h b c' ran
  exact ⟨c.current :: ts, (c.passes_advance inLine).trans passes, hb⟩

theorem takes_eat_bind {f : Bool → Reader β} (inLine : k.endsLine = false)
    (yes : c.current.kind = k → Takes c.advance (f true) fun ts b ↦ Q (c.current :: ts) b)
    (no : Takes c (f false) Q) : Takes c (eat k >>= f) Q := by
  unfold eat
  rw [bind_assoc]
  apply takes_kind_bind
  by_cases here : c.current.kind = k
  · rw [if_pos here, bind_assoc]
    exact takes_advance_bind (by rw [here]; exact inLine) (yes here)
  · rw [if_neg here]
    exact no

theorem takes_eat_ite {a b : Reader β} (inLine : k.endsLine = false)
    (yes : c.current.kind = k → Takes c.advance a fun ts x ↦ Q (c.current :: ts) x)
    (no : Takes c b Q) : Takes c (do if ← eat k then a else b) Q :=
  takes_eat_bind inLine yes no

theorem takes_require_bind {what : String} {f : Unit → Reader β} (inLine : k.endsLine = false)
    (h : c.current.kind = k → Takes c.advance (f ()) fun ts b ↦ Q (c.current :: ts) b) :
    Takes c (require k what >>= f) Q := by
  unfold require
  rw [bind_assoc]
  refine takes_eat_bind inLine h ?_
  intro b c' ran
  cases ran

theorem takes_ident_bind {what : String} {f : String → Reader β}
    (h : ∀ name, c.current.kind = .ident name →
      Takes c.advance (f name) fun ts b ↦ Q (c.current :: ts) b) :
    Takes c (ident what >>= f) Q := by
  unfold ident
  rw [bind_assoc]
  apply takes_kind_bind
  cases here : c.current.kind with
  | ident name =>
    dsimp only
    rw [bind_assoc]
    exact takes_advance_bind (by rw [here]; rfl) (h name here)
  | _ =>
    intro b c' ran
    cases ran

theorem takes_const_bind {what : String} {f : String → Reader β}
    (h : ∀ name, c.current.kind = .const name →
      Takes c.advance (f name) fun ts b ↦ Q (c.current :: ts) b) :
    Takes c (const what >>= f) Q := by
  unfold const
  rw [bind_assoc]
  apply takes_kind_bind
  cases here : c.current.kind with
  | const name =>
    dsimp only
    rw [bind_assoc]
    exact takes_advance_bind (by rw [here]; rfl) (h name here)
  | _ =>
    intro b c' ran
    cases ran

/-! ### Lists -/

section

variable {item : Reader α} {parts : α → List Expr} {close : Kind}

theorem takes_itemsUpTo (h : ∀ c, Takes c item fun ts x ↦ Expr.Row ts (parts x))
    (closing : close.endsLine = false) (bound : Nat) (c : Cursor) :
    Takes c (itemsUpTo item close bound) fun ts xs ↦
      ts ≠ [] ∧ Expr.Row ts (xs.flatMap parts) := by
  induction bound generalizing c with
  | zero => exact takes_expected _
  | succ bound ih =>
    rw [itemsUpTo]
    apply takes_eat_ite closing
    · intro _
      exact takes_pure ⟨List.cons_ne_nil _ _, Expr.row_nil _⟩
    apply (h c).bind
    intro x ts c₁ _ row
    apply takes_eat_ite rfl
    · intro _
      apply (ih c₁.advance).bind
      rintro xs us c₂ _ ⟨_, rows⟩
      apply takes_pure
      exact ⟨by simp, row.append ((rows.then []).cons c₁.current)⟩
    apply takes_eat_ite closing
    · intro _
      apply takes_pure
      refine ⟨by simp, ?_⟩
      rw [List.flatMap_singleton]
      exact row.then _
    exact takes_expected _

theorem takes_items (h : ∀ c, Takes c item fun ts x ↦ Expr.Row ts (parts x))
    (closing : close.endsLine = false) (c : Cursor) :
    Takes c (items item close) fun ts xs ↦ ts ≠ [] ∧ Expr.Row ts (xs.flatMap parts) :=
  takes_remaining_bind (takes_itemsUpTo h closing _ c)

theorem takes_moreItems (h : ∀ c, Takes c item fun ts x ↦ Expr.Row ts (parts x))
    (closing : close.endsLine = false) (c : Cursor) :
    Takes c (moreItems item close) fun ts xs ↦ ts ≠ [] ∧ Expr.Row ts (xs.flatMap parts) := by
  unfold moreItems
  apply takes_eat_ite rfl
  · intro _
    exact (takes_items h closing _).imp fun ts xs ⟨_, row⟩ ↦ ⟨List.cons_ne_nil _ _, row.cons _⟩
  apply takes_eat_ite closing
  · intro _
    exact takes_pure ⟨List.cons_ne_nil _ _, Expr.row_nil _⟩
  exact takes_expected _

end

/-! ### Operands -/

section

variable {expr : Reader Expr}

/-- The cursor after a token is at the token that was seen after it. -/
theorem current_advance (here : c.current.kind ≠ .eof) (next : c.next.kind = k)
    (other : c.current.kind ≠ k) : c.advance.current = c.next := by
  have ahead := c.ahead_eq here
  cases later : c.advance.ahead with
  | nil =>
    rw [Cursor.next, ahead, later] at next
    exact absurd next other
  | cons t rest =>
    rw [Cursor.next, Cursor.current, ahead, later]
    rfl

theorem takes_argument (h : ∀ c, Takes c expr Expr.ReadFrom) (c : Cursor) :
    Takes c (argument expr) fun ts x ↦ Expr.Row ts (Expr.argumentParts x) := by
  unfold argument
  apply takes_eat_ite rfl
  · intro _
    apply (h _).bind
    intro e ts c₁ _ read
    exact takes_pure ((read.row.then _).cons _)
  apply takes_kind_bind
  cases here : c.current.kind with
  | ident name =>
    apply takes_get_bind
    by_cases next : c.next.kind = .assign
    · have second := current_advance (by simp [here]) next (by simp [here])
      rw [if_pos next]
      apply takes_advance_bind (by rw [here]; rfl)
      apply takes_advance_bind (by rw [second, next]; rfl)
      apply (h _).bind
      intro e ts c₁ _ read
      exact takes_pure (((read.row.then _).cons _).cons _)
    · rw [if_neg next]
      exact takes_refuse _
  | _ => exact takes_refuse _

theorem takes_mapEntry (h : ∀ c, Takes c expr Expr.ReadFrom) (c : Cursor) :
    Takes c (mapEntry expr) fun ts x ↦ Expr.Row ts (Expr.entryParts x) := by
  unfold mapEntry
  apply takes_eat_ite rfl
  · intro _
    apply (h _).bind
    intro e ts c₁ _ read
    exact takes_pure ((read.row.then _).cons _)
  apply (h c).bind
  intro key ts c₁ _ readKey
  apply takes_require_bind rfl
  intro _
  apply (h _).bind
  intro value us c₂ _ readValue
  exact takes_pure (readKey.row.append ((readValue.row.then _).cons _))

theorem takes_binding (c : Cursor) : Takes c binding fun _ _ ↦ True := by
  unfold binding
  apply takes_ident_bind
  intro first _
  apply takes_eat_ite rfl
  · intro _
    apply takes_ident_bind
    intro second _
    exact takes_pure trivial
  exact takes_pure trivial

theorem takes_filter (h : ∀ c, Takes c expr Expr.ReadFrom) (c : Cursor) :
    Takes c (filter expr) fun ts f ↦ Expr.Row ts f.toList := by
  unfold filter
  apply takes_eat_ite rfl
  · intro _
    apply (h _).bind
    intro e ts c₁ _ read
    exact takes_pure ((read.row.then _).cons _)
  exact takes_pure (Expr.row_nil _)

/-- A comprehension is read with the bracket before it and what it collects. -/
theorem takes_comprehension (h : ∀ c, Takes c expr Expr.ReadFrom) {yield : Yield Expr}
    {close : Kind} (first : Token) {ys : List Token} (row : Expr.Row ys (Expr.yieldParts yield))
    (here : c.current.kind = .kwFor) (closing : close.endsLine = false) :
    Takes c (comprehension expr first.span yield close) fun ts e ↦
      Expr.ReadFrom (first :: (ys ++ ts)) e := by
  rw [comprehension_eq]
  apply takes_advance_bind (by rw [here]; rfl)
  apply (takes_binding _).bind
  intro b bs c₁ _ _
  apply takes_require_bind rfl
  intro _
  apply (h _).bind
  intro source ss c₂ _ read
  apply (takes_filter h _).bind
  intro f fs c₃ _ rowFilter
  apply takes_require_bind closing
  intro last
  apply takes_spanFrom_bind
  rw [Cursor.previous_advance (by rw [last]; exact closing)]
  apply takes_pure
  have rest := (read.row.append (rowFilter.then [c₃.current])).cons c₁.current
  have whole := (row.append (((Expr.row_nil bs).append rest).cons c.current)).cons first
  exact .of_ends rfl (by simp [List.getLast?_cons]) whole List.perm_middle rfl

theorem takes_conditional (h : ∀ c, Takes c expr Expr.ReadFrom) (here : c.current.kind = .kwIf) :
    Takes c (conditional expr) Expr.ReadFrom := by
  unfold conditional
  apply takes_span_bind
  apply takes_advance_bind (by rw [here]; rfl)
  apply (h _).bind
  intro test ts c₁ _ readTest
  apply takes_require_bind rfl
  intro _
  apply (h _).bind
  intro positive us c₂ _ readPositive
  apply takes_require_bind rfl
  intro _
  apply (h _).bind
  intro negative vs c₃ _ readNegative
  apply takes_pure
  rw [List.append_nil]
  have row := (readTest.row.append ((readPositive.row.append
    (readNegative.row.cons c₂.current)).cons c₁.current)).cons c.current
  have starts : [c.current] <+: c.current :: (ts ++ c₁.current :: (us ++ c₂.current :: vs)) :=
    ⟨_, rfl⟩
  have ends : vs <:+ c.current :: (ts ++ c₁.current :: (us ++ c₂.current :: vs)) :=
    ⟨c.current :: (ts ++ c₁.current :: (us ++ [c₂.current])), by simp⟩
  exact .of_merge starts ends (fun _ ↦ Token.spans_singleton _) readNegative.spans row (.refl _) rfl

/-- Expressions in brackets, up to and including the closing one. -/
theorem takes_exprs (h : ∀ c, Takes c expr Expr.ReadFrom) {close : Kind}
    (closing : close.endsLine = false) (c : Cursor) :
    Takes c (items expr close) fun ts es ↦ ts ≠ [] ∧ Expr.Row ts es := by
  refine (takes_items (fun c ↦ (h c).imp fun _ _ read ↦ read.row) closing c).imp fun ts es row ↦ ?_
  rwa [List.flatMap_singleton'] at row

theorem takes_moreExprs (h : ∀ c, Takes c expr Expr.ReadFrom) {close : Kind}
    (closing : close.endsLine = false) (c : Cursor) :
    Takes c (moreItems expr close) fun ts es ↦ ts ≠ [] ∧ Expr.Row ts es := by
  refine (takes_moreItems (fun c ↦ (h c).imp fun _ _ read ↦ read.row) closing c).imp
    fun ts es row ↦ ?_
  rwa [List.flatMap_singleton'] at row

theorem takes_raised (h : ∀ c, Takes c expr Expr.ReadFrom) (here : c.current.kind = .kwErr) :
    Takes c (raised expr) Expr.ReadFrom := by
  unfold raised
  apply takes_span_bind
  apply takes_advance_bind (by rw [here]; rfl)
  apply takes_require_bind rfl
  intro _
  apply (takes_exprs h rfl _).bind_spanFrom fun _ _ read ↦ read.1
  rintro ts args - - ⟨-, row⟩ last ends
  exact .of_ends rfl (List.mem_getLast?_cons (List.mem_getLast?_cons ends)) ((row.cons _).cons _)
    (.refl _) rfl

theorem takes_bracketed (h : ∀ c, Takes c expr Expr.ReadFrom) (here : c.current.kind = .lbracket) :
    Takes c (bracketed expr) Expr.ReadFrom := by
  unfold bracketed
  apply takes_span_bind
  apply takes_advance_bind (by rw [here]; rfl)
  apply takes_eat_ite rfl
  · intro close
    apply takes_spanFrom_bind
    rw [Cursor.previous_advance (by rw [close]; rfl)]
    apply takes_pure
    exact .of_ends rfl rfl (Expr.row_nil _) (.refl _) rfl
  apply (h _).bind
  intro first ts c₁ _ read
  apply takes_kind_bind
  by_cases loop : c₁.current.kind = .kwFor
  · rw [if_pos loop]
    exact takes_comprehension h c.current read.row loop rfl
  · rw [if_neg loop]
    apply (takes_moreExprs h rfl _).bind_spanFrom fun _ _ read ↦ read.1
    rintro us rest - - ⟨-, row⟩ last ends
    exact .of_ends rfl (List.mem_getLast?_cons (List.mem_getLast?_append_of_mem_getLast? ends))
      ((read.row.append row).cons _) (.refl _) rfl

theorem takes_braced (h : ∀ c, Takes c expr Expr.ReadFrom) (here : c.current.kind = .lbrace) :
    Takes c (braced expr) Expr.ReadFrom := by
  unfold braced
  apply takes_span_bind
  apply takes_advance_bind (by rw [here]; rfl)
  apply takes_eat_ite rfl
  · intro close
    apply takes_spanFrom_bind
    rw [Cursor.previous_advance (by rw [close]; rfl)]
    apply takes_pure
    exact .of_ends rfl rfl (Expr.row_nil _) (.refl _) rfl
  apply takes_kind_bind
  by_cases spread : c.advance.current.kind = .doubleStar
  · rw [if_pos spread]
    apply (takes_items (takes_mapEntry h) rfl _).bind_spanFrom fun _ _ read ↦ read.1
    rintro ts entries - - ⟨-, row⟩ last ends
    exact .of_ends rfl (List.mem_getLast?_cons ends) (row.cons _) (.refl _) rfl
  rw [if_neg spread]
  apply (h _).bind
  intro first ts c₁ _ read
  apply takes_eat_ite rfl
  · intro _
    apply (h _).bind
    intro value us c₂ _ readValue
    apply takes_kind_bind
    have row := read.row.append (readValue.row.cons c₁.current)
    by_cases loop : c₂.current.kind = .kwFor
    · rw [if_pos loop]
      refine (takes_comprehension h c.current row loop rfl).imp fun vs e read ↦ ?_
      simpa only [List.append_assoc, List.cons_append] using read
    · rw [if_neg loop]
      apply (takes_moreItems (takes_mapEntry h) rfl _).bind_spanFrom fun _ _ read ↦ read.1
      rintro vs rest - - ⟨-, rows⟩ last ends
      have whole := (row.append rows).cons c.current
      simp only [List.append_assoc, List.cons_append] at whole
      exact .of_ends rfl (List.mem_getLast?_cons (List.mem_getLast?_append_of_mem_getLast?
        (List.mem_getLast?_cons (List.mem_getLast?_append_of_mem_getLast? ends)))) whole (.refl _)
        rfl
  · apply takes_kind_bind
    by_cases loop : c₁.current.kind = .kwFor
    · rw [if_pos loop]
      exact takes_comprehension h c.current read.row loop rfl
    · rw [if_neg loop]
      apply (takes_moreExprs h rfl _).bind_spanFrom fun _ _ read ↦ read.1
      rintro us rest - - ⟨-, row⟩ last ends
      exact .of_ends rfl (List.mem_getLast?_cons (List.mem_getLast?_append_of_mem_getLast? ends))
        ((read.row.append row).cons _) (.refl _) rfl

theorem takes_parenthesised (h : ∀ c, Takes c expr Expr.ReadFrom)
    (here : c.current.kind = .lparen) : Takes c (parenthesised expr) Expr.ReadFrom := by
  unfold parenthesised
  apply takes_span_bind
  apply takes_advance_bind (by rw [here]; rfl)
  apply (h _).bind
  intro inner ts c₁ _ read
  apply takes_require_bind rfl
  intro close
  apply takes_spanFrom_bind
  rw [Cursor.previous_advance (by rw [close]; rfl)]
  apply takes_pure
  obtain ⟨es, row, parts⟩ := read.exists_row
  have same : es.Perm (inner.withSpan (c.current.span.merge c₁.current.span)).parts := by
    rw [Expr.parts_withSpan]
    exact parts
  exact .of_ends rfl (by simp [List.getLast?_cons]) ((row.then _).cons _) same
    (Expr.span_withSpan _ _)

theorem takes_leaf {form : Span → Expr} (span : ∀ s, (form s).span = s)
    (parts : ∀ s, (form s).parts = []) (inLine : c.current.kind.endsLine = false) :
    Takes c (leaf form) Expr.ReadFrom := by
  unfold leaf
  apply takes_span_bind
  apply takes_advance_bind inLine
  apply takes_pure
  refine .intro (fun _ ↦ ?_) [] (.none _) (by rw [parts]; exact .nil) (List.forall_mem_nil _)
  rw [span]
  exact Token.spans_singleton _

theorem takes_nodePath (c : Cursor) : Takes c nodePath fun ts _ ↦ ts ≠ [] := by
  unfold nodePath
  apply takes_const_bind
  intro first _
  apply takes_eat_ite rfl
  · intro _
    apply takes_const_bind
    intro second _
    exact takes_pure (List.cons_ne_nil _ _)
  exact takes_pure (List.cons_ne_nil _ _)

theorem takes_pathExpr (c : Cursor) : Takes c pathExpr Expr.ReadFrom := by
  unfold pathExpr
  apply takes_span_bind
  apply (takes_nodePath c).bind_spanFrom fun _ _ some ↦ some
  intro ts path c₁ passes some last ends
  obtain ⟨rest, rfl⟩ := passes.starts some
  exact .of_ends rfl ends (Expr.row_nil _) (.refl _) rfl

theorem takes_primary (h : ∀ c, Takes c expr Expr.ReadFrom) (c : Cursor) :
    Takes c (primary expr) Expr.ReadFrom := by
  unfold primary
  apply takes_kind_bind
  cases here : c.current.kind with
  | int _ | float _ | str _ | ident _ | underscore | kwNil | kwTrue | kwFalse =>
    exact takes_leaf (fun _ ↦ rfl) (fun _ ↦ rfl) (by rw [here]; rfl)
  | const _ => exact takes_pathExpr c
  | kwIf => exact takes_conditional h here
  | kwErr => exact takes_raised h here
  | lparen => exact takes_parenthesised h here
  | lbracket => exact takes_bracketed h here
  | lbrace => exact takes_braced h here
  | _ => exact takes_expected _

/-! ### Suffixes and operators -/

section

variable {receiver : Expr} {rs : List Token}

theorem takes_member (h : ∀ c, Takes c expr Expr.ReadFrom) (hr : Expr.ReadFrom rs receiver)
    (here : c.current.kind = .dot) :
    Takes c (member expr receiver) fun ts e ↦ Expr.ReadFrom (rs ++ ts) e := by
  unfold member
  apply takes_advance_bind (by rw [here]; rfl)
  apply takes_ident_bind
  intro name named
  apply takes_eat_ite rfl
  · intro _
    apply (takes_exprs h rfl _).bind_spanFrom fun _ _ read ↦ read.1
    rintro ts args - - ⟨-, row⟩ last ends
    exact hr.of_receiver
      (List.mem_getLast?_cons (List.mem_getLast?_cons (List.mem_getLast?_cons ends)))
      (((row.cons _).cons _).cons _) (.refl _) rfl
  · apply takes_spanFrom_bind
    rw [Cursor.previous_advance (by rw [named]; rfl)]
    apply takes_pure
    exact hr.of_receiver rfl (Expr.row_nil _) (.refl _) rfl

theorem takes_subscript (h : ∀ c, Takes c expr Expr.ReadFrom) (hr : Expr.ReadFrom rs receiver)
    (here : c.current.kind = .lbracket) :
    Takes c (subscript expr receiver) fun ts e ↦ Expr.ReadFrom (rs ++ ts) e := by
  unfold subscript
  apply takes_advance_bind (by rw [here]; rfl)
  apply (takes_exprs h rfl _).bind
  rintro args ts c₁ passes ⟨some, row⟩
  by_cases empty : args.isEmpty = true
  · rw [if_pos empty]
    intro e c' ran
    cases ran
  · rw [if_neg empty]
    apply takes_spanFrom_pure passes some
    intro last ends
    rw [List.append_nil]
    exact hr.of_receiver (List.mem_getLast?_cons ends) (row.cons _) (.refl _) rfl

theorem takes_invocation (h : ∀ c, Takes c expr Expr.ReadFrom) (hr : Expr.ReadFrom rs receiver)
    (here : c.current.kind = .lparen) :
    Takes c (invocation expr receiver) fun ts e ↦ Expr.ReadFrom (rs ++ ts) e := by
  unfold invocation
  apply takes_advance_bind (by rw [here]; rfl)
  apply (takes_items (takes_argument h) rfl _).bind_spanFrom fun _ _ read ↦ read.1
  rintro ts args - - ⟨-, row⟩ last ends
  exact hr.of_receiver (List.mem_getLast?_cons ends) (row.cons _) (.refl _) rfl

/-- The tokens of a receiver and of its suffixes go together. -/
theorem takes_suffixes (h : ∀ c, Takes c expr Expr.ReadFrom) (bound : Nat)
    (hr : Expr.ReadFrom rs receiver) (c : Cursor) :
    Takes c (suffixes expr bound receiver) fun ts e ↦ Expr.ReadFrom (rs ++ ts) e := by
  induction bound generalizing receiver rs c with
  | zero =>
    apply takes_pure
    rwa [List.append_nil]
  | succ bound ih =>
    have later : ∀ e ts c₁, c.Passes ts c₁ → Expr.ReadFrom (rs ++ ts) e →
        Takes c₁ (suffixes expr bound e) fun us b ↦ Expr.ReadFrom (rs ++ (ts ++ us)) b := by
      intro e ts c₁ _ read
      simpa only [List.append_assoc] using ih read c₁
    rw [suffixes]
    apply takes_kind_bind
    cases here : c.current.kind with
    | dot => exact (takes_member h hr here).bind later
    | lbracket => exact (takes_subscript h hr here).bind later
    | lparen => exact (takes_invocation h hr here).bind later
    | _ =>
      apply takes_pure
      rwa [List.append_nil]

end

theorem endsLine_of_unaryOp? {op : UnaryOp} (h : k.unaryOp? = some op) : k.endsLine = false := by
  cases k <;> first | rfl | cases h

theorem endsLine_of_binaryOp? {op : BinaryOp} (h : k.binaryOp? = some op) : k.endsLine = false := by
  cases k <;> first | rfl | cases h

theorem takes_operandUpTo (h : ∀ c, Takes c expr Expr.ReadFrom) (bound : Nat) (c : Cursor) :
    Takes c (operandUpTo expr bound) Expr.ReadFrom := by
  induction bound generalizing c with
  | zero => exact takes_expected _
  | succ bound ih =>
    rw [operandUpTo]
    apply takes_kind_bind
    cases here : c.current.kind.unaryOp? with
    | some op =>
      apply takes_span_bind
      apply takes_advance_bind (endsLine_of_unaryOp? here)
      apply (ih _).bind
      intro operand ts c₁ _ read
      apply takes_pure
      rw [List.append_nil]
      have starts : [c.current] <+: c.current :: ts := ⟨ts, rfl⟩
      exact .of_merge starts (List.suffix_cons _ _) (fun _ ↦ Token.spans_singleton _) read.spans
        (read.row.cons _) (.refl _) rfl
    | none =>
      apply (takes_primary h c).bind
      intro receiver ts c₁ _ read
      apply takes_remaining_bind
      exact takes_suffixes h _ read c₁

theorem takes_operand (h : ∀ c, Takes c expr Expr.ReadFrom) (c : Cursor) :
    Takes c (operand expr) Expr.ReadFrom :=
  takes_remaining_bind (takes_operandUpTo h _ c)

/-- The tokens of a left operand and of what is joined to it go together. -/
theorem takes_climb {operand : Reader Expr} (h : ∀ c, Takes c operand Expr.ReadFrom)
    (bound least : Nat) {left : Expr} {ls : List Token} (hl : Expr.ReadFrom ls left) (c : Cursor) :
    Takes c (climb operand bound least left) fun ts e ↦ Expr.ReadFrom (ls ++ ts) e := by
  induction bound generalizing least left ls c with
  | zero =>
    apply takes_pure
    rwa [List.append_nil]
  | succ bound ih =>
    have done : Takes c (pure left) fun ts e ↦ Expr.ReadFrom (ls ++ ts) e := by
      apply takes_pure
      rwa [List.append_nil]
    rw [climb]
    apply takes_kind_bind
    cases here : c.current.kind.binaryOp? with
    | none => exact done
    | some op =>
      dsimp only
      by_cases loose : op.precedence < least
      · rw [if_pos loose]
        exact done
      rw [if_neg loose]
      apply takes_advance_bind (endsLine_of_binaryOp? here)
      apply (h _).bind
      intro first ts c₁ _ readFirst
      apply (ih _ readFirst c₁).bind
      intro right us c₂ _ readRight
      have ends : ts ++ us <:+ ls ++ c.current :: (ts ++ us) := ⟨ls ++ [c.current], by simp⟩
      have joined : Expr.ReadFrom (ls ++ c.current :: (ts ++ us))
          (.binary (left.span.merge right.span) op left right) :=
        .of_merge (List.prefix_append ls _) ends hl.spans readRight.spans
          (hl.row.append (readRight.row.cons _)) (.refl _) rfl
      simpa only [List.append_assoc, List.cons_append] using ih least joined c₂

theorem takes_operation {operand : Reader Expr} (h : ∀ c, Takes c operand Expr.ReadFrom)
    (c : Cursor) : Takes c (operation operand) Expr.ReadFrom := by
  apply (h c).bind
  intro left ts c₁ _ read
  apply takes_remaining_bind
  exact takes_climb h _ _ read c₁

end

/-- An expression is read from the tokens that are taken for it. -/
theorem takes_expression (c : Cursor) : Takes c expression Expr.ReadFrom := by
  have all : ∀ depth c, Takes c (expressionUpTo depth) Expr.ReadFrom := by
    intro depth
    induction depth with
    | zero => exact fun c ↦ takes_expected _
    | succ depth ih => exact takes_operation (takes_operand ih)
  exact takes_remaining_bind (all _ c)

end Reader

/-! ### Declarations -/

/-- The expression of a declaration, if it has one. -/
def Declaration.exprs : Declaration → List Expr
  | imports _ | node _ _ => []
  | formula _ body => [body]
  | param _ default => default.toList

/-- The line was read from the tokens: its span is theirs, and the expression of its declaration was
read from some of them. -/
structure Line.ReadFrom (ts : List Token) (l : Line) : Prop where
  some : ts ≠ []
  spans : Token.InOrder ts → Token.Spans ts l.span
  row : Expr.Row ts l.declaration.exprs

namespace Reader

variable {c : Cursor}

theorem takes_importLine (here : c.current.kind = .kwImport) :
    Takes c importLine fun ts d ↦ ts ≠ [] ∧ Expr.Row ts d.exprs := by
  unfold importLine
  apply takes_advance_bind (by rw [here]; rfl)
  apply takes_const_bind
  intro name _
  exact takes_pure ⟨List.cons_ne_nil _ _, Expr.row_nil _⟩

theorem takes_nodeHeader (c : Cursor) :
    Takes c nodeHeader fun ts d ↦ ts ≠ [] ∧ Expr.Row ts d.exprs := by
  unfold nodeHeader
  apply takes_const_bind
  intro name _
  apply takes_require_bind rfl
  intro _
  apply takes_atLineEnd_bind
  intro ends
  cases ends with
  | true => exact takes_pure ⟨List.cons_ne_nil _ _, Expr.row_nil _⟩
  | false =>
    apply (takes_nodePath _).bind
    intro path ts c₁ _ _
    exact takes_pure ⟨List.cons_ne_nil _ _, Expr.row_nil _⟩

theorem takes_memberLine (c : Cursor) :
    Takes c memberLine fun ts d ↦ ts ≠ [] ∧ Expr.Row ts d.exprs := by
  unfold memberLine
  apply takes_ident_bind
  intro name _
  apply takes_require_bind rfl
  intro _
  apply takes_eat_ite rfl
  · intro _
    apply takes_atLineEnd_bind
    intro ends
    cases ends with
    | true => exact takes_pure ⟨List.cons_ne_nil _ _, Expr.row_nil _⟩
    | false =>
      apply (takes_expression _).bind
      intro e ts c₁ _ read
      exact takes_pure ⟨List.cons_ne_nil _ _, (((read.row.then _).cons _).cons _).cons _⟩
  · apply takes_atLineEnd_bind
    intro ends
    cases ends with
    | true => exact takes_expected _
    | false =>
      apply (takes_expression _).bind
      intro e ts c₁ _ read
      exact takes_pure ⟨List.cons_ne_nil _ _, ((read.row.then _).cons _).cons _⟩

theorem takes_declaration (indented : Bool) (c : Cursor) :
    Takes c (declaration indented) fun ts d ↦ ts ≠ [] ∧ Expr.Row ts d.exprs := by
  unfold declaration
  apply takes_kind_bind
  cases here : c.current.kind with
  | kwImport =>
    cases indented with
    | true => exact takes_refuse _
    | false => exact takes_importLine here
  | const name =>
    cases indented with
    | true => exact takes_refuse _
    | false => exact takes_nodeHeader c
  | ident name =>
    cases indented with
    | true => exact takes_memberLine c
    | false => exact takes_refuse _
  | _ => exact takes_expected _

/-- A line is read from the tokens that are taken for it, and it has the number of the line where
they start. -/
theorem takes_line (lines : Lines) (c : Cursor) :
    Takes c (line lines) fun ts l ↦
      l.ReadFrom ts ∧ ∀ first ∈ ts.head?, l.number = lines.lineOf first.span.start := by
  unfold line
  apply takes_span_bind
  apply (takes_declaration _ c).bind_spanFrom fun _ _ read ↦ read.1
  rintro ts d c₁ passes ⟨some, row⟩ last ends
  obtain ⟨rest, rfl⟩ := passes.starts some
  obtain ⟨front, front_eq⟩ := List.getLast?_eq_some_iff.mp ends
  refine ⟨⟨some, fun order ↦ ?_, row⟩, fun first h ↦ by cases h; rfl⟩
  exact .merge order ⟨rest, rfl⟩ ⟨front, front_eq.symm⟩ (Token.spans_singleton _)
    (Token.spans_singleton _)

end Reader

/-- Declarations are read from the tokens of the script. -/
theorem exists_run_of_parse {source module : String} {result : List Line}
    (h : parse source module = .ok result) :
    ∃ tokens c, Token.tokens source = .ok tokens ∧
      (Reader.script (Lines.ofText source)).run (Cursor.ofTokens tokens) = .ok (result, c) := by
  unfold parse at h
  cases lexed : Token.tokens source with
  | error e =>
    rw [lexed] at h
    cases h
  | ok tokens =>
    rw [lexed] at h
    dsimp only at h
    cases read : (Reader.script (Lines.ofText source)).run' (Cursor.ofTokens tokens) with
    | error refusal =>
      rw [read] at h
      cases h
    | ok all =>
      rw [read] at h
      cases h
      obtain ⟨⟨_, c⟩, ran, rfl⟩ := map_eq_ok read
      exact ⟨tokens, c, rfl, ran⟩

end Formulary
