import Formulary.Proofs.Spelling

/-!
# Expressions over tokens

An expression that was read from some tokens has the span from the first of them to the last one,
and the expressions that it is made of were read from blocks of these tokens, one after the other
(`Expr.ReadFrom`). If the tokens stand in order in the text, then so do the spans: each begins and
ends with a token, lies in the span of the expression around it, and apart from those beside it
(`Expr.ReadFrom.placed`).
-/

namespace Formulary

open Token (Kind)

/-! ### Spans of tokens -/

namespace Span

/-- A span lies within another one. -/
def Inside (a b : Span) : Prop := b.start ≤ a.start ∧ a.stop ≤ b.stop

/-- One span ends before the other one starts. -/
def Apart (a b : Span) : Prop := a.stop ≤ b.start ∨ b.stop ≤ a.start

theorem Apart.symm {a b : Span} (h : Apart a b) : Apart b a := Or.symm h

end Span

namespace Token

/-- Tokens that stand in order: none is empty, and each ends before the next one starts. -/
structure InOrder (ts : List Token) : Prop where
  nonempty : ∀ t ∈ ts, t.span.start < t.span.stop
  ordered : ts.Pairwise fun a b ↦ a.span.stop ≤ b.span.start

/-- The span from the first token to the last one. -/
def Spans (ts : List Token) (s : Span) : Prop :=
  ∃ first ∈ ts.head?, ∃ last ∈ ts.getLast?, s = ⟨first.span.start, last.span.stop⟩

variable {ts us : List Token} {t : Token} {s s' : Span}

theorem InOrder.sublist (h : InOrder ts) (sub : us.Sublist ts) : InOrder us :=
  ⟨fun t ht ↦ h.nonempty t (sub.subset ht), h.ordered.sublist sub⟩

theorem spans_singleton (t : Token) : Spans [t] t.span := ⟨t, rfl, t, rfl, rfl⟩

/-- No token starts before the first one. -/
theorem InOrder.start_le (h : InOrder ts) {first : Token} (starts : first ∈ ts.head?)
    (ht : t ∈ ts) : first.span.start ≤ t.span.start := by
  obtain ⟨rest, rfl⟩ := List.head?_eq_some_iff.mp starts
  rcases List.mem_cons.mp ht with rfl | later
  · exact Nat.le_refl _
  · have := h.nonempty first List.mem_cons_self
    have := (List.pairwise_cons.mp h.ordered).1 t later
    omega

/-- No token ends after the last one. -/
theorem InOrder.le_stop (h : InOrder ts) {last : Token} (ends : last ∈ ts.getLast?)
    (ht : t ∈ ts) : t.span.stop ≤ last.span.stop := by
  obtain ⟨rest, rfl⟩ := List.getLast?_eq_some_iff.mp ends
  rcases List.mem_append.mp ht with earlier | same
  · have := h.nonempty last (by simp)
    have := (List.pairwise_append.mp h.ordered).2.2 t earlier last (by simp)
    omega
  · exact Nat.le_of_eq (by rw [List.mem_singleton.mp same])

theorem Spans.inside (h : Spans ts s) (h' : Spans us s') (order : InOrder ts) (sub : us ⊆ ts) :
    s'.Inside s := by
  obtain ⟨first, starts, last, ends, rfl⟩ := h
  obtain ⟨first', starts', last', ends', rfl⟩ := h'
  exact ⟨order.start_le starts (sub (List.mem_of_mem_head? starts')),
    order.le_stop ends (sub (List.mem_of_mem_getLast? ends'))⟩

theorem Spans.apart (h : Spans ts s) (h' : Spans us s')
    (before : ∀ x ∈ ts, ∀ y ∈ us, x.span.stop ≤ y.span.start) : s.Apart s' := by
  obtain ⟨first, starts, last, ends, rfl⟩ := h
  obtain ⟨first', starts', last', ends', rfl⟩ := h'
  exact .inl (before last (List.mem_of_mem_getLast? ends) first' (List.mem_of_mem_head? starts'))

/-- The span of tokens is told by the first of them and the last one. -/
theorem Spans.merge (order : InOrder ts) {front back : List Token} (starts : front <+: ts)
    (ends : back <:+ ts) (h : Spans front s) (h' : Spans back s') : Spans ts (s.merge s') := by
  obtain ⟨first, hfirst, mid, hmid, rfl⟩ := h
  obtain ⟨mid', hmid', last, hlast, rfl⟩ := h'
  have first_mem : first ∈ ts.head? := by
    obtain ⟨rest, rfl⟩ := starts
    rw [List.head?_append, Option.mem_def.mp hfirst]
    rfl
  have last_mem : last ∈ ts.getLast? := by
    obtain ⟨rest, rfl⟩ := ends
    rw [List.getLast?_append, Option.mem_def.mp hlast]
    rfl
  have before := order.start_le first_mem (ends.subset (List.mem_of_mem_head? hmid'))
  have after := order.le_stop last_mem (starts.subset (List.mem_of_mem_getLast? hmid))
  refine ⟨first, first_mem, last, last_mem, ?_⟩
  rw [Span.merge, Nat.min_eq_left before, Nat.max_eq_right after]

end Token

/-! ### Blocks of tokens -/

/-- Blocks stand in a list of tokens, one after the other. -/
inductive Cut : List Token → List (List Token) → Prop where
  | none (ts : List Token) : Cut ts []
  | block (gap : List Token) {block rest : List Token} {blocks : List (List Token)}
      (later : Cut rest blocks) : Cut (gap ++ (block ++ rest)) (block :: blocks)

namespace Cut

variable {ts us gap : List Token} {blocks others : List (List Token)}

theorem gap_append (gap : List Token) (h : Cut ts blocks) : Cut (gap ++ ts) blocks := by
  cases h with
  | none => exact .none _
  | block gap' later =>
    rw [← List.append_assoc]
    exact .block (gap ++ gap') later

theorem append (h : Cut ts blocks) (h' : Cut us others) : Cut (ts ++ us) (blocks ++ others) := by
  induction h with
  | none ts => exact h'.gap_append ts
  | block gap later ih =>
    rw [List.append_assoc, List.append_assoc]
    exact .block gap ih

theorem sublist (h : Cut ts blocks) : ∀ block ∈ blocks, block.Sublist ts := by
  induction h with
  | none => exact List.forall_mem_nil _
  | @block gap block rest blocks later ih =>
    refine List.forall_mem_cons.mpr ⟨?_, fun b hb ↦ ?_⟩
    · exact (List.sublist_append_left block rest).trans (List.sublist_append_right gap _)
    · exact (ih b hb).trans
        ((List.sublist_append_right block rest).trans (List.sublist_append_right gap _))

/-- The blocks stand in order if the tokens do. -/
theorem ordered (h : Cut ts blocks) (order : Token.InOrder ts) :
    blocks.Pairwise fun a b ↦ ∀ s ∈ a, ∀ t ∈ b, s.span.stop ≤ t.span.start := by
  induction h with
  | none => exact .nil
  | @block gap block rest blocks later ih =>
    have tail := order.sublist (List.sublist_append_right gap (block ++ rest))
    refine List.pairwise_cons.mpr ⟨fun b hb s hs t ht ↦ ?_,
      ih (tail.sublist (List.sublist_append_right block rest))⟩
    exact (List.pairwise_append.mp tail.ordered).2.2 s hs t ((later.sublist b hb).subset ht)

end Cut

/-! ### Expressions over blocks -/

namespace Expr

theorem span_withSpan (s : Span) (e : Expr) : (e.withSpan s).span = s := by
  cases e <;> rfl

theorem parts_withSpan (s : Span) (e : Expr) : (e.withSpan s).parts = e.parts := by
  cases e <;> rfl

/-- The expression was read from the tokens: its span is theirs, and the expressions that it is made
of were read from blocks of them, one after the other. -/
inductive ReadFrom : List Token → Expr → Prop where
  | intro {ts : List Token} {e : Expr} (spans : Token.InOrder ts → Token.Spans ts e.span)
      (blocks : List (List Token × Expr)) (cut : Cut ts (blocks.map Prod.fst))
      (parts : (blocks.map Prod.snd).Perm e.parts) (each : ∀ b ∈ blocks, ReadFrom b.1 b.2) :
      ReadFrom ts e

/-- Expressions were read from blocks of the tokens, one after the other. -/
def Row (ts : List Token) (es : List Expr) : Prop :=
  ∃ blocks : List (List Token × Expr), Cut ts (blocks.map Prod.fst) ∧ blocks.map Prod.snd = es ∧
    ∀ b ∈ blocks, ReadFrom b.1 b.2

section

variable {ts us : List Token} {t : Token} {e : Expr} {es fs : List Expr} {s s' : Span}

theorem row_nil (ts : List Token) : Row ts [] := ⟨[], .none ts, rfl, List.forall_mem_nil _⟩

theorem ReadFrom.row (h : ReadFrom ts e) : Row ts [e] := by
  refine ⟨[(ts, e)], ?_, rfl, List.forall_mem_singleton.mpr h⟩
  have cut : Cut ([] ++ (ts ++ [])) [ts] := .block [] (.none [])
  rwa [List.append_nil] at cut

theorem Row.append (h : Row ts es) (h' : Row us fs) : Row (ts ++ us) (es ++ fs) := by
  obtain ⟨blocks, cut, rfl, each⟩ := h
  obtain ⟨blocks', cut', rfl, each'⟩ := h'
  refine ⟨blocks ++ blocks', ?_, List.map_append, List.forall_mem_append.mpr ⟨each, each'⟩⟩
  rw [List.map_append]
  exact cut.append cut'

theorem Row.cons (t : Token) (h : Row ts es) : Row (t :: ts) es := (row_nil [t]).append h

theorem Row.then (h : Row ts es) (us : List Token) : Row (ts ++ us) es := by
  have row := h.append (row_nil us)
  rwa [List.append_nil] at row

theorem ReadFrom.exists_row (h : ReadFrom ts e) : ∃ es, Row ts es ∧ es.Perm e.parts := by
  obtain ⟨-, blocks, cut, parts, each⟩ := h
  exact ⟨_, ⟨blocks, cut, rfl, each⟩, parts⟩

theorem ReadFrom.spans (h : ReadFrom ts e) : Token.InOrder ts → Token.Spans ts e.span := by
  obtain ⟨spans, -⟩ := h
  exact spans

/-- An expression is read from tokens if its span is that of two parts with which these start and
end. -/
theorem ReadFrom.of_merge {front back : List Token} (starts : front <+: ts) (ends : back <:+ ts)
    (first : Token.InOrder front → Token.Spans front s)
    (last : Token.InOrder back → Token.Spans back s') (row : Row ts es) (parts : es.Perm e.parts)
    (span : e.span = s.merge s') : ReadFrom ts e := by
  obtain ⟨blocks, cut, rfl, each⟩ := row
  refine .intro (fun order ↦ ?_) blocks cut parts each
  rw [span]
  exact .merge order starts ends (first (order.sublist starts.sublist))
    (last (order.sublist ends.sublist))

/-- An expression whose span runs from a token to another one. -/
theorem ReadFrom.of_ends {first last : Token} (starts : first ∈ ts.head?)
    (ends : last ∈ ts.getLast?) (row : Row ts es) (parts : es.Perm e.parts)
    (span : e.span = first.span.merge last.span) : ReadFrom ts e := by
  obtain ⟨rest, rest_eq⟩ := List.head?_eq_some_iff.mp starts
  obtain ⟨front, front_eq⟩ := List.getLast?_eq_some_iff.mp ends
  exact .of_merge ⟨rest, rest_eq.symm⟩ ⟨front, front_eq.symm⟩ (fun _ ↦ Token.spans_singleton first)
    (fun _ ↦ Token.spans_singleton last) row parts span

/-- An expression that goes on after another one, up to a token. -/
theorem ReadFrom.of_receiver {receiver : Expr} {rs : List Token} (h : ReadFrom rs receiver)
    {last : Token} (ends : last ∈ ts.getLast?) (row : Row ts es)
    (parts : (receiver :: es).Perm e.parts) (span : e.span = receiver.span.merge last.span) :
    ReadFrom (rs ++ ts) e := by
  obtain ⟨front, rfl⟩ := List.getLast?_eq_some_iff.mp ends
  refine .of_merge (List.prefix_append rs _) ⟨rs ++ front, ?_⟩ h.spans
    (fun _ ↦ Token.spans_singleton last) (h.row.append row) parts span
  rw [List.append_assoc]

end

/-! ### Positions -/

/-- An expression stands where its span says, among tokens: the span begins and ends with tokens,
and the spans of the expressions that it is made of lie within it and apart from each other. -/
structure Placed (ts : List Token) (e : Expr) : Prop where
  starts : ∃ t ∈ ts, e.span.start = t.span.start
  ends : ∃ t ∈ ts, e.span.stop = t.span.stop
  nonempty : e.span.start < e.span.stop
  inside : ∀ a ∈ e.parts, a.span.Inside e.span
  apart : e.parts.Pairwise fun a b ↦ a.span.Apart b.span

variable {ts us : List Token} {e : Expr}

theorem Placed.mono (h : Placed us e) (sub : us ⊆ ts) : Placed ts e where
  starts := by
    obtain ⟨t, ht, same⟩ := h.starts
    exact ⟨t, sub ht, same⟩
  ends := by
    obtain ⟨t, ht, same⟩ := h.ends
    exact ⟨t, sub ht, same⟩
  nonempty := h.nonempty
  inside := h.inside
  apart := h.apart

/-- Whatever is read from tokens in order stands where its span says, and so does everything in
it. -/
theorem ReadFrom.placed (h : ReadFrom ts e) (order : Token.InOrder ts) {d : Expr}
    (within : d.Within e) : Placed ts d := by
  induction h with
  | @intro ts e spans blocks cut parts each ih =>
    have sub (b : List Token × Expr) (hb : b ∈ blocks) : b.1.Sublist ts :=
      cut.sublist b.1 (List.mem_map_of_mem hb)
    have spans' (b : List Token × Expr) (hb : b ∈ blocks) : Token.Spans b.1 b.2.span :=
      (each b hb).spans (order.sublist (sub b hb))
    cases within with
    | here =>
      obtain ⟨first, starts, last, ends, span⟩ := spans order
      have first_mem := List.mem_of_mem_head? starts
      have last_mem := List.mem_of_mem_getLast? ends
      refine ⟨⟨first, first_mem, by rw [span]⟩, ⟨last, last_mem, by rw [span]⟩, ?_, fun a ha ↦ ?_,
        ?_⟩
      · rw [span]
        exact Nat.lt_of_lt_of_le (order.nonempty first first_mem) (order.le_stop ends first_mem)
      · obtain ⟨b, hb, rfl⟩ := List.mem_map.mp (parts.mem_iff.mpr ha)
        exact (spans order).inside (spans' b hb) order (sub b hb).subset
      · refine (parts.pairwise_iff fun h ↦ h.symm).mp (List.pairwise_map.mpr ?_)
        refine (List.pairwise_map.mp (cut.ordered order)).imp_of_mem fun {a b} ha hb before ↦ ?_
        exact (spans' a ha).apart (spans' b hb) before
    | part ha rest =>
      obtain ⟨b, hb, rfl⟩ := List.mem_map.mp (parts.mem_iff.mpr ha)
      exact (ih b hb (order.sublist (sub b hb)) rest).mono (sub b hb).subset

end Expr

end Formulary
