import Formulary.Expr.Parser
import Mathlib.Data.List.Forall2

/-!
# What readers take

A reader takes tokens from a cursor. `Reader.Reads` says what it makes of tokens of given kinds,
wherever they stand: it succeeds, it leaves the tokens of the kinds that are said to be left, and
its result is as described. The rules below follow a reader token by token, and `reads_items`
follows a list in brackets.
-/

namespace Formulary

open Token (Kind)

/-- The kinds of the tokens from the current one on. -/
def Cursor.kinds (c : Cursor) : List Kind := c.ahead.map Token.kind

namespace Cursor

variable {c : Cursor} {k k' : Kind} {rest : List Kind}

theorem kind_current (h : c.kinds = k :: rest) : c.current.kind = k := by
  obtain ⟨t, ts, ha, ht, -⟩ := List.map_eq_cons_iff.mp h
  rw [current, ha]
  exact ht

theorem kind_next (h : c.kinds = k :: k' :: rest) : c.next.kind = k' := by
  obtain ⟨t, ts, ha, -, hts⟩ := List.map_eq_cons_iff.mp h
  obtain ⟨t', ts', hts', ht', -⟩ := List.map_eq_cons_iff.mp hts
  rw [next, ha, hts']
  exact ht'

/-- A token that is not the end of the file can be taken. -/
theorem kinds_advance (h : c.kinds = k :: rest) (more : k ≠ .eof) : c.advance.kinds = rest := by
  have here := kind_current h
  obtain ⟨t, ts, ha, -, hts⟩ := List.map_eq_cons_iff.mp h
  rw [advance, if_neg (by rw [here]; exact more)]
  simp only [kinds, ha, List.tail_cons, hts]

theorem advance_suffix (c : Cursor) : c.advance.ahead <:+ c.ahead := by
  unfold advance
  split
  · exact List.suffix_refl _
  · exact List.tail_suffix _

/-- What is left of some tokens is told by its kinds. -/
theorem ahead_eq_of_suffix {tokens rest : List Token} (suffix : c.ahead <:+ tokens ++ rest)
    (same : c.kinds = rest.map Token.kind) : c.ahead = rest := by
  have length : c.ahead.length = rest.length := by
    simpa [kinds] using congrArg List.length same
  have inside := List.suffix_of_suffix_length_le suffix (List.suffix_append tokens rest) (by omega)
  exact inside.eq_of_length length

end Cursor

namespace Reader

variable {α β : Type}

/-- From any cursor before tokens of the kinds `input`, the reader takes tokens up to those of the
kinds `rest`, with a result that satisfies `Q`. -/
def Reads (r : Reader α) (input rest : List Kind) (Q : α → Prop) : Prop :=
  ∀ c : Cursor, c.kinds = input →
    ∃ a c', r.run c = .ok (a, c') ∧ c'.ahead <:+ c.ahead ∧ c'.kinds = rest ∧ Q a

variable {r : Reader α} {f : α → Reader β} {input middle rest out : List Kind} {k k' : Kind}
  {P : α → Prop} {Q : β → Prop}

theorem reads_pure {a : α} (h : P a) : Reads (pure a) input input P :=
  fun c hc ↦ ⟨a, c, rfl, List.suffix_refl _, hc, h⟩

theorem Reads.bind (first : Reads r input middle P)
    (second : ∀ a, P a → Reads (f a) middle rest Q) : Reads (r >>= f) input rest Q := by
  intro c hc
  obtain ⟨a, c₁, ran, suffix, hc₁, ha⟩ := first c hc
  obtain ⟨b, c₂, ran', suffix', hc₂, hb⟩ := second a ha c₁ hc₁
  refine ⟨b, c₂, ?_, suffix'.trans suffix, hc₂, hb⟩
  rw [StateT.run_bind, ran]
  exact ran'

theorem Reads.imp {P' : α → Prop} (h : Reads r input rest P) (weaker : ∀ a, P a → P' a) :
    Reads r input rest P' := by
  intro c hc
  obtain ⟨a, c', ran, suffix, hc', ha⟩ := h c hc
  exact ⟨a, c', ran, suffix, hc', weaker a ha⟩

/-! ### Single tokens -/

theorem run_eat (k : Kind) (c : Cursor) :
    (eat k).run c = .ok (if c.current.kind = k then (true, c.advance) else (false, c)) := by
  unfold eat
  rw [StateT.run_bind]
  change (if c.current.kind = k then (do advance; return true : Reader Bool)
    else return false).run c = _
  split <;> rfl

theorem reads_get_bind {f : Cursor → Reader β}
    (h : ∀ c : Cursor, c.kinds = input → Reads (f c) input out Q) :
    Reads (get >>= f) input out Q :=
  fun c hc ↦ h c hc c hc

theorem reads_kind_bind {f : Kind → Reader β} (h : Reads (f k) (k :: rest) out Q) :
    Reads (kind >>= f) (k :: rest) out Q := by
  intro c hc
  have same : (kind >>= f).run c = (f k).run c := by
    change (f c.current.kind).run c = _
    rw [Cursor.kind_current hc]
  rw [same]
  exact h c hc

theorem reads_span_bind {f : Span → Reader β} (h : ∀ s, Reads (f s) input out Q) :
    Reads (span >>= f) input out Q :=
  fun c hc ↦ h c.current.span c hc

theorem reads_spanFrom_bind {start : Span} {f : Span → Reader β}
    (h : ∀ s, Reads (f s) input out Q) : Reads (spanFrom start >>= f) input out Q :=
  fun c hc ↦ h (start.merge c.previous) c hc

theorem reads_remaining_bind {f : Nat → Reader β} (h : Reads (f input.length) input out Q) :
    Reads (remaining >>= f) input out Q := by
  intro c hc
  have same : (remaining >>= f).run c = (f input.length).run c := by
    change (f c.count).run c = _
    rw [c.count_eq, ← hc, Cursor.kinds, List.length_map]
  rw [same]
  exact h c hc

theorem reads_advance_bind {f : Unit → Reader β} (more : k ≠ .eof) (h : Reads (f ()) rest out Q) :
    Reads (advance >>= f) (k :: rest) out Q := by
  intro c hc
  obtain ⟨b, c', ran, suffix, hc', hb⟩ := h c.advance (Cursor.kinds_advance hc more)
  exact ⟨b, c', ran, suffix.trans c.advance_suffix, hc', hb⟩

/-- A token of the kind that is looked for is taken. -/
theorem reads_eat_bind {f : Bool → Reader β} (more : k ≠ .eof) (h : Reads (f true) rest out Q) :
    Reads (eat k >>= f) (k :: rest) out Q := by
  unfold eat
  rw [bind_assoc]
  apply reads_kind_bind
  rw [if_pos rfl, bind_assoc]
  exact reads_advance_bind more h

/-- A token of another kind is left. -/
theorem reads_skip_bind {f : Bool → Reader β} (other : k' ≠ k)
    (h : Reads (f false) (k' :: rest) out Q) : Reads (eat k >>= f) (k' :: rest) out Q := by
  unfold eat
  rw [bind_assoc]
  apply reads_kind_bind
  rw [if_neg other]
  exact h

theorem reads_eat_ite {a b : Reader β} (more : k ≠ .eof) (h : Reads a rest out Q) :
    Reads (do if ← eat k then a else b) (k :: rest) out Q :=
  reads_eat_bind more h

theorem reads_skip_ite {a b : Reader β} (other : k' ≠ k) (h : Reads b (k' :: rest) out Q) :
    Reads (do if ← eat k then a else b) (k' :: rest) out Q :=
  reads_skip_bind other h

theorem reads_require_bind {what : String} {f : Unit → Reader β} (more : k ≠ .eof)
    (h : Reads (f ()) rest out Q) : Reads (require k what >>= f) (k :: rest) out Q := by
  unfold require
  rw [bind_assoc]
  exact reads_eat_bind more h

theorem reads_ident_bind {what name : String} {f : String → Reader β}
    (h : Reads (f name) rest out Q) : Reads (ident what >>= f) (.ident name :: rest) out Q := by
  unfold ident
  rw [bind_assoc]
  apply reads_kind_bind
  rw [bind_assoc]
  exact reads_advance_bind (by simp) h

theorem reads_const_bind {what name : String} {f : String → Reader β}
    (h : Reads (f name) rest out Q) : Reads (const what >>= f) (.const name :: rest) out Q := by
  unfold const
  rw [bind_assoc]
  apply reads_kind_bind
  rw [bind_assoc]
  exact reads_advance_bind (by simp) h

end Reader

/-! ### Lists -/

/-- Brackets that end a list. -/
def Token.Kind.isClose : Kind → Bool
  | rparen | rbracket | rbrace => true
  | _ => false

theorem Token.Kind.ne_comma_of_isClose {k : Kind} (h : k.isClose = true) : k ≠ .comma := by
  rintro rfl
  cases h

theorem Token.Kind.ne_eof_of_isClose {k : Kind} (h : k.isClose = true) : k ≠ .eof := by
  rintro rfl
  cases h

/-- Pieces with a comma before each of them; a comma may trail. -/
def following (trailing : Bool) : List (List Kind) → List Kind
  | [] => if trailing then [.comma] else []
  | piece :: pieces => .comma :: piece ++ following trailing pieces

/-- Pieces with commas between them; a comma may trail if there are any. -/
def separated (trailing : Bool) : List (List Kind) → List Kind
  | [] => []
  | piece :: pieces => piece ++ following trailing pieces

section

variable (trailing : Bool) {piece : List Kind} {pieces : List (List Kind)}

/-- After a piece comes nothing more, or a comma and a list again. -/
theorem following_cases (trailing : Bool) (pieces : List (List Kind)) :
    following trailing pieces = [] ∧ pieces = [] ∨
      following trailing pieces = .comma :: separated trailing pieces := by
  cases pieces with
  | nil => cases trailing <;> simp [following, separated]
  | cons piece pieces => exact .inr rfl

theorem length_piece_le_following (h : piece ∈ pieces) :
    piece.length ≤ (following trailing pieces).length := by
  induction pieces with
  | nil => cases h
  | cons first pieces ih =>
    simp only [following, List.cons_append, List.length_cons, List.length_append]
    rcases List.mem_cons.mp h with rfl | later
    · omega
    · have := ih later
      omega

theorem length_piece_le_separated (h : piece ∈ pieces) :
    piece.length ≤ (separated trailing pieces).length := by
  cases pieces with
  | nil => cases h
  | cons first pieces =>
    simp only [separated, List.length_append]
    rcases List.mem_cons.mp h with rfl | later
    · omega
    · have := length_piece_le_following trailing later
      omega

theorem length_le_following (trailing : Bool) (pieces : List (List Kind)) :
    pieces.length ≤ (following trailing pieces).length := by
  induction pieces with
  | nil => exact Nat.zero_le _
  | cons piece pieces ih =>
    simp only [following, List.cons_append, List.length_cons, List.length_append]
    omega

/-- There are not more pieces than tokens, if the first of them is not empty. -/
theorem length_le_separated (h : ∀ piece ∈ pieces, piece ≠ []) :
    pieces.length ≤ (separated trailing pieces).length := by
  cases pieces with
  | nil => exact Nat.zero_le _
  | cons piece pieces =>
    have positive := List.length_pos_iff.mpr (h piece List.mem_cons_self)
    have := length_le_following trailing pieces
    simp only [separated, List.length_cons, List.length_append]
    omega

end

namespace Reader

variable {α β : Type} {item : Reader α} {close : Kind} {rest : List Kind}

/-- A reader reads these things wherever a comma or the closing bracket follows, and none of them
starts like the closing bracket. -/
structure ReadsEach (item : Reader α) (close : Kind) (xs : List β) (spell : β → List Kind)
    (Q : β → α → Prop) : Prop where
  reads : ∀ x ∈ xs, ∀ k rest, k = .comma ∨ k = close →
    Reads item (spell x ++ k :: rest) (k :: rest) (Q x)
  starts : ∀ x ∈ xs, ∃ k ks, spell x = k :: ks ∧ k ≠ close

variable {xs : List β} {x : β} {spell : β → List Kind} {Q : β → α → Prop}

theorem ReadsEach.tail (h : ReadsEach item close (x :: xs) spell Q) :
    ReadsEach item close xs spell Q :=
  ⟨fun y hy ↦ h.reads y (List.mem_cons_of_mem _ hy),
    fun y hy ↦ h.starts y (List.mem_cons_of_mem _ hy)⟩

/-- The first thing of a list is read, whatever comes after it. -/
theorem ReadsEach.head (h : ReadsEach item close (x :: xs) spell Q) (trailing : Bool)
    (pieces : List (List Kind)) (rest : List Kind) :
    Reads item (spell x ++ (following trailing pieces ++ close :: rest))
      (following trailing pieces ++ close :: rest) (Q x) := by
  have reads := h.reads x List.mem_cons_self
  rcases following_cases trailing pieces with ⟨none, -⟩ | more
  · rw [none]
    exact reads close rest (.inr rfl)
  · rw [more]
    exact reads .comma _ (.inl rfl)

/-- Things with commas between them are read up to the closing bracket. -/
theorem reads_itemsUpTo (closing : close.isClose = true) (trailing : Bool) (xs : List β)
    (h : ReadsEach item close xs spell Q) (rest : List Kind) :
    ∀ bound, xs.length < bound →
      Reads (itemsUpTo item close bound)
        (separated trailing (xs.map spell) ++ close :: rest) rest (List.Forall₂ Q xs) := by
  induction xs with
  | nil =>
    intro bound enough
    obtain ⟨bound, rfl⟩ := Nat.exists_eq_succ_of_ne_zero (by omega : bound ≠ 0)
    rw [itemsUpTo]
    exact reads_eat_ite (Kind.ne_eof_of_isClose closing) (reads_pure .nil)
  | cons x xs ih =>
    intro bound enough
    obtain ⟨bound, rfl⟩ := Nat.exists_eq_succ_of_ne_zero (by omega : bound ≠ 0)
    rw [itemsUpTo]
    obtain ⟨k, ks, starts, other⟩ := h.starts x List.mem_cons_self
    have first := h.head trailing (xs.map spell) rest
    simp only [List.map_cons, separated, List.append_assoc]
    rw [starts] at first ⊢
    apply reads_skip_ite other
    apply first.bind
    intro a ha
    rcases following_cases trailing (xs.map spell) with ⟨none, nothing⟩ | more
    · rw [none]
      obtain rfl := List.map_eq_nil_iff.mp nothing
      apply reads_skip_ite (Kind.ne_comma_of_isClose closing)
      exact reads_eat_ite (Kind.ne_eof_of_isClose closing) (reads_pure (.cons ha .nil))
    · rw [more]
      apply reads_eat_ite (by simp)
      apply (ih h.tail bound (by simpa using enough)).bind
      intro as has
      exact reads_pure (.cons ha has)

/-- The number of tokens ahead is bound enough. -/
theorem reads_items (closing : close.isClose = true) (trailing : Bool)
    (h : ReadsEach item close xs spell Q) (rest : List Kind) :
    Reads (items item close) (separated trailing (xs.map spell) ++ close :: rest) rest
      (List.Forall₂ Q xs) := by
  unfold items
  apply reads_remaining_bind
  apply reads_itemsUpTo closing trailing xs h rest
  have pieces : xs.length ≤ (separated trailing (xs.map spell)).length := by
    rw [← List.length_map spell]
    apply length_le_separated
    intro piece hp
    obtain ⟨x, hx, rfl⟩ := List.mem_map.mp hp
    obtain ⟨k, ks, starts, -⟩ := h.starts x hx
    rw [starts]
    exact List.cons_ne_nil k ks
  rw [List.length_append, List.length_cons]
  omega

/-- What comes after the first thing of a list is read up to the closing bracket. -/
theorem reads_moreItems (closing : close.isClose = true) (trailing : Bool)
    (h : ReadsEach item close xs spell Q) (rest : List Kind) :
    Reads (moreItems item close) (following trailing (xs.map spell) ++ close :: rest) rest
      (List.Forall₂ Q xs) := by
  unfold moreItems
  rcases following_cases trailing (xs.map spell) with ⟨none, nothing⟩ | more
  · rw [none]
    obtain rfl := List.map_eq_nil_iff.mp nothing
    apply reads_skip_ite (Kind.ne_comma_of_isClose closing)
    exact reads_eat_ite (Kind.ne_eof_of_isClose closing) (reads_pure .nil)
  · rw [more]
    apply reads_eat_ite (by simp)
    exact reads_items closing trailing h rest

/-! ### Comprehensions -/

/-- One variable, or two with a comma between them. -/
def binding : Reader Binding := do
  let first ← ident "comprehension variable"
  if ← eat .comma then return .pair first (← ident "second comprehension variable")
  else return .single first

/-- An expression after `if`, or nothing. -/
def filter (expr : Reader Expr) : Reader (Option Expr) := do
  if ← eat .kwIf then return some (← expr) else return none

theorem ite_bind {α β : Type} (c : Prop) [Decidable c] (x y : Reader α) (f : α → Reader β) :
    (if c then x else y) >>= f = if c then x >>= f else y >>= f := by
  split <;> rfl

/-- A comprehension is read part by part. -/
theorem comprehension_eq (expr : Reader Expr) (start : Span) (yield : Yield Expr) (close : Kind) :
    comprehension expr start yield close = (do
      advance
      let binding ← binding
      require .kwIn "`in`"
      let source ← expr
      let filter ← filter expr
      require close s!"`{close.text}`"
      return .comprehension (← spanFrom start) yield binding source filter) := by
  unfold comprehension binding filter
  simp only [bind_assoc, pure_bind, map_eq_pure_bind, ite_bind]

end Reader

end Formulary
