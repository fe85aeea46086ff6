import Formulary.Proofs.Spelling

/-!
# The grammar of expressions

A phrase is a list of tokens with the expression that it stands for, spans aside. The rules below
say which phrases there are. Suffixes are taken from what stands before them, unary operators stand
before operands, and operands are joined by binary operators: such a chain is split at the rightmost
operator of least precedence, and each side in the same way (`Expr.byPrecedence`). Each rule is
stated over the phrases that may stand in brackets, and `Phrase.Grammatical` closes the circle.
-/

namespace Formulary

open Token (Kind)

/-! ### Chains of operands -/

namespace Expr

/-- The rightmost operator of least precedence with its right operand, what stands before it and
what stands after. -/
def splitLeast : List (BinaryOp × Expr) →
    Option (List (BinaryOp × Expr) × (BinaryOp × Expr) × List (BinaryOp × Expr))
  | [] => none
  | x :: rest =>
    match splitLeast rest with
    | none => some ([], x, [])
    | some (before, least, after) =>
      if least.1.precedence ≤ x.1.precedence then some (x :: before, least, after)
      else some ([], x, rest)

variable {rest before after : List (BinaryOp × Expr)} {least : BinaryOp × Expr}

theorem splitLeast_eq_none (h : splitLeast rest = none) : rest = [] := by
  cases rest with
  | nil => rfl
  | cons x rest =>
    rw [splitLeast] at h
    split at h
    · cases h
    · split at h <;> cases h

/-- The split keeps all operands in order, with operators that bind at least as tightly before the
one that is found and tighter ones after it. -/
theorem splitLeast_eq_some (h : splitLeast rest = some (before, least, after)) :
    rest = before ++ least :: after ∧
      (∀ x ∈ before, least.1.precedence ≤ x.1.precedence) ∧
      ∀ x ∈ after, least.1.precedence < x.1.precedence := by
  induction rest generalizing before least after with
  | nil => cases h
  | cons x rest ih =>
    rw [splitLeast] at h
    split at h
    · next none =>
      cases h
      rw [splitLeast_eq_none none]
      simp
    · next found =>
      split at h
      · next lower =>
        cases h
        obtain ⟨rfl, tight, tighter⟩ := ih found
        exact ⟨rfl, List.forall_mem_cons.mpr ⟨lower, tight⟩, tighter⟩
      · next higher =>
        cases h
        obtain ⟨rfl, tight, tighter⟩ := ih found
        refine ⟨rfl, List.forall_mem_nil _, ?_⟩
        rw [List.forall_mem_append, List.forall_mem_cons]
        refine ⟨fun y hy ↦ ?_, by omega, fun y hy ↦ ?_⟩
        · have := tight y hy
          omega
        · have := tighter y hy
          omega

/-- There is only one such place. -/
theorem splitLeast_append (tight : ∀ x ∈ before, least.1.precedence ≤ x.1.precedence)
    (tighter : ∀ x ∈ after, least.1.precedence < x.1.precedence) :
    splitLeast (before ++ least :: after) = some (before, least, after) := by
  induction before with
  | nil =>
    rw [List.nil_append, splitLeast]
    split
    · next none => rw [splitLeast_eq_none none]
    · next b l a found =>
      obtain ⟨rfl, -, -⟩ := splitLeast_eq_some found
      rw [if_neg (by have := tighter l (by simp); omega)]
  | cons x before ih =>
    obtain ⟨here, tight⟩ := List.forall_mem_cons.mp tight
    rw [List.cons_append, splitLeast, ih tight]
    exact if_pos here

/-- The expression that a chain of operands stands for: it is split at the rightmost operator of
least precedence, and so are both sides. -/
def byPrecedence (first : Expr) (rest : List (BinaryOp × Expr)) : Expr :=
  match _found : splitLeast rest with
  | none => first
  | some (before, (op, right), after) =>
    .binary default op (byPrecedence first before) (byPrecedence right after)
termination_by rest.length
decreasing_by
  all_goals
    rw [(splitLeast_eq_some _found).1, List.length_append, List.length_cons]
    omega

@[simp] theorem byPrecedence_nil (first : Expr) : byPrecedence first [] = first := by
  rw [byPrecedence]
  rfl

theorem byPrecedence_of_splitLeast {first right : Expr} {op : BinaryOp}
    (h : splitLeast rest = some (before, (op, right), after)) :
    byPrecedence first rest =
      .binary default op (byPrecedence first before) (byPrecedence right after) := by
  rw [byPrecedence]
  split
  · next none => simp [h] at none
  · next found =>
    rw [h] at found
    cases found
    rfl

theorem byPrecedence_split (first right : Expr) {op : BinaryOp}
    (tight : ∀ x ∈ before, op.precedence ≤ x.1.precedence)
    (tighter : ∀ x ∈ after, op.precedence < x.1.precedence) :
    byPrecedence first (before ++ (op, right) :: after) =
      .binary default op (byPrecedence first before) (byPrecedence right after) := by
  have place : splitLeast (before ++ (op, right) :: after) = some (before, (op, right), after) :=
    splitLeast_append tight tighter
  exact byPrecedence_of_splitLeast place

@[simp] theorem byPrecedence_singleton (first right : Expr) (op : BinaryOp) :
    byPrecedence first [(op, right)] = .binary default op first right := by
  rw [byPrecedence_of_splitLeast rfl, byPrecedence_nil, byPrecedence_nil]

end Expr

/-! ### Phrases -/

theorem UnaryOp.isStart_kind (op : UnaryOp) : op.kind.isStart = true := by
  cases op <;> rfl

/-- Tokens, and the expression without spans that they stand for. -/
structure Phrase where
  kinds : List Kind
  tree : Expr

namespace Phrase

/-- The tokens of phrases with commas between them. -/
def listed (trailing : Bool) (phrases : List Phrase) : List Kind :=
  separated trailing (phrases.map kinds)

/-- The phrases of an argument. -/
def ofArgument : Entry String Phrase → List Phrase
  | .pair _ p | .spread p => [p]

/-- The tokens of an argument of a node call. -/
def argumentKinds : Entry String Phrase → List Kind
  | .pair name p => .ident name :: .assign :: p.kinds
  | .spread p => .doubleStar :: p.kinds

/-- The argument that the tokens stand for. -/
def argumentTree : Entry String Phrase → Entry String Expr
  | .pair name p => .pair name p.tree
  | .spread p => .spread p.tree

/-- The phrases of an entry. -/
def ofEntry : Entry Phrase Phrase → List Phrase
  | .pair k v => [k, v]
  | .spread p => [p]

/-- The tokens of an entry of a map. -/
def entryKinds : Entry Phrase Phrase → List Kind
  | .pair k v => k.kinds ++ .colon :: v.kinds
  | .spread p => .doubleStar :: p.kinds

/-- The entry that the tokens stand for. -/
def entryTree : Entry Phrase Phrase → Entry Expr Expr
  | .pair k v => .pair k.tree v.tree
  | .spread p => .spread p.tree

/-- The phrases that a comprehension collects. -/
def ofYield : Yield Phrase → List Phrase
  | .list p | .set p => [p]
  | .map k v => [k, v]

/-- The tokens of what a comprehension collects. -/
def yieldKinds : Yield Phrase → List Kind
  | .list p | .set p => p.kinds
  | .map k v => k.kinds ++ .colon :: v.kinds

/-- What a comprehension collects. -/
def yieldTree : Yield Phrase → Yield Expr
  | .list p => .list p.tree
  | .set p => .set p.tree
  | .map k v => .map k.tree v.tree

/-- The tokens of a filter. -/
def filterKinds : Option Phrase → List Kind
  | none => []
  | some p => .kwIf :: p.kinds

/-- The tokens of operands with an operator before each of them. -/
def continued (rest : List (BinaryOp × Phrase)) : List Kind :=
  rest.flatMap fun x ↦ x.1.kind :: x.2.kinds

theorem continued_cons (x : BinaryOp × Phrase) (rest : List (BinaryOp × Phrase)) :
    continued (x :: rest) = x.1.kind :: (x.2.kinds ++ continued rest) := rfl

theorem length_le_continued (rest : List (BinaryOp × Phrase)) :
    rest.length ≤ (continued rest).length := by
  induction rest with
  | nil => exact Nat.le_refl _
  | cons x rest ih =>
    simp only [continued_cons, List.length_cons, List.length_append]
    omega

/-- The tokens of operands with operators between them. -/
def joined (first : Phrase) (rest : List (BinaryOp × Phrase)) : List Kind :=
  first.kinds ++ continued rest

/-- The operands of a chain as expressions. -/
def operandTrees (rest : List (BinaryOp × Phrase)) : List (BinaryOp × Expr) :=
  rest.map fun x ↦ (x.1, x.2.tree)

/-! ### Rules -/

/-- Phrases that begin and end with a token of their own. -/
inductive Primary (inner : Phrase → Prop) : Phrase → Prop where
  | literal (v : Literal) : Primary inner ⟨[v.kind], .literal default v⟩
  | ident (name : String) : Primary inner ⟨[.ident name], .ident default name⟩
  | params : Primary inner ⟨[.underscore], .params default⟩
  | path (path : NodePath) : Primary inner ⟨path.kinds, .path default path⟩
  | paren {p : Phrase} (h : inner p) : Primary inner ⟨.lparen :: p.kinds ++ [.rparen], p.tree⟩
  | raise {args : List Phrase} (trailing : Bool) (h : ∀ p ∈ args, inner p) :
      Primary inner
        ⟨.kwErr :: .lparen :: listed trailing args ++ [.rparen], .raise default (args.map tree)⟩
  | list {items : List Phrase} (trailing : Bool) (h : ∀ p ∈ items, inner p) :
      Primary inner
        ⟨.lbracket :: listed trailing items ++ [.rbracket], .list default (items.map tree)⟩
  | set {items : List Phrase} (trailing : Bool) (filled : items ≠ []) (h : ∀ p ∈ items, inner p) :
      Primary inner ⟨.lbrace :: listed trailing items ++ [.rbrace], .set default (items.map tree)⟩
  | map {entries : List (Entry Phrase Phrase)} (trailing : Bool)
      (h : ∀ x ∈ entries, ∀ p ∈ ofEntry x, inner p) :
      Primary inner
        ⟨.lbrace :: separated trailing (entries.map entryKinds) ++ [.rbrace],
          .map default (entries.map entryTree)⟩
  | comprehension {yield : Yield Phrase} (binding : Binding) {source : Phrase}
      {filter : Option Phrase} (hy : ∀ p ∈ ofYield yield, inner p) (hs : inner source)
      (hf : ∀ p ∈ filter, inner p) :
      Primary inner
        ⟨yield.opening :: (yieldKinds yield ++ .kwFor :: (binding.kinds ++
            .kwIn :: (source.kinds ++ (filterKinds filter ++ [yield.closing])))),
          .comprehension default (yieldTree yield) binding source.tree (filter.map tree)⟩

/-- Primary phrases with suffixes. A parenthesis after an attribute makes it a method, so it is no
call of what the attribute is: the flag says whether a call may follow. -/
inductive Suffixed (inner : Phrase → Prop) : Bool → Phrase → Prop where
  | primary {p : Phrase} (h : Primary inner p) : Suffixed inner true p
  | attr {callable : Bool} {p : Phrase} (h : Suffixed inner callable p) (name : String) :
      Suffixed inner false ⟨p.kinds ++ [.dot, .ident name], .attr default p.tree name⟩
  | method {callable : Bool} {p : Phrase} (h : Suffixed inner callable p) (name : String)
      {args : List Phrase} (trailing : Bool) (ha : ∀ q ∈ args, inner q) :
      Suffixed inner true
        ⟨p.kinds ++ .dot :: .ident name :: .lparen :: listed trailing args ++ [.rparen],
          .method default p.tree name (args.map tree)⟩
  | index {callable : Bool} {p : Phrase} (h : Suffixed inner callable p) {args : List Phrase}
      (trailing : Bool) (filled : args ≠ []) (ha : ∀ q ∈ args, inner q) :
      Suffixed inner true
        ⟨p.kinds ++ .lbracket :: listed trailing args ++ [.rbracket],
          .index default p.tree (args.map tree)⟩
  | call {p : Phrase} (h : Suffixed inner true p) {args : List (Entry String Phrase)}
      (trailing : Bool) (ha : ∀ x ∈ args, ∀ q ∈ ofArgument x, inner q) :
      Suffixed inner true
        ⟨p.kinds ++ .lparen :: separated trailing (args.map argumentKinds) ++ [.rparen],
          .call default p.tree (args.map argumentTree)⟩

/-- Operands: primary phrases with their suffixes, and unary operators before operands. -/
inductive Operand (inner : Phrase → Prop) : Phrase → Prop where
  | suffixed {callable : Bool} {p : Phrase} (h : Suffixed inner callable p) : Operand inner p
  | unary (op : UnaryOp) {p : Phrase} (h : Operand inner p) :
      Operand inner ⟨op.kind :: p.kinds, .unary default op p.tree⟩

/-- Conditions without parentheses, perhaps after unary operators. They go on as far as they can, so
nothing can come after them but the end of the expression. -/
inductive Conditional (inner : Phrase → Prop) : Phrase → Prop where
  | cond {a b c : Phrase} (ha : inner a) (hb : inner b) (hc : inner c) :
      Conditional inner
        ⟨.kwIf :: (a.kinds ++ .kwThen :: (b.kinds ++ .kwElse :: c.kinds)),
          .cond default a.tree b.tree c.tree⟩
  | unary (op : UnaryOp) {p : Phrase} (h : Conditional inner p) :
      Conditional inner ⟨op.kind :: p.kinds, .unary default op p.tree⟩

/-- Operands of a chain, of which the last may be a condition. -/
inductive Operands (inner : Phrase → Prop) : Phrase → List (BinaryOp × Phrase) → Prop where
  | last {p : Phrase} (h : Operand inner p ∨ Conditional inner p) : Operands inner p []
  | more {p q : Phrase} (op : BinaryOp) {rest : List (BinaryOp × Phrase)} (h : Operand inner p)
      (later : Operands inner q rest) : Operands inner p ((op, q) :: rest)

/-- Operands with operators between them. -/
inductive Expression (inner : Phrase → Prop) : Phrase → Prop where
  | chain {first : Phrase} {rest : List (BinaryOp × Phrase)} (h : Operands inner first rest) :
      Expression inner ⟨joined first rest, first.tree.byPrecedence (operandTrees rest)⟩

/-- An operand or a condition alone. -/
theorem Expression.single {inner : Phrase → Prop} {p : Phrase}
    (h : Operand inner p ∨ Conditional inner p) : Expression inner p := by
  have chain := Expression.chain (.last h)
  simpa only [joined, continued, List.flatMap_nil, List.append_nil, operandTrees, List.map_nil,
    Expr.byPrecedence_nil] using chain

/-- The phrases in which brackets nest to less than a depth. -/
def Written : (depth : Nat) → Phrase → Prop
  | 0, _ => False
  | depth + 1, p => Expression (Written depth) p

/-- The phrases of the language. -/
def Grammatical (p : Phrase) : Prop := ∃ depth, Written depth p

/-! ### First tokens -/

variable {inner : Phrase → Prop} {p : Phrase}

theorem Primary.starts (h : Primary inner p) :
    ∃ k ks, p.kinds = k :: ks ∧ k.isStart = true ∧ k.unaryOp? = none := by
  cases h with
  | literal v => cases v with
    | bool b => cases b <;> exact ⟨_, _, rfl, rfl, rfl⟩
    | _ => exact ⟨_, _, rfl, rfl, rfl⟩
  | path path =>
    obtain ⟨module, name⟩ := path
    cases module <;> exact ⟨_, _, rfl, rfl, rfl⟩
  | @comprehension yield => cases yield <;> exact ⟨_, _, rfl, rfl, rfl⟩
  | _ => exact ⟨_, _, rfl, rfl, rfl⟩

theorem Suffixed.starts {callable : Bool} (h : Suffixed inner callable p) :
    ∃ k ks, p.kinds = k :: ks ∧ k.isStart = true ∧ k.unaryOp? = none := by
  induction h with
  | primary h => exact h.starts
  | attr _ _ ih | method _ _ _ _ ih | index _ _ _ _ ih | call _ _ _ ih =>
    obtain ⟨k, ks, starts, first⟩ := ih
    exact ⟨k, _, by simp only [starts, List.cons_append]; rfl, first⟩

theorem Operand.starts (h : Operand inner p) : ∃ k ks, p.kinds = k :: ks ∧ k.isStart = true := by
  cases h with
  | suffixed h =>
    obtain ⟨k, ks, starts, first, -⟩ := h.starts
    exact ⟨k, ks, starts, first⟩
  | unary op h => exact ⟨_, _, rfl, op.isStart_kind⟩

theorem Conditional.starts (h : Conditional inner p) :
    ∃ k ks, p.kinds = k :: ks ∧ k.isStart = true := by
  cases h with
  | cond => exact ⟨_, _, rfl, rfl⟩
  | unary op h => exact ⟨_, _, rfl, op.isStart_kind⟩

theorem Operands.starts {rest : List (BinaryOp × Phrase)} (h : Operands inner p rest) :
    ∃ k ks, p.kinds = k :: ks ∧ k.isStart = true := by
  cases h with
  | last h =>
    rcases h with h | h
    · exact h.starts
    · exact h.starts
  | more op h later => exact h.starts

theorem Expression.starts (h : Expression inner p) :
    ∃ k ks, p.kinds = k :: ks ∧ k.isStart = true := by
  obtain ⟨chain⟩ := h
  obtain ⟨k, ks, starts, first⟩ := chain.starts
  exact ⟨k, _, by rw [joined, starts]; rfl, first⟩

theorem Written.starts {depth : Nat} (h : Written depth p) :
    ∃ k ks, p.kinds = k :: ks ∧ k.isStart = true := by
  cases depth with
  | zero => exact h.elim
  | succ depth => exact Expression.starts h

/-! ### Lengths

What stands in brackets is shorter than the phrase with the brackets. So depth is bounded by
length. -/

section

variable (trailing : Bool) {q : Phrase}

theorem length_le_listed {phrases : List Phrase} (hq : q ∈ phrases) :
    q.kinds.length ≤ (listed trailing phrases).length :=
  length_piece_le_separated trailing (List.mem_map_of_mem hq)

theorem length_le_arguments {args : List (Entry String Phrase)} {x : Entry String Phrase}
    (hx : x ∈ args) (hq : q ∈ ofArgument x) :
    q.kinds.length ≤ (separated trailing (args.map argumentKinds)).length := by
  have piece := length_piece_le_separated trailing (List.mem_map_of_mem (f := argumentKinds) hx)
  cases x with
  | pair name p | spread p =>
    obtain rfl := List.mem_singleton.mp hq
    simp only [argumentKinds, List.length_cons] at piece
    omega

theorem length_le_entries {entries : List (Entry Phrase Phrase)} {x : Entry Phrase Phrase}
    (hx : x ∈ entries) (hq : q ∈ ofEntry x) :
    q.kinds.length ≤ (separated trailing (entries.map entryKinds)).length := by
  have piece := length_piece_le_separated trailing (List.mem_map_of_mem (f := entryKinds) hx)
  cases x with
  | pair k v =>
    simp only [entryKinds, List.length_append, List.length_cons] at piece
    simp only [ofEntry, List.mem_cons, List.not_mem_nil, or_false] at hq
    rcases hq with rfl | rfl <;> omega
  | spread p =>
    obtain rfl := List.mem_singleton.mp hq
    simp only [entryKinds, List.length_cons] at piece
    omega

theorem length_le_yield {yield : Yield Phrase} (hq : q ∈ ofYield yield) :
    q.kinds.length ≤ (yieldKinds yield).length := by
  cases yield with
  | list p | set p =>
    obtain rfl := List.mem_singleton.mp hq
    exact Nat.le_refl _
  | map k v =>
    simp only [ofYield, List.mem_cons, List.not_mem_nil, or_false] at hq
    simp only [yieldKinds, List.length_append, List.length_cons]
    rcases hq with rfl | rfl <;> omega

theorem length_le_filter {filter : Option Phrase} (hq : q ∈ filter) :
    q.kinds.length ≤ (filterKinds filter).length := by
  obtain rfl := Option.mem_def.mp hq
  exact Nat.le_succ _

end

variable {inner' : Phrase → Prop}

theorem Primary.imp (h : Primary inner p)
    (sub : ∀ q, inner q → q.kinds.length < p.kinds.length → inner' q) : Primary inner' p := by
  cases h with
  | literal v => exact .literal v
  | ident name => exact .ident name
  | params => exact .params
  | path path => exact .path path
  | paren h =>
    refine .paren (sub _ h ?_)
    simp only [List.cons_append, List.length_cons, List.length_append]
    omega
  | raise trailing h =>
    refine .raise trailing fun q hq ↦ sub q (h q hq) ?_
    have := length_le_listed trailing hq
    simp only [List.cons_append, List.length_cons, List.length_append]
    omega
  | list trailing h =>
    refine .list trailing fun q hq ↦ sub q (h q hq) ?_
    have := length_le_listed trailing hq
    simp only [List.cons_append, List.length_cons, List.length_append]
    omega
  | set trailing filled h =>
    refine .set trailing filled fun q hq ↦ sub q (h q hq) ?_
    have := length_le_listed trailing hq
    simp only [List.cons_append, List.length_cons, List.length_append]
    omega
  | map trailing h =>
    refine .map trailing fun x hx q hq ↦ sub q (h x hx q hq) ?_
    have := length_le_entries trailing hx hq
    simp only [List.cons_append, List.length_cons, List.length_append]
    omega
  | comprehension binding hy hs hf =>
    simp only [List.length_cons, List.length_append] at sub
    refine .comprehension binding (fun q hq ↦ sub q (hy q hq) ?_) (sub _ hs ?_)
      fun q hq ↦ sub q (hf q hq) ?_
    · have := length_le_yield hq
      omega
    · omega
    · have := length_le_filter hq
      omega

theorem Suffixed.imp {callable : Bool} (h : Suffixed inner callable p)
    (sub : ∀ q, inner q → q.kinds.length < p.kinds.length → inner' q) :
    Suffixed inner' callable p := by
  induction h with
  | primary h => exact .primary (h.imp sub)
  | attr h name ih =>
    simp only [List.length_append] at sub
    exact .attr (ih fun q hq _ ↦ sub q hq (by omega)) name
  | method h name trailing ha ih =>
    simp only [List.length_append, List.length_cons] at sub
    refine .method (ih fun q hq _ ↦ sub q hq (by omega)) name trailing
      fun q hq ↦ sub q (ha q hq) ?_
    have := length_le_listed trailing hq
    omega
  | index h trailing filled ha ih =>
    simp only [List.length_append, List.length_cons] at sub
    refine .index (ih fun q hq _ ↦ sub q hq (by omega)) trailing filled
      fun q hq ↦ sub q (ha q hq) ?_
    have := length_le_listed trailing hq
    omega
  | call h trailing ha ih =>
    simp only [List.length_append, List.length_cons] at sub
    refine .call (ih fun q hq _ ↦ sub q hq (by omega)) trailing
      fun x hx q hq ↦ sub q (ha x hx q hq) ?_
    have := length_le_arguments trailing hx hq
    omega

theorem Operand.imp (h : Operand inner p)
    (sub : ∀ q, inner q → q.kinds.length < p.kinds.length → inner' q) : Operand inner' p := by
  induction h with
  | suffixed h => exact .suffixed (h.imp sub)
  | unary op h ih => exact .unary op (ih fun q hq short ↦ sub q hq (Nat.lt_succ_of_lt short))

theorem Conditional.imp (h : Conditional inner p)
    (sub : ∀ q, inner q → q.kinds.length < p.kinds.length → inner' q) : Conditional inner' p := by
  induction h with
  | cond ha hb hc =>
    simp only [List.length_cons, List.length_append] at sub
    exact .cond (sub _ ha (by omega)) (sub _ hb (by omega)) (sub _ hc (by omega))
  | unary op h ih => exact .unary op (ih fun q hq short ↦ sub q hq (Nat.lt_succ_of_lt short))

theorem Operands.imp {rest : List (BinaryOp × Phrase)} (h : Operands inner p rest)
    (sub : ∀ q, inner q → q.kinds.length < (joined p rest).length → inner' q) :
    Operands inner' p rest := by
  induction h with
  | last h =>
    simp only [joined, continued, List.flatMap_nil, List.append_nil] at sub
    exact .last (h.imp (·.imp sub) (·.imp sub))
  | more op h later ih =>
    simp only [joined, continued, List.flatMap_cons, List.length_append, List.length_cons] at sub ih
    exact .more op (h.imp fun q hq _ ↦ sub q hq (by omega)) (ih fun q hq _ ↦ sub q hq (by omega))

theorem Expression.imp (h : Expression inner p)
    (sub : ∀ q, inner q → q.kinds.length < p.kinds.length → inner' q) : Expression inner' p := by
  obtain ⟨chain⟩ := h
  exact .chain (chain.imp sub)

/-- Brackets nest no deeper than a phrase has tokens. -/
theorem Written.of_length {depth n : Nat} (h : Written depth p) (short : p.kinds.length ≤ n) :
    Written n p := by
  induction n generalizing depth p with
  | zero =>
    obtain ⟨k, ks, starts, -⟩ := h.starts
    rw [starts] at short
    cases short
  | succ n ih =>
    cases depth with
    | zero => exact h.elim
    | succ depth => exact Expression.imp h fun q hq shorter ↦ ih hq (by omega)

/-- The phrases of the language are made of phrases of the language. -/
theorem grammatical_iff : Grammatical p ↔ Expression Grammatical p := by
  constructor
  · rintro ⟨depth, h⟩
    cases depth with
    | zero => exact h.elim
    | succ depth => exact Expression.imp h fun q hq _ ↦ ⟨depth, hq⟩
  · intro h
    refine ⟨p.kinds.length + 1, Expression.imp h fun q hq shorter ↦ ?_⟩
    obtain ⟨depth, hq⟩ := hq
    exact hq.of_length (Nat.le_of_lt shorter)

theorem Operand.grammatical (h : Operand Grammatical p) : Grammatical p :=
  grammatical_iff.mpr (.single (.inl h))

theorem Suffixed.grammatical {callable : Bool} (h : Suffixed Grammatical callable p) :
    Grammatical p := (Operand.suffixed h).grammatical

theorem Primary.grammatical (h : Primary Grammatical p) : Grammatical p :=
  (Suffixed.primary h).grammatical

end Phrase

end Formulary
