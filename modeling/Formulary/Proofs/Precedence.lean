import Formulary.Proofs.Lexing
import Formulary.Proofs.Parsing

/-!
# Reading by precedence

An operator is joined to what stands to its left as soon as the operators after it bind no tighter.
This leads to the same expression as splitting the whole chain at the rightmost operator of least
precedence (`Reader.reads_climb`). So the reader put around a reader for inner expressions reads the
phrases made of these (`Reader.reads_operation`), and all phrases of the language are read as the
expressions that they stand for (`Reader.reads_grammatical`).
-/

namespace Formulary

open Token (Kind)

/-! ### Joining operands from the left -/

namespace Expr

variable {rest before after : List (BinaryOp × Expr)}

/-- An operator may be joined to its operands before the operators that follow are looked at, if
these bind no tighter. -/
theorem byPrecedence_joined (first right : Expr) {op : BinaryOp}
    (tighter : ∀ x ∈ before, op.precedence < x.1.precedence)
    (looser : ∀ x ∈ rest.head?, x.1.precedence ≤ op.precedence) :
    byPrecedence (.binary default op first (byPrecedence right before)) rest =
      byPrecedence first ((op, right) :: (before ++ rest)) := by
  induction length : rest.length using Nat.strongRecOn generalizing rest with
  | _ size ih =>
  cases found : splitLeast rest with
  | none =>
    obtain rfl := splitLeast_eq_none found
    rw [byPrecedence_nil, List.append_nil, ← List.nil_append ((op, right) :: before),
      byPrecedence_split first right (List.forall_mem_nil _) tighter, byPrecedence_nil]
  | some split =>
    obtain ⟨earlier, ⟨least, last⟩, after⟩ := split
    obtain ⟨rfl, tight, later⟩ := splitLeast_eq_some found
    dsimp only at tight later
    -- the whole chain is split in the same place, since its first part binds tighter
    have lowest : least.precedence ≤ op.precedence := by
      cases earlier with
      | nil => exact looser (least, last) rfl
      | cons x earlier => exact Nat.le_trans (tight x List.mem_cons_self) (looser x rfl)
    have tight' : ∀ x ∈ (op, right) :: (before ++ earlier), least.precedence ≤ x.1.precedence := by
      rw [List.forall_mem_cons, List.forall_mem_append]
      exact ⟨lowest, fun x hx ↦ Nat.le_trans lowest (Nat.le_of_lt (tighter x hx)), tight⟩
    have looser' : ∀ x ∈ earlier.head?, x.1.precedence ≤ op.precedence := by
      intro x hx
      apply looser x
      rw [List.head?_append, Option.mem_def.mp hx]
      rfl
    have shorter : earlier.length < size := by
      rw [← length, List.length_append, List.length_cons]
      omega
    have whole := byPrecedence_split first last tight' later
    rw [List.cons_append, List.append_assoc] at whole
    rw [byPrecedence_split _ last tight later, ih _ shorter looser' rfl, whole]

end Expr

namespace Phrase

variable {inner : Phrase → Prop}

/-- Operands of a chain after an operator. -/
def Continues (inner : Phrase → Prop) : List (BinaryOp × Phrase) → Prop
  | [] => True
  | x :: rest => Operands inner x.2 rest

theorem Operands.continues {p : Phrase} {rest : List (BinaryOp × Phrase)}
    (h : Operands inner p rest) : Continues inner rest := by
  cases h with
  | last h => trivial
  | more op h later => exact later

theorem Operands.of_forall {p : Phrase} {rest : List (BinaryOp × Phrase)} (start : Operand inner p)
    (more : ∀ x ∈ rest, Operand inner x.2) : Operands inner p rest := by
  induction rest generalizing p with
  | nil => exact .last (.inl start)
  | cons x rest ih =>
    obtain ⟨here, more⟩ := List.forall_mem_cons.mp more
    exact .more x.1 start (ih here more)

theorem Continues.drop {before after : List (BinaryOp × Phrase)}
    (h : Continues inner (before ++ after)) : Continues inner after := by
  induction before with
  | nil => exact h
  | cons x before ih => exact ih (Operands.continues h)

end Phrase

/-! ### Spellings of operators -/

namespace BinaryOp

/-- How an operator may be written. -/
def spellings : BinaryOp → List String
  | and => ["&&", "and"]
  | or => ["||", "or"]
  | op => [op.symbol]

/-- All spellings of an operator are read as the same token. -/
theorem lexes_spelling (op : BinaryOp) : ∀ spelling ∈ op.spellings, ∀ text : List Char,
    Token.Lexes (spelling.toList ++ ' ' :: text) [op.kind] (' ' :: text) := by
  intro spelling hs text
  cases op with
  | and | or => rcases List.mem_pair.mp hs with rfl | rfl <;> exact Token.lexes_token rfl (by simp)
  | _ => obtain rfl := List.mem_singleton.mp hs; exact Token.lexes_token rfl (by simp)

end BinaryOp

/-! ### Reading chains -/

namespace Reader

variable {expr : Reader Expr} {inner : Phrase → Prop} {p : Phrase} {k : Kind} {rest : List Kind}

/-- A chain goes on with operators that bind tighter than some precedence, up to one that does
not. -/
theorem exists_tighter (precedence : Nat) (chain : List (BinaryOp × Phrase)) :
    ∃ tighter later, chain = tighter ++ later ∧ (∀ x ∈ tighter, precedence < x.1.precedence) ∧
      ∀ x ∈ later.head?, x.1.precedence ≤ precedence := by
  induction chain with
  | nil => exact ⟨[], [], rfl, by simp, by simp⟩
  | cons x chain ih =>
    by_cases tight : precedence < x.1.precedence
    · obtain ⟨tighter, later, rfl, all, head⟩ := ih
      exact ⟨x :: tighter, later, rfl, List.forall_mem_cons.mpr ⟨tight, all⟩, head⟩
    · refine ⟨[], x :: chain, rfl, by simp, fun y hy ↦ ?_⟩
      obtain rfl := Option.some.inj hy
      exact Nat.not_lt.mp tight

/-- So the right operand of an operator can be told apart from what the operator and its operands
are joined to. -/
theorem byPrecedence_taken (first : Expr) {op : BinaryOp} (p : Phrase)
    {tighter later : List (BinaryOp × Phrase)}
    (inside : ∀ x ∈ tighter, op.precedence < x.1.precedence)
    (outside : ∀ x ∈ later.head?, x.1.precedence ≤ op.precedence) :
    Expr.byPrecedence (.binary default op first
        (p.tree.byPrecedence (Phrase.operandTrees tighter))) (Phrase.operandTrees later) =
      first.byPrecedence (Phrase.operandTrees ((op, p) :: (tighter ++ later))) := by
  have inside' : ∀ x ∈ Phrase.operandTrees tighter, op.precedence < x.1.precedence :=
    List.forall_mem_map.mpr inside
  have outside' : ∀ x ∈ (Phrase.operandTrees later).head?, x.1.precedence ≤ op.precedence := by
    intro x hx
    rw [Phrase.operandTrees, List.head?_map] at hx
    obtain ⟨y, hy, rfl⟩ := Option.map_eq_some_iff.mp hx
    exact outside y hy
  rw [Expr.byPrecedence_joined first p.tree inside' outside']
  simp only [Phrase.operandTrees, List.map_cons, List.map_append]

/-- Operators are taken as long as they have the least precedence, and they are joined to the left
operand as if all that is taken were split by precedence. -/
theorem reads_climb (h : ReadsPhrases expr inner) (ends : k.isEnd = true) (bound least : Nat)
    (left : Expr) {taken passed : List (BinaryOp × Phrase)}
    (hc : Phrase.Continues inner (taken ++ passed)) (enough : (taken ++ passed).length ≤ bound)
    (tight : ∀ x ∈ taken, least ≤ x.1.precedence)
    (loose : ∀ x ∈ passed.head?, x.1.precedence < least) :
    Reads (climb (operand expr) bound least left) (Phrase.continued (taken ++ passed) ++ k :: rest)
      (Phrase.continued passed ++ k :: rest)
      (·.plain = left.plain.byPrecedence (Phrase.operandTrees taken)) := by
  induction bound generalizing least left taken passed with
  | zero =>
    have none := List.length_eq_zero_iff.mp (Nat.le_zero.mp enough)
    obtain ⟨rfl, rfl⟩ := List.append_eq_nil_iff.mp none
    exact reads_pure (Expr.byPrecedence_nil _).symm
  | succ bound ih =>
    rw [climb]
    cases taken with
    | nil =>
      cases passed with
      | nil =>
        apply reads_kind_bind
        rw [Kind.binaryOp?_of_isEnd ends]
        exact reads_pure (Expr.byPrecedence_nil _).symm
      | cons x passed =>
        apply reads_kind_bind
        rw [x.1.binaryOp?_kind]
        dsimp only
        rw [if_pos (loose x rfl)]
        exact reads_pure (Expr.byPrecedence_nil _).symm
    | cons x taken =>
      obtain ⟨op, p⟩ := x
      obtain ⟨here, tight⟩ := List.forall_mem_cons.mp tight
      obtain ⟨tighter, later, rfl, inside, outside⟩ := exists_tighter op.precedence taken
      obtain ⟨-, tight⟩ := List.forall_mem_append.mp tight
      rw [List.cons_append, List.append_assoc] at hc enough ⊢
      have shorter : (later ++ passed).length ≤ bound ∧
          (tighter ++ (later ++ passed)).length ≤ bound := by
        simp only [List.length_cons, List.length_append] at enough ⊢
        omega
      have stops : ∀ x ∈ (later ++ passed).head?, x.1.precedence < op.precedence + 1 := by
        intro x hx
        cases later with
        | nil => exact Nat.lt_succ_of_lt (Nat.lt_of_lt_of_le (loose x hx) here)
        | cons y later => exact Nat.lt_succ_of_le (outside x hx)
      rw [Phrase.continued_cons, List.cons_append, List.append_assoc]
      apply reads_kind_bind
      rw [op.binaryOp?_kind]
      dsimp only at here ⊢
      rw [if_neg (Nat.not_lt.mpr here)]
      apply reads_advance_bind (by cases op <;> simp [BinaryOp.kind])
      apply (reads_first h hc ends).bind
      intro first sameFirst
      apply (ih (op.precedence + 1) first hc.continues shorter.2 inside stops).bind
      intro right sameRight
      apply (ih least _ hc.continues.drop shorter.1 tight loose).imp
      intro e same
      rw [same, Expr.plain, sameRight, sameFirst]
      exact byPrecedence_taken left.plain p inside outside

/-- The reader put around a reader for inner expressions reads the expressions made of them. -/
theorem reads_operation (h : ReadsPhrases expr inner) (hp : Phrase.Expression inner p)
    (ends : k.isEnd = true) :
    Reads (operation (operand expr)) (p.kinds ++ k :: rest) (k :: rest) (·.plain = p.tree) := by
  obtain @⟨first, chain, operands⟩ := hp
  have whole : Phrase.Continues inner (chain ++ []) := by
    rw [List.append_nil]
    exact operands.continues
  have enough : (chain ++ []).length ≤ (Phrase.continued chain ++ k :: rest).length := by
    rw [List.append_nil, List.length_append]
    exact Nat.le_add_right_of_le (Phrase.length_le_continued chain)
  have climbs (left : Expr) : Reads (climb (operand expr) _ 0 left)
      (Phrase.continued (chain ++ []) ++ k :: rest) (k :: rest)
      (·.plain = left.plain.byPrecedence (Phrase.operandTrees chain)) :=
    reads_climb h ends _ 0 left whole enough (by simp) (by simp)
  rw [List.append_nil] at climbs
  rw [Phrase.joined, List.append_assoc]
  apply (reads_first h operands ends).bind
  intro left same
  apply reads_remaining_bind
  rw [← same]
  exact climbs left

/-! ### Expressions -/

theorem readsPhrases_expressionUpTo (depth : Nat) :
    ReadsPhrases (expressionUpTo depth) (Phrase.Written depth) := by
  induction depth with
  | zero => exact ⟨fun p hp ↦ hp.elim, fun p hp ↦ hp.elim⟩
  | succ depth ih =>
    refine ⟨fun p hp k rest ends ↦ ?_, fun p hp ↦ hp.starts⟩
    rw [expressionUpTo]
    exact reads_operation ih hp ends

/-- The tokens of a phrase are read as the expression that it stands for. -/
theorem reads_grammatical (hp : p.Grammatical) (k : Kind) (rest : List Kind)
    (ends : k.isEnd = true) :
    Reads expression (p.kinds ++ k :: rest) (k :: rest) (·.plain = p.tree) := by
  obtain ⟨depth, hp⟩ := hp
  unfold expression
  apply reads_remaining_bind
  apply (readsPhrases_expressionUpTo _).reads p (hp.of_length _) k rest ends
  rw [List.length_append]
  omega

/-- Chains of operands are read by precedence, and from the left.

Let operands be joined by binary operators, however many there are, and let each operand be a name,
a constant, a collection or anything in parentheses, perhaps with suffixes taken from it and unary
operators before it. Then these tokens are taken, no token more and none less, and the expression
that is read is the one that comes of splitting the chain at the rightmost operator of least
precedence, and both sides in the same way. The operands are its leaves: suffixes and unary
operators bind inside them. The operators may be spelled in any way there is. -/
theorem chain_by_precedence (first : Phrase) (rest : List (BinaryOp × Phrase))
    (start : Phrase.Operand Phrase.Grammatical first)
    (more : ∀ x ∈ rest, Phrase.Operand Phrase.Grammatical x.2) (tokens : List Token)
    (written : tokens.map Token.kind = Phrase.joined first rest) (last : Token)
    (ends : last.kind.isEnd = true) (after : List Token) (c : Cursor)
    (ahead : c.ahead = tokens ++ last :: after) :
    (∃ e c', expression.run c = .ok (e, c') ∧ c'.ahead = last :: after ∧
      e.plain = first.tree.byPrecedence (Phrase.operandTrees rest)) ∧
    ∀ x ∈ rest, ∀ spelling ∈ x.1.spellings, ∀ text : List Char,
      Token.Lexes (spelling.toList ++ ' ' :: text) [x.1.kind] (' ' :: text) := by
  have phrase : Phrase.Grammatical
      ⟨Phrase.joined first rest, first.tree.byPrecedence (Phrase.operandTrees rest)⟩ :=
    Phrase.grammatical_iff.mpr (.chain (.of_forall start more))
  have input : c.kinds = Phrase.joined first rest ++ last.kind :: after.map Token.kind := by
    rw [Cursor.kinds, ahead, List.map_append, written, List.map_cons]
  obtain ⟨e, c', ran, suffix, left, same⟩ := reads_grammatical phrase _ _ ends c input
  rw [ahead] at suffix
  exact ⟨⟨e, c', ran, Cursor.ahead_eq_of_suffix suffix left, same⟩,
    fun x _ spelling hs text ↦ x.1.lexes_spelling spelling hs text⟩

end Reader

/-! ### A chain with operators of five precedences -/

namespace Chained

/-- A name. -/
def name (s : String) : Phrase := ⟨[.ident s], .ident default s⟩

/-- The operand `-a.f(1,)`. -/
def first : Phrase :=
  ⟨[.minus, .ident "a", .dot, .ident "f", .lparen, .int 1, .comma, .rparen],
    .unary default .neg (.method default (.ident default "a") "f" [.literal default (.int 1)])⟩

/-- The operand `(if x then y else z)`. -/
def choice : Phrase :=
  ⟨[.lparen, .kwIf, .ident "x", .kwThen, .ident "y", .kwElse, .ident "z", .rparen],
    .cond default (.ident default "x") (.ident default "y") (.ident default "z")⟩

/-- The operand `!e[x]`. -/
def negated : Phrase :=
  ⟨[.bang, .ident "e", .lbracket, .ident "x", .rbracket],
    .unary default .not (.index default (.ident default "e") [.ident default "x"])⟩

/-- What is joined to the first operand: `- (if x then y else z) - b * c or d == !e[x] and g`. -/
def rest : List (BinaryOp × Phrase) :=
  [(.sub, choice), (.sub, name "b"), (.mul, name "c"), (.or, name "d"), (.eq, negated),
    (.and, name "g")]

theorem grammatical_name (s : String) : (name s).Grammatical := (Phrase.Primary.ident s).grammatical

theorem operand_name (s : String) : Phrase.Operand Phrase.Grammatical (name s) :=
  .suffixed (.primary (.ident s))

theorem operand_first : Phrase.Operand Phrase.Grammatical first := by
  have one : Phrase.Grammatical ⟨[.int 1], .literal default (.int 1)⟩ :=
    (Phrase.Primary.literal (.int 1)).grammatical
  exact .unary .neg (.suffixed (.method (.primary (.ident "a")) "f" true
    (List.forall_mem_singleton.mpr one)))

theorem operand_choice : Phrase.Operand Phrase.Grammatical choice := by
  have cond := Phrase.Conditional.cond (grammatical_name "x") (grammatical_name "y")
    (grammatical_name "z")
  exact .suffixed (.primary (.paren (Phrase.grammatical_iff.mpr (.single (.inr cond)))))

theorem operand_negated : Phrase.Operand Phrase.Grammatical negated :=
  .unary .not (.suffixed (.index (.primary (.ident "e")) false (List.cons_ne_nil (name "x") [])
    (List.forall_mem_singleton.mpr (grammatical_name "x"))))

/-- The differences are taken from the left, after the product, and the comparison before the
conjunction and the disjunction. -/
theorem read_by_precedence :
    (∃ e c', Reader.expression.run (.ofTokens ((Phrase.joined first rest).map (⟨·, default⟩) ++
          [⟨.newline, default⟩, ⟨.ident "next", default⟩])) = .ok (e, c') ∧
        c'.ahead = [⟨.newline, default⟩, ⟨.ident "next", default⟩] ∧
        e.plain = .binary default .or
          (.binary default .sub (.binary default .sub first.tree choice.tree)
            (.binary default .mul (.ident default "b") (.ident default "c")))
          (.binary default .and (.binary default .eq (.ident default "d") negated.tree)
            (.ident default "g"))) ∧
      Token.Lexes ['o', 'r', ' ', 'd'] [.orOr] [' ', 'd'] := by
  have operands : ∀ x ∈ rest, Phrase.Operand Phrase.Grammatical x.2 := by
    simp only [rest, List.forall_mem_cons]
    exact ⟨operand_choice, operand_name "b", operand_name "c", operand_name "d", operand_negated,
      operand_name "g", List.forall_mem_nil _⟩
  have chain := Reader.chain_by_precedence first rest operand_first operands
    ((Phrase.joined first rest).map (⟨·, default⟩)) rfl ⟨.newline, default⟩ rfl
    [⟨.ident "next", default⟩] (.ofTokens _) rfl
  have tree : first.tree.byPrecedence (Phrase.operandTrees rest) = .binary default .or
      (.binary default .sub (.binary default .sub first.tree choice.tree)
        (.binary default .mul (.ident default "b") (.ident default "c")))
      (.binary default .and (.binary default .eq (.ident default "d") negated.tree)
        (.ident default "g")) := by
    apply (Expr.byPrecedence_of_splitLeast rfl).trans
    congr 1
    · apply (Expr.byPrecedence_of_splitLeast rfl).trans
      congr 1
      · exact Expr.byPrecedence_singleton _ _ _
      · exact Expr.byPrecedence_singleton _ _ _
    · apply (Expr.byPrecedence_of_splitLeast rfl).trans
      congr 1
      · exact Expr.byPrecedence_singleton _ _ _
      · exact Expr.byPrecedence_nil _
  rw [tree] at chain
  exact ⟨chain.1, chain.2 (.or, name "d") (by simp [rest]) "or" (by decide) ['d']⟩

end Chained

end Formulary
