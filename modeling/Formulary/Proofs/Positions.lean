import Formulary.Proofs.LineLookup
import Formulary.Proofs.LongestMatch
import Formulary.Proofs.Taking

/-!
# Source positions

Where declarations and expressions say they stand in the source is where they stand. The tokens of a
declaration end no line, and neither do the gaps between them, so it takes up a part of a single
line, and the number of this line is told by the newlines before it. The next declaration comes
after a newline. The expressions stand in the declaration, one within the other
(`Line.positions_correct`).
-/

namespace Formulary

open Token (Kind)

/-! ### Line numbers -/

namespace Lines

theorem length_encode (cs : List Char) :
    (cs.flatMap String.utf8EncodeChar).length = String.utf8Len cs := by
  induction cs with
  | nil => rfl
  | cons c cs ih =>
    rw [List.flatMap_cons, List.length_append, String.length_utf8EncodeChar, ih,
      String.utf8Len_cons, Nat.add_comm]

theorem count_encode (cs : List Char) :
    (cs.flatMap String.utf8EncodeChar).count newline = cs.count '\n' := by
  induction cs with
  | nil => rfl
  | cons c cs ih =>
    rw [List.flatMap_cons, List.count_append, ih]
    by_cases hc : c = '\n'
    · subst hc
      rw [List.count_cons_self, Nat.add_comm]
      rfl
    · rw [List.count_eq_zero.mpr (newline_not_mem hc), List.count_cons_of_ne hc, Nat.zero_add]

/-- The number of a line is told by the newlines before it. -/
theorem lineOf_eq {source : String} {before rest : List Char}
    (cut : source.toList = before ++ rest) :
    (ofText source).lineOf (String.utf8Len before) = before.count '\n' + 1 := by
  rw [lineOf_ofText, bytes_eq, cut, List.flatMap_append, ← length_encode, List.take_left,
    count_encode]

end Lines

/-! ### Newlines in the text -/

namespace Token

theorem Gap.newline_not_mem {after gap : List Char} (h : Gap after gap) : '\n' ∉ gap := by
  induction h with
  | none => exact List.not_mem_nil
  | blank hc _ ih =>
    rintro (_ | ⟨_, there⟩)
    · exact absurd hc (by decide)
    · exact ih there
  | comment line _ =>
    rintro (_ | ⟨_, there⟩)
    exact line there

theorem Quotable.newline_not_mem {q : Char} {body : List Char} (h : Quotable q body) :
    '\n' ∉ body := by
  induction h with
  | nil => exact List.not_mem_nil
  | plain hc _ ih =>
    simp only [List.mem_cons, not_or] at hc ⊢
    exact ⟨fun same ↦ hc.2.2.1 same.symm, ih⟩
  | escape hc _ ih =>
    simp only [List.mem_cons, not_or]
    exact ⟨by decide, fun same ↦ hc same.symm, ih⟩

theorem newline_not_mem_of_forall {p : Char → Bool} {w : List Char} (h : ∀ c ∈ w, p c = true)
    (other : p '\n' = false) : '\n' ∉ w := by
  intro newline
  rw [h _ newline] at other
  cases other

/-- Only a newline has one in its text. -/
theorem newline_not_mem_spellings : ∀ e ∈ spellings, e.2 ≠ .newline → '\n' ∉ e.1.toList := by
  decide +kernel

theorem spelling_newline : ∀ e ∈ spellings, e.2 = .newline → e.1.toList = ['\n'] := by
  decide +kernel

variable {rule : Rule} {w : List Char} {kind : Kind}

theorem newline_not_mem (matched : w ∈ rule.language) (makes : rule.Makes w (some kind))
    (other : kind ≠ .newline) : '\n' ∉ w := by
  have digits {ds : List Char} (h : Decimal.IsDigits ds) : '\n' ∉ ds :=
    newline_not_mem_of_forall h.2 rfl
  have quoted {q : Char} (hq : '\n' ≠ q) (h : w ∈ among [q] * quotable q * among [q]) :
      '\n' ∉ w := by
    obtain ⟨body, rfl, quotable⟩ := mem_between_quotes.mp h
    simp [hq, quotable.newline_not_mem]
  cases makes with
  | fixed =>
    obtain ⟨rfl, listed⟩ := matched
    exact newline_not_mem_spellings _ listed other
  | float _ =>
    obtain ⟨whole, fraction, exponent, rfl, hw, hf, he⟩ := Rule.mem_float.mp matched
    have exponent_line : '\n' ∉ exponent := by
      rcases he with rfl | ⟨e, sign, ds, rfl, he, hs, hd⟩
      · exact List.not_mem_nil
      · rcases he with rfl | rfl <;> rcases hs with rfl | rfl | rfl <;> simp [digits hd]
    simp [digits hw, digits hf, exponent_line]
  | int _ => exact digits (mem_digits.mp matched)
  | doubleQuoted | singleQuoted => exact quoted (by decide) matched
  | ident | const => exact newline_not_mem_of_forall (isWordChar_of_mem rfl matched) rfl

/-- The text of a newline. -/
theorem eq_newline (matched : w ∈ rule.language) (makes : rule.Makes w (some .newline)) :
    w = ['\n'] := by
  cases makes with
  | fixed =>
    obtain ⟨rfl, listed⟩ := matched
    exact spelling_newline _ listed rfl

/-! ### Blocks of tokens in the text -/

variable {before text : List Char} {t : Token} {ts block : List Token}

theorem Laid.nonempty (h : Laid before text ts) :
    ∀ t ∈ ts, t.kind ≠ .eof → t.span.start < t.span.stop := by
  induction h with
  | done =>
    intro t ht more
    rw [List.mem_singleton.mp ht] at more
    exact absurd rfl more
  | token _ takes _ _ ih =>
    exact List.forall_mem_cons.mpr ⟨fun _ ↦ utf8Len_lt_of_mem takes.matched _, ih⟩

/-- Tokens that end no line stand in order. -/
theorem Laid.inOrder (h : Laid before text (block ++ ts))
    (inLine : ∀ t ∈ block, t.kind.endsLine = false) : InOrder block where
  nonempty t ht := by
    apply h.nonempty t (List.mem_append_left _ ht)
    intro same
    have := inLine t ht
    rw [same] at this
    cases this
  ordered := (List.pairwise_append.mp h.ordered).1.imp fun h ↦ h.2

/-- A newline token stands for the next newline of the text. -/
theorem Laid.newline (h : Laid before text (t :: ts)) (newline : t.kind = .newline) :
    ∃ gap rest, text = gap ++ (['\n'] ++ rest) ∧ Laid (before ++ gap ++ ['\n']) rest ts := by
  cases h with
  | done => cases newline
  | @token _ gap w rest _ kind _ _ takes makes later =>
    obtain rfl : kind = .newline := newline
    obtain rfl := eq_newline takes.matched makes
    exact ⟨gap, rest, rfl, later⟩

/-- Tokens that end no line, and the gaps before and between them, take up a part of the text
without newlines. -/
theorem Laid.oneLine (h : Laid before text (block ++ ts)) (some : block ≠ [])
    (inLine : ∀ t ∈ block, t.kind.endsLine = false) :
    ∃ gap inside rest, text = gap ++ (inside ++ rest) ∧ '\n' ∉ gap ∧ '\n' ∉ inside ∧
      Spans block ⟨String.utf8Len (before ++ gap), String.utf8Len (before ++ gap ++ inside)⟩ ∧
      Laid (before ++ gap ++ inside) rest ts := by
  induction block generalizing before text with
  | nil => exact absurd rfl some
  | cons t block ih =>
    obtain ⟨here, later⟩ := List.forall_mem_cons.mp inLine
    rw [List.cons_append] at h
    generalize joined : block ++ ts = after at h
    cases h with
    | done => cases here
    | @token _ gap w rest _ kind _ skipped takes makes laid =>
      subst joined
      have line : '\n' ∉ w := newline_not_mem takes.matched makes (by rintro rfl; cases here)
      by_cases none : block = []
      · subst none
        exact ⟨gap, w, rest, rfl, skipped.newline_not_mem, line, ⟨_, rfl, _, rfl, rfl⟩, laid⟩
      · obtain ⟨gap', inside, rest', rfl, gap_line, inside_line, spans, laid'⟩ :=
          ih laid none later
        obtain ⟨first, -, last, ends, span⟩ := spans
        refine ⟨gap, w ++ (gap' ++ inside), rest', by simp only [List.append_assoc],
          skipped.newline_not_mem, by simp [line, gap_line, inside_line],
          ⟨_, rfl, last, List.mem_getLast?_cons ends, ?_⟩, ?_⟩
        · injection span with _ stop
          rw [← stop]
          simp only [List.append_assoc]
        · simpa only [List.append_assoc] using laid'

end Token

/-! ### Lines -/

/-- Lines were read from tokens: each from a block of them that is in one line, and the line ends
after it. -/
inductive Line.Rows (lines : Lines) : List Token → List Line → Prop where
  | done (ts : List Token) : Rows lines ts []
  | newline {t : Token} {ts : List Token} {ls : List Line} (newline : t.kind = .newline)
      (later : Rows lines ts ls) : Rows lines (t :: ts) ls
  | line {block ts : List Token} {l : Line} {ls : List Line} (read : l.ReadFrom block)
      (number : ∀ first ∈ block.head?, l.number = lines.lineOf first.span.start)
      (inLine : ∀ t ∈ block, t.kind.endsLine = false)
      (ended : ∀ t ∈ ts.head?, t.kind.endsLine = true) (later : Rows lines ts ls) :
      Rows lines (block ++ ts) (l :: ls)

namespace Reader

theorem endsLine_eq (k : Kind) : k.endsLine = (k = .newline || k = .eof) := by
  cases k <;> rfl

theorem rows_of_linesUpTo {lines : Lines} {bound : Nat} {c c' : Cursor} {ls : List Line}
    (ran : (linesUpTo lines bound).run c = .ok (ls, c')) : Line.Rows lines c.ahead ls := by
  induction bound generalizing c ls with
  | zero =>
    cases ran
    exact .done _
  | succ bound ih =>
    rw [linesUpTo, StateT.run_bind, run_eat] at ran
    by_cases newline : c.current.kind = .newline
    · rw [if_pos newline] at ran
      rw [c.ahead_eq (by simp [newline])]
      exact .newline newline (ih ran)
    rw [if_neg newline] at ran
    change (if c.current.kind = .eof then return [] else _ : Reader (List Line)).run c = _ at ran
    by_cases eof : c.current.kind = .eof
    · rw [if_pos eof] at ran
      cases ran
      exact .done _
    rw [if_neg eof] at ran
    obtain ⟨⟨first, c₁⟩, ran₁, ran₂⟩ := bind_eq_ok ran
    obtain ⟨block, passes, read, number⟩ := takes_line lines c first c₁ ran₁
    change (if (c₁.current.kind = .newline || c₁.current.kind = .eof) = true then _ else _ :
      Reader (List Line)).run c₁ = _ at ran₂
    rw [← endsLine_eq] at ran₂
    by_cases ended : c₁.current.kind.endsLine = true
    · rw [if_pos ended] at ran₂
      obtain ⟨⟨more, c₂⟩, ran₃, ran₄⟩ := bind_eq_ok ran₂
      cases ran₄
      rw [passes.ahead]
      refine .line read number passes.inLine (fun t ht ↦ ?_) (ih ran₃)
      have here : c₁.current = t := by rw [Cursor.current, List.headD_eq_head?_getD, ht]; rfl
      rwa [← here]
    · rw [if_neg ended] at ran₂
      cases ran₂

end Reader

/-! ### Positions -/

/-- An expression lies in the span of the tokens among which it stands. -/
theorem Expr.Placed.inside_of_spans {ts : List Token} {e : Expr} {s : Span} (h : e.Placed ts)
    (order : Token.InOrder ts) (spans : Token.Spans ts s) : e.span.Inside s := by
  obtain ⟨first, starts, last, ends, rfl⟩ := spans
  obtain ⟨t, ht, start⟩ := h.starts
  obtain ⟨u, hu, stop⟩ := h.ends
  rw [Span.Inside, start, stop]
  exact ⟨order.start_le starts ht, order.le_stop ends hu⟩

namespace Line

/-- A declaration stands where its line says: the span takes up a part of the source without
newlines, the newlines before it tell the number of the line, and the expressions in the declaration
lie in its span and stand where their own spans say. -/
structure Placed (source : String) (tokens : List Token) (l : Line) : Prop where
  text : ∃ before inside after, source.toList = before ++ (inside ++ after) ∧
    l.span = ⟨String.utf8Len before, String.utf8Len (before ++ inside)⟩ ∧
    l.number = before.count '\n' + 1 ∧ '\n' ∉ inside
  exprs : ∀ e ∈ l.declaration.exprs, ∀ d : Expr, d.Within e →
    d.span.Inside l.span ∧ d.Placed tokens

variable {source : String} {tokens block ts : List Token} {before text : List Char} {l : Line}
  {ls : List Line}

theorem ReadFrom.exprs (h : l.ReadFrom block) (order : Token.InOrder block) {e d : Expr}
    (he : e ∈ l.declaration.exprs) (within : d.Within e) :
    d.span.Inside l.span ∧ d.Placed block := by
  obtain ⟨blocks, cut, all, each⟩ := h.row
  rw [← all] at he
  obtain ⟨b, hb, rfl⟩ := List.mem_map.mp he
  have sub := cut.sublist b.1 (List.mem_map_of_mem hb)
  have placed := ((each b hb).placed (order.sublist sub) within).mono sub.subset
  exact ⟨placed.inside_of_spans order (h.spans order), placed⟩

/-- A line that is read from tokens in the text is placed, and the text goes on in the same line. -/
theorem ReadFrom.placed (h : l.ReadFrom block)
    (number : ∀ first ∈ block.head?, l.number = (Lines.ofText source).lineOf first.span.start)
    (inLine : ∀ t ∈ block, t.kind.endsLine = false) (cut : source.toList = before ++ text)
    (laid : Token.Laid before text (block ++ ts)) (sub : block ⊆ tokens) :
    l.Placed source tokens ∧ l.number = before.count '\n' + 1 ∧
      ∃ before' text', source.toList = before' ++ text' ∧ before'.count '\n' = before.count '\n' ∧
        Token.Laid before' text' ts := by
  obtain ⟨gap, inside, rest, rfl, gap_line, inside_line, spans, laid'⟩ := laid.oneLine h.some inLine
  have order := laid.inOrder inLine
  rw [← List.append_assoc before gap] at cut
  have count : (before ++ gap).count '\n' = before.count '\n' := by
    rw [List.count_append, List.count_eq_zero.mpr gap_line, Nat.add_zero]
  obtain ⟨first, starts, last, ends, span⟩ := h.spans order
  obtain ⟨first', starts', last', ends', span'⟩ := spans
  cases Option.mem_unique starts starts'
  cases Option.mem_unique ends ends'
  have num : l.number = (before ++ gap).count '\n' + 1 := by
    rw [number first starts, ← congrArg Span.start span', Lines.lineOf_eq cut]
  refine ⟨⟨⟨before ++ gap, inside, rest, cut, span.trans span'.symm, num, inside_line⟩, ?_⟩,
    by rw [num, count], before ++ gap ++ inside, rest, by rw [cut, List.append_assoc _ inside], ?_,
    laid'⟩
  · intro e he d within
    obtain ⟨inside, placed⟩ := h.exprs order he within
    exact ⟨inside, placed.mono sub⟩
  · rw [List.count_append, List.count_eq_zero.mpr inside_line, Nat.add_zero, count]

/-- The lines of a text are placed, each in a later line than the one before. -/
theorem Rows.placed (h : Rows (Lines.ofText source) ts ls) (cut : source.toList = before ++ text)
    (laid : Token.Laid before text ts) (sub : ts ⊆ tokens) :
    (∀ l ∈ ls, l.Placed source tokens ∧ before.count '\n' < l.number ∧
      ((∀ t ∈ ts.head?, t.kind.endsLine = true) → before.count '\n' + 1 < l.number)) ∧
      ls.Pairwise (·.number < ·.number) := by
  induction h generalizing before text with
  | done => exact ⟨List.forall_mem_nil _, .nil⟩
  | newline newline later ih =>
    obtain ⟨gap, rest, rfl, laid'⟩ := laid.newline newline
    obtain ⟨each, numbers⟩ := ih (by simpa using cut) laid' (List.subset_of_cons_subset sub)
    refine ⟨fun l hl ↦ ?_, numbers⟩
    obtain ⟨placed, number, -⟩ := each l hl
    simp only [List.count_append, List.count_singleton_self] at number
    exact ⟨placed, by omega, fun _ ↦ by omega⟩
  | @line block ts l ls read number inLine ended later ih =>
    obtain ⟨sub, sub'⟩ := List.append_subset.mp sub
    obtain ⟨placed, num, before', text', cut', count, laid'⟩ :=
      read.placed number inLine cut laid sub
    obtain ⟨each, numbers⟩ := ih cut' laid' sub'
    have inside : ¬ ∀ t ∈ (block ++ ts).head?, t.kind.endsLine = true := by
      obtain ⟨t, block', rfl⟩ := List.exists_cons_of_ne_nil read.some
      rw [List.forall_mem_cons] at inLine
      intro ended
      cases inLine.1.symm.trans (ended t rfl)
    refine ⟨List.forall_mem_cons.mpr ⟨⟨placed, by omega, fun ended ↦ absurd ended inside⟩,
      fun l' hl ↦ ?_⟩, List.pairwise_cons.mpr ⟨fun l' hl ↦ ?_, numbers⟩⟩
    · obtain ⟨placed', more, -⟩ := each l' hl
      exact ⟨placed', by omega, fun ended ↦ absurd ended inside⟩
    · obtain ⟨-, -, after⟩ := each l' hl
      have := after ended
      omega

/-- Source positions are right.

Let a text be accepted as a script. Then each declaration has the number of a later line than the
one before. The number is one more than the number of newlines before the span of the declaration,
and there is no newline in this span. The span of every expression in a declaration, at any depth,
lies in that of the declaration; it begins where a token begins, and ends where one ends. The spans
of the expressions that it is made of lie in it, and none of them overlaps another one. -/
theorem positions_correct {source module : String} {lines : List Line}
    (accepted : parse source module = .ok lines) :
    lines.Pairwise (·.number < ·.number) ∧
      ∃ tokens, Token.tokens source = .ok tokens ∧ ∀ l ∈ lines, l.Placed source tokens := by
  obtain ⟨tokens, c, lexed, ran⟩ := exists_run_of_parse accepted
  have laid : Token.Laid [] source.toList tokens := Token.laid_of_tokensFrom (Nat.le_refl _) lexed
  have rows : Rows (Lines.ofText source) tokens lines := Reader.rows_of_linesUpTo ran
  obtain ⟨each, numbers⟩ := rows.placed (List.nil_append _).symm laid (List.Subset.refl tokens)
  exact ⟨numbers, tokens, lexed, fun l hl ↦ (each l hl).1⟩

end Line

/-! Comments, a blank line, and parentheses, which belong to the expression inside. -/

namespace Spaced

def source : String := "# é\nN:\r\n\n  x = [(1 + 2) * y]  # sum\n"

def tokens : List Token :=
  [⟨.newline, 4, 5⟩, ⟨.const "N", 5, 6⟩, ⟨.colon, 6, 7⟩, ⟨.newline, 8, 9⟩, ⟨.newline, 9, 10⟩,
    ⟨.ident "x", 12, 13⟩, ⟨.assign, 14, 15⟩, ⟨.lbracket, 16, 17⟩, ⟨.lparen, 17, 18⟩,
    ⟨.int 1, 18, 19⟩, ⟨.plus, 20, 21⟩, ⟨.int 2, 22, 23⟩, ⟨.rparen, 23, 24⟩, ⟨.star, 25, 26⟩,
    ⟨.ident "y", 27, 28⟩, ⟨.rbracket, 28, 29⟩, ⟨.newline, 36, 37⟩, ⟨.eof, 37, 37⟩]

/-- The expression `(1 + 2)`. -/
def sum : Expr := .binary ⟨17, 24⟩ .add (.literal ⟨18, 19⟩ (.int 1)) (.literal ⟨22, 23⟩ (.int 2))

def lines : List Line :=
  [⟨2, ⟨5, 7⟩, .node "N" none⟩,
    ⟨4, ⟨12, 29⟩,
      .formula "x" (.list ⟨16, 29⟩ [.binary ⟨17, 28⟩ .mul sum (.ident ⟨27, 28⟩ "y")])⟩]

theorem lines_placed :
    parse source "M" = .ok lines ∧ lines.Pairwise (·.number < ·.number) ∧
      ∃ tokens, Token.tokens source = .ok tokens ∧ ∀ l ∈ lines, l.Placed source tokens := by
  have lexed : Token.tokens source = .ok tokens := by decide +kernel
  have read : (Reader.script (Lines.ofText source)).run' (Cursor.ofTokens tokens) = .ok lines := rfl
  have accepted : parse source "M" = .ok lines := by simp only [parse, lexed, read]
  exact ⟨accepted, Line.positions_correct accepted⟩

end Spaced

end Formulary
