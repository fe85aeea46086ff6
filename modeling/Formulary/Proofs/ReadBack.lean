import Formulary.Method
import Formulary.Proofs.Cycles
import Formulary.Proofs.Inheritance
import Formulary.Proofs.Lexing
import Formulary.Proofs.LineLookup
import Formulary.Proofs.Rereading
import Formulary.Proofs.Spans
import Formulary.Registry

/-!
# Shown values read back

Data is what is built from `nil`, booleans, integers, strings, lists and maps. Shown like a literal
it is the text of an expression (`Value.Data.exists_expr`), and that expression has the value that
was shown.
-/

namespace Formulary

/-- Values that are shown as they can be written: integers that have an opposite, strings without
characters that are escaped by code point, and maps in which no key equals an earlier one. -/
inductive Value.Data : Value → Prop where
  | nil : Data .nil
  | bool (b : Bool) : Data (.bool b)
  | int (n : Int64) (h : Int64.minValue < n) : Data (.int n)
  | str (s : String) (h : ∀ c ∈ s.toList, Token.isPlainlyEscaped c) : Data (.str s)
  | list (items : List Value) (h : ∀ v ∈ items, Data v) : Data (.list items)
  | map (entries : List (Value × Value)) (keys : ∀ e ∈ entries, Data e.1)
      (values : ∀ e ∈ entries, Data e.2)
      (distinct : entries.Pairwise fun a b ↦ (b.1 == a.1) = false) : Data (.map entries)

theorem Value.toList_inspect_int (n : Int64) :
    (Value.int n).inspect.toList = (toString n.toInt).toList := by
  simp [Value.inspect, Value.render]

/-- Neither parentheses nor trailing commas. -/
def Layout.bare : Layout := ⟨fun _ ↦ false, fun _ ↦ false⟩

theorem Expr.item_bare (e : Expr) : e.item .bare = e.spell .bare := by
  simp [Expr.item, Layout.wrapped, Layout.bare, parenthesise]

/-- The shown value is the text of the expression, and the expression has that value in every scope
and in every evaluation. -/
structure Expr.Denotes (e : Expr) (v : Value) : Prop where
  shows : Token.Shows v.inspect.toList (e.item .bare)
  writable : e.Writable
  closed : ∀ (sc : Scope) (names : List String), sc.mentions names e = .ok []
  runs : ∀ (sc : Scope) (names : List String), ∃ code, sc.lower names e = .ok code ∧
    ∀ {σ : Type} (s : Setting σ) (read : Read (Eval σ)) (cx : Context) (vars : List Value),
      run s read cx vars code = pure v

namespace Expr

/-- A constant denotes its value if it is shown as its token. -/
theorem denotes_literal {l : Literal} (shows : Token.Shows l.value.inspect.toList [l.kind]) :
    Denotes (.literal default l) l.value where
  shows := shows
  writable := by simp [writable_iff, isFilled, parts]
  closed sc names := by rw [Scope.mentions]
  runs sc names := ⟨.const l.value, by rw [Scope.lower], fun s read cx vars ↦ by rw [run]⟩

theorem denotes_nil : Denotes (.literal default .nil) .nil :=
  denotes_literal (Token.shows_word (fun _ ↦ rfl) rfl rfl)

theorem denotes_bool (b : Bool) : Denotes (.literal default (.bool b)) (.bool b) := by
  apply denotes_literal
  cases b <;> exact Token.shows_word (fun _ ↦ rfl) rfl rfl

theorem denotes_str {s : String} (h : ∀ c ∈ s.toList, Token.isPlainlyEscaped c) :
    Denotes (.literal default (.str s)) (.str s) := by
  apply denotes_literal
  have shows := Token.shows_quoted s.toList h
  rw [String.ofList_toList] at shows
  simpa [Literal.value, Literal.kind, Value.inspect, Value.render] using shows

theorem denotes_natural {n : Int64} {m : Nat} (h : n.toInt = m) :
    Denotes (.literal default (.int n)) (.int n) := by
  have high : n.toInt ≤ Decimal.maxInt := n.toInt_le
  have shows : Token.Shows (Nat.toDigits 10 m) [.int (Int64.ofInt m)] :=
    Token.shows_int (by omega)
  apply denotes_literal
  change Token.Shows (Value.int n).inspect.toList [.int n]
  rw [← h, Int64.ofInt_toInt] at shows
  rw [Value.toList_inspect_int, h, Decimal.toList_toString]
  exact shows

/-- The opposite of an integer comes after a minus sign. -/
theorem denotes_opposite {n : Int64} {m : Nat} (h : n.toInt = Int.negSucc m)
    (low : Decimal.minInt < n.toInt) :
    Denotes (.unary default .neg (.literal default (.int (Int64.ofInt (m + 1 : Nat)))))
      (.int n) := by
  have high : ((m + 1 : Nat) : Int) ≤ Decimal.maxInt := by
    unfold Decimal.minInt at low
    unfold Decimal.maxInt
    omega
  have opposite : (Int64.ofInt (m + 1 : Nat)).toInt = (m + 1 : Nat) := by
    unfold Decimal.maxInt at high
    exact Int64.toInt_ofInt_of_le (by omega) (by omega)
  have negated : Value.unary .neg (.int (Int64.ofInt (m + 1 : Nat))) = .ok (.int n) := by
    have same : -((m + 1 : Nat) : Int) = n.toInt := h.symm
    have bounds : Decimal.minInt ≤ n.toInt ∧ n.toInt ≤ Decimal.maxInt :=
      ⟨Int.le_of_lt low, n.toInt_le⟩
    simp only [Value.unary, opposite, same, Value.exact, Decimal.toInt64?, if_pos bounds,
      Int64.ofInt_toInt]
  constructor
  case shows =>
    have text : (toString (Int.negSucc m)).toList = '-' :: Nat.toDigits 10 (m + 1) := by
      rw [Decimal.toList_toString, Decimal.signOf, if_pos (Int.negSucc_lt_zero m)]
      rfl
    rw [Value.toList_inspect_int, h, text]
    exact Token.shows_negated (Token.shows_int high)
  case writable => simp [writable_iff, isFilled, parts]
  case closed =>
    intro sc names
    rw [Scope.mentions, Scope.mentions]
  case runs =>
    intro sc names
    refine ⟨.unary .neg (.const (.int (Int64.ofInt (m + 1 : Nat)))), ?_, fun s read cx vars ↦ ?_⟩
    · rw [Scope.lower, Scope.lower]
      rfl
    · rw [run, run, pure_bind, negated]
      rfl

theorem exists_denotes_int {n : Int64} (h : Int64.minValue < n) : ∃ e, Denotes e (.int n) := by
  cases sign : n.toInt with
  | ofNat m => exact ⟨_, denotes_natural sign⟩
  | negSucc m => exact ⟨_, denotes_opposite sign (Int64.lt_iff_toInt_lt.mp h)⟩

section

variable {es : List Expr} {items : List Value}

theorem shows_items (h : List.Forall₂ Denotes es items) :
    List.Forall₂ Token.Shows ((Value.renderItems items).map String.toList)
      (es.map (item .bare)) := by
  induction h with
  | nil => exact .nil
  | cons denotes _ ih => exact .cons denotes.shows ih

theorem writable_items (h : List.Forall₂ Denotes es items) : ∀ e ∈ es, e.Writable := by
  induction h with
  | nil => simp
  | cons denotes _ ih => exact List.forall_mem_cons.mpr ⟨denotes.writable, ih⟩

theorem closed_items (h : List.Forall₂ Denotes es items) (sc : Scope) (names : List String) :
    sc.mentionsAll names es = .ok [] := by
  induction h with
  | nil => rw [Scope.mentionsAll]
  | cons denotes _ ih =>
    rw [Scope.mentionsAll, denotes.closed, ih]
    rfl

theorem runs_items (h : List.Forall₂ Denotes es items) (sc : Scope) (names : List String) :
    ∃ codes, sc.lowerAll names es = .ok codes ∧
      ∀ {σ : Type} (s : Setting σ) (read : Read (Eval σ)) (cx : Context) (vars : List Value),
        runAll s read cx vars codes = pure items := by
  induction h with
  | nil => exact ⟨[], by rw [Scope.lowerAll], fun s read cx vars ↦ by rw [runAll]⟩
  | cons denotes _ ih =>
    obtain ⟨code, lowered, ran⟩ := denotes.runs sc names
    obtain ⟨codes, lowereds, rans⟩ := ih
    refine ⟨code :: codes, ?_, fun s read cx vars ↦ ?_⟩
    · rw [Scope.lowerAll, lowered, lowereds]
      rfl
    · rw [runAll, ran, rans]
      rfl

theorem denotes_list (h : List.Forall₂ Denotes es items) :
    Denotes (.list default es) (.list items) where
  shows := by
    rw [item_bare, spell, spellAll_eq_map]
    have shows := Token.shows_bracketed '[' ']' (shows_items h) (fun _ ↦ rfl) (fun _ ↦ rfl)
      (by decide) rfl
    simpa [Value.inspect, Value.render, Layout.bare] using shows
  writable := by
    rw [writable_iff, List.forall_iff_forall_mem]
    exact ⟨trivial, writable_items h⟩
  closed sc names := by rw [Scope.mentions, closed_items h]
  runs sc names := by
    obtain ⟨codes, lowered, ran⟩ := runs_items h sc names
    refine ⟨.list codes, ?_, fun s read cx vars ↦ ?_⟩
    · rw [Scope.lower, lowered]
      rfl
    · rw [run, ran]
      rfl

end

section

variable {es : List (Entry Expr Expr)} {entries : List (Value × Value)}

/-- A pair of expressions denotes an entry. -/
inductive DenotesEntry : Entry Expr Expr → Value × Value → Prop where
  | pair {k v : Expr} {e : Value × Value} (key : Denotes k e.1) (value : Denotes v e.2) :
      DenotesEntry (.pair k v) e

theorem shows_entries (h : List.Forall₂ DenotesEntry es entries) :
    List.Forall₂ Token.Shows ((Value.renderEntries true entries).map String.toList)
      (es.map (entryItem .bare)) := by
  induction h with
  | nil => exact .nil
  | @cons x e es entries denotes _ ih =>
    obtain ⟨key, value⟩ := denotes
    refine .cons ?_ ih
    have shows := Token.shows_entry key.shows value.shows
    simpa [Value.inspect, entryItem] using shows

theorem writable_entries (h : List.Forall₂ DenotesEntry es entries) :
    ∀ e ∈ es.flatMap entryParts, e.Writable := by
  induction h with
  | nil => simp
  | cons denotes _ ih =>
    obtain ⟨key, value⟩ := denotes
    simpa [entryParts, key.writable, value.writable] using ih

theorem closed_entries (h : List.Forall₂ DenotesEntry es entries) (sc : Scope)
    (names : List String) : sc.mentionsEntries names es = .ok [] := by
  induction h with
  | nil => rw [Scope.mentionsEntries]
  | cons denotes _ ih =>
    obtain ⟨key, value⟩ := denotes
    rw [Scope.mentionsEntries, key.closed, value.closed, ih]
    rfl

theorem runs_entries (h : List.Forall₂ DenotesEntry es entries) (sc : Scope) (names : List String) :
    ∃ codes, sc.lowerEntries names es = .ok codes ∧
      ∀ {σ : Type} (s : Setting σ) (read : Read (Eval σ)) (cx : Context) (vars : List Value),
        runEntries s read cx vars codes = pure entries := by
  induction h with
  | nil => exact ⟨[], by rw [Scope.lowerEntries], fun s read cx vars ↦ by rw [runEntries]⟩
  | cons denotes _ ih =>
    obtain ⟨key, value⟩ := denotes
    obtain ⟨k, loweredKey, ranKey⟩ := key.runs sc names
    obtain ⟨v, loweredValue, ranValue⟩ := value.runs sc names
    obtain ⟨codes, lowereds, rans⟩ := ih
    refine ⟨.pair k v :: codes, ?_, fun s read cx vars ↦ ?_⟩
    · rw [Scope.lowerEntries, loweredKey, loweredValue, lowereds]
      rfl
    · rw [runEntries, ranKey, ranValue, rans]
      rfl

theorem denotes_map (h : List.Forall₂ DenotesEntry es entries)
    (distinct : entries.Pairwise fun a b ↦ (b.1 == a.1) = false) :
    Denotes (.map default es) (.map entries) where
  shows := by
    rw [item_bare, spell, spellEntries_eq_map]
    have shows := Token.shows_bracketed '\x7b' '\x7d' (shows_entries h) (fun _ ↦ rfl) (fun _ ↦ rfl)
      (by decide) rfl
    simpa [Value.inspect, Value.render, Layout.bare] using shows
  writable := by
    rw [writable_iff, List.forall_iff_forall_mem]
    exact ⟨trivial, writable_entries h⟩
  closed sc names := by rw [Scope.mentions, closed_entries h]
  runs sc names := by
    obtain ⟨codes, lowered, ran⟩ := runs_entries h sc names
    refine ⟨.map codes, ?_, fun s read cx vars ↦ ?_⟩
    · rw [Scope.lower, lowered]
      rfl
    · rw [run, ran, pure_bind, Indexed.ofEntries_eq, Ordered.ofEntries_of_distinct distinct]

end

/-- Expressions can be chosen one by one. -/
theorem exists_forall₂ {α β : Type} {R : α → β → Prop} {ys : List β} (h : ∀ y ∈ ys, ∃ x, R x y) :
    ∃ xs, List.Forall₂ R xs ys := by
  induction ys with
  | nil => exact ⟨[], .nil⟩
  | cons y ys ih =>
    obtain ⟨x, hx⟩ := h y List.mem_cons_self
    obtain ⟨xs, hxs⟩ := ih fun z hz ↦ h z (List.mem_cons_of_mem y hz)
    exact ⟨x :: xs, .cons hx hxs⟩

/-- Data can be written. -/
theorem exists_denotes {v : Value} (data : v.Data) : ∃ e, Denotes e v := by
  induction data with
  | nil => exact ⟨_, denotes_nil⟩
  | bool b => exact ⟨_, denotes_bool b⟩
  | int n h => exact exists_denotes_int h
  | str s h => exact ⟨_, denotes_str h⟩
  | list items _ ih =>
    obtain ⟨es, h⟩ := exists_forall₂ ih
    exact ⟨_, denotes_list h⟩
  | map entries _ _ distinct keys values =>
    have pairs : ∀ e ∈ entries, ∃ x, DenotesEntry x e := by
      intro e he
      obtain ⟨k, key⟩ := keys e he
      obtain ⟨v, value⟩ := values e he
      exact ⟨.pair k v, .pair key value⟩
    obtain ⟨es, h⟩ := exists_forall₂ pairs
    exact ⟨_, denotes_map h distinct⟩

end Expr

/-! ### A script with one formula -/

namespace Token

/-- The tokens before the expression in a node `A` with the formula `a`. -/
def heading : List Token :=
  [⟨.const "A", 0, 1⟩, ⟨.colon, 1, 2⟩, ⟨.newline, 2, 3⟩, ⟨.ident "a", 7, 8⟩, ⟨.assign, 9, 10⟩]

theorem tokensFrom_heading {cs : List Char} (other : ∀ c ∈ cs.head?, isSeparator c = false)
    (fuel : Nat) : tokensFrom (fuel + 8) 0 ("A:\n    a = ".toList ++ cs) =
      (tokensFrom fuel 11 cs).map (heading ++ ·) := by
  have name (rest : List Char) :
      scan 'A' (':' :: rest) = ⟨.token (.const "A"), ['A'], ':' :: rest⟩ := rfl
  have colon (rest : List Char) :
      scan ':' ('\n' :: rest) = ⟨.token .colon, [':'], '\n' :: rest⟩ := rfl
  have newline (rest : List Char) : scan '\n' rest = ⟨.token .newline, ['\n'], rest⟩ := rfl
  have indent (rest : List Char) : scan ' ' (' ' :: ' ' :: ' ' :: 'a' :: rest) =
      ⟨.skipped, [' ', ' ', ' ', ' '], 'a' :: rest⟩ := rfl
  have attr (rest : List Char) :
      scan 'a' (' ' :: rest) = ⟨.token (.ident "a"), ['a'], ' ' :: rest⟩ := rfl
  have space (rest : List Char) : scan ' ' ('=' :: rest) = ⟨.skipped, [' '], '=' :: rest⟩ := rfl
  have assign (rest : List Char) :
      scan '=' (' ' :: rest) = ⟨.token .assign, ['='], ' ' :: rest⟩ := rfl
  have text : "A:\n    a = ".toList ++ cs =
      'A' :: ':' :: '\n' :: ' ' :: ' ' :: ' ' :: ' ' :: 'a' :: ' ' :: '=' :: ' ' :: cs := rfl
  rw [text, tokensFrom_token (name _), tokensFrom_token (colon _), tokensFrom_token (newline _),
    tokensFrom_skipped (indent _), tokensFrom_token (attr _), tokensFrom_skipped (space _),
    tokensFrom_token (assign _), tokensFrom_skipped (scan_space other)]
  change (((((tokensFrom fuel 11 cs).map _).map _).map _).map _).map _ = _
  cases tokensFrom fuel 11 cs <;> rfl

/-- The tokens of the script. -/
theorem tokens_heading {text : String} {kinds : List Kind} (shows : Shows text.toList kinds) :
    ∃ ts stop, tokens ("A:\n    a = " ++ text) = .ok (heading ++ ts ++ [⟨.eof, stop, stop⟩]) ∧
      ts.map kind = kinds := by
  have lexes := shows.lexes [] (by simp [Breaks])
  rw [List.append_nil] at lexes
  obtain ⟨ts, fuel, stop, -, hts, eq⟩ := lexes (text.toList.length + 3) 11 (by omega)
  have other := shows.head []
  rw [List.append_nil] at other
  have length : ("A:\n    a = ".toList ++ text.toList).length = text.toList.length + 3 + 8 := by
    rw [List.length_append, Nat.add_comm]
    rfl
  refine ⟨ts, stop, ?_, hts⟩
  simp only [tokens, String.toList_append]
  rw [length, tokensFrom_heading other, eq]
  cases fuel <;> simp [tokensFrom, Except.map]

end Token

/-! ### Reading the script -/

namespace Lines

/-- The node stands in the first column and the formula does not. -/
theorem columnOf_heading (text : String) :
    (ofText ("A:\n    a = " ++ text)).columnOf 0 = 0 ∧
      (ofText ("A:\n    a = " ++ text)).columnOf 7 = 4 := by
  have starts : (ofText ("A:\n    a = " ++ text)).starts.toList =
      [0, 3] ++ startsAfter 11 text.toList := by
    simp only [ofText, String.toList_append]
    rfl
  constructor
  · rw [columnOf, Nat.zero_sub]
  · have second : 3 ∈ (ofText ("A:\n    a = " ++ text)).starts.toList := by simp [starts]
    have start := startOf_eq second (show 3 ≤ 7 by decide) fun s hs le ↦ by
      rw [starts] at hs
      rcases List.mem_append.mp hs with heading | later
      · have : s = 0 ∨ s = 3 := by simpa using heading
        omega
      · have := lt_of_mem_startsAfter later
        omega
    rw [columnOf, start]

end Lines

namespace Reader

open Token (Kind)

variable {k : Kind} {rest out : List Kind}

theorem reads_atLineEnd_bind {β : Type} {f : Bool → Reader β} {Q : β → Prop}
    (h : Reads (f (k = .newline || k = .eof)) (k :: rest) out Q) :
    Reads (atLineEnd >>= f) (k :: rest) out Q := by
  unfold atLineEnd
  simp only [bind_assoc]
  apply reads_kind_bind
  apply reads_kind_bind
  exact h

theorem reads_nodeHeader {name : String} (ends : (k = .newline || k = .eof) = true) :
    Reads nodeHeader (.const name :: .colon :: k :: rest) (k :: rest) (· = .node name none) := by
  unfold nodeHeader
  apply reads_const_bind
  apply reads_require_bind (by simp)
  apply reads_atLineEnd_bind
  rw [ends]
  exact reads_pure rfl

/-- A formula is read from the tokens of its expression. -/
theorem reads_memberLine {l : Layout} {name : String} {e : Expr} (writable : e.Writable)
    (ends : k.isEnd = true) :
    Reads memberLine (.ident name :: .assign :: (e.item l ++ k :: rest)) (k :: rest)
      fun d ↦ ∃ e' : Expr, e'.plain = e.plain ∧ d = .formula name e' := by
  obtain ⟨first, ks, starts, start⟩ := Expr.exists_start_item l e
  have reads := reads_expression l k rest writable ends
  have more : ¬(first = .newline || first = .eof) = true := by
    intro ended
    rcases by simpa using ended with rfl | rfl <;> cases start
  unfold memberLine
  apply reads_ident_bind
  apply reads_require_bind (by simp)
  rw [starts] at reads ⊢
  apply reads_skip_ite (by rintro rfl; cases start)
  apply reads_atLineEnd_bind
  rw [if_neg more]
  apply reads.bind
  intro e' same
  exact reads_pure ⟨e', same, rfl⟩

/-- A line is read as its declaration is, which depends on the column. -/
theorem run_line {lines : Lines} {input : List Kind} {Q : Declaration → Prop} {c : Cursor}
    (reads : Reads (declaration (decide (0 < lines.columnOf c.current.span.start))) input rest Q)
    (hc : c.kinds = input) :
    ∃ line c', (Reader.line lines).run c = .ok (line, c') ∧ c'.ahead <:+ c.ahead ∧
      c'.kinds = rest ∧ Q line.declaration := by
  obtain ⟨d, c', ran, suffix, left, hd⟩ := reads c hc
  refine ⟨⟨lines.lineOf c.current.span.start, c.current.span.merge c'.previous, d⟩, c', ?_, suffix,
    left, hd⟩
  have split : (Reader.line lines).run c =
      (declaration (decide (0 < lines.columnOf c.current.span.start)) >>= fun d ↦ do
        return ⟨lines.lineOf c.current.span.start, ← spanFrom c.current.span, d⟩).run c := rfl
  rw [split, StateT.run_bind, ran]
  rfl

section

variable {lines : Lines} {c c' : Cursor} (bound : Nat)

theorem run_linesUpTo_newline (h : c.current.kind = .newline) :
    (linesUpTo lines (bound + 1)).run c = (linesUpTo lines bound).run c.advance := by
  rw [linesUpTo, StateT.run_bind, run_eat, if_pos h]
  rfl

theorem run_linesUpTo_eof (h : c.current.kind = .eof) :
    (linesUpTo lines (bound + 1)).run c = .ok ([], c) := by
  rw [linesUpTo, StateT.run_bind, run_eat, if_neg (by simp [h])]
  change ((if c.current.kind = .eof then return [] else _ : Reader (List Line))).run c = _
  rw [if_pos h]
  rfl

theorem run_linesUpTo_line {first : Line} {more : List Line} {last : Cursor}
    (ran : (Reader.line lines).run c = .ok (first, c')) (here : c.current.kind ≠ .newline)
    (here' : c.current.kind ≠ .eof)
    (ends : (c'.current.kind = .newline || c'.current.kind = .eof) = true)
    (later : (linesUpTo lines bound).run c' = .ok (more, last)) :
    (linesUpTo lines (bound + 1)).run c = .ok (first :: more, last) := by
  rw [linesUpTo, StateT.run_bind, run_eat, if_neg here]
  change ((if c.current.kind = .eof then return [] else _ : Reader (List Line))).run c = _
  rw [if_neg here', StateT.run_bind, ran]
  have atEnd : atLineEnd.run c' = .ok (true, c') := by
    change Except.ok (_, c') = _
    rw [ends]
  change (do
    unless ← atLineEnd do expected "end of line"
    return first :: (← linesUpTo lines bound) : Reader (List Line)).run c' = _
  rw [StateT.run_bind, atEnd]
  change (do return first :: (← linesUpTo lines bound) : Reader (List Line)).run c' = _
  rw [StateT.run_bind, later]
  rfl

end

/-- The script is read as a node with one formula. -/
theorem run_script_heading {lines : Lines} (first : lines.columnOf 0 = 0)
    (second : 0 < lines.columnOf 7) {l : Layout} {e : Expr} (writable : e.Writable)
    {ts : List Token} (spelled : ts.map Token.kind = e.item l) (stop : Span) :
    ∃ header formula e', (script lines).run' (.ofTokens (Token.heading ++ ts ++ [⟨.eof, stop⟩])) =
        .ok [header, formula] ∧
      header.declaration = .node "A" none ∧ formula.declaration = .formula "a" e' ∧
      e'.plain = e.plain := by
  let tokens := Token.heading ++ ts ++ [⟨.eof, stop⟩]
  let c := Cursor.ofTokens tokens
  have kinds : c.kinds = .const "A" :: .colon :: .newline :: .ident "a" :: .assign ::
      (e.item l ++ [.eof]) := by
    simp [c, tokens, Cursor.kinds, Cursor.ofTokens, Token.heading, spelled]
  -- the node
  have header : Reads (declaration (decide (0 < lines.columnOf c.current.span.start)))
      (.const "A" :: .colon :: .newline :: .ident "a" :: .assign :: (e.item l ++ [.eof]))
      (.newline :: .ident "a" :: .assign :: (e.item l ++ [.eof])) (· = .node "A" none) := by
    have column : decide (0 < lines.columnOf c.current.span.start) = false := by
      change decide (0 < lines.columnOf 0) = false
      simp [first]
    rw [column]
    exact reads_kind_bind (reads_nodeHeader rfl)
  obtain ⟨node, c₁, ran₁, suffix₁, kinds₁, isNode⟩ := run_line header kinds
  -- the formula, which starts with the fourth token
  have kinds₂ : c₁.advance.kinds = .ident "a" :: .assign :: (e.item l ++ [.eof]) :=
    Cursor.kinds_advance kinds₁ (by simp)
  have suffix₂ : c₁.advance.ahead <:+ tokens := c₁.advance_suffix.trans suffix₁
  have ahead : c₁.advance.ahead =
      ⟨.ident "a", 7, 8⟩ :: ⟨.assign, 9, 10⟩ :: (ts ++ [⟨.eof, stop⟩]) := by
    have split : tokens = Token.heading.take 3 ++
        ⟨.ident "a", 7, 8⟩ :: ⟨.assign, 9, 10⟩ :: (ts ++ [⟨.eof, stop⟩]) := by
      simp [tokens, Token.heading]
    rw [split] at suffix₂
    apply Cursor.ahead_eq_of_suffix suffix₂
    simpa [spelled] using kinds₂
  have member : Reads (declaration (decide (0 < lines.columnOf c₁.advance.current.span.start)))
      (.ident "a" :: .assign :: (e.item l ++ [.eof])) [.eof]
      fun d ↦ ∃ e' : Expr, e'.plain = e.plain ∧ d = .formula "a" e' := by
    have column : decide (0 < lines.columnOf c₁.advance.current.span.start) = true := by
      rw [Cursor.current, ahead]
      simpa using second
    rw [column]
    exact reads_kind_bind (reads_memberLine writable rfl)
  obtain ⟨formula, c₃, ran₃, suffix₃, kinds₃, e', same, isFormula⟩ := run_line member kinds₂
  refine ⟨node, formula, e', ?_, isNode, isFormula, same⟩
  have count : c.count = (ts.length + 2) + 1 + 1 + 1 + 1 := by
    simp [c, tokens, Cursor.ofTokens, Token.heading]
  have ran : (script lines).run c = .ok ([node, formula], c₃) := by
    change (linesUpTo lines c.count).run c = _
    rw [count]
    apply run_linesUpTo_line _ ran₁ (by simp [Cursor.kind_current kinds])
      (by simp [Cursor.kind_current kinds]) (by simp [Cursor.kind_current kinds₁])
    rw [run_linesUpTo_newline _ (Cursor.kind_current kinds₁)]
    apply run_linesUpTo_line _ ran₃ (by simp [Cursor.kind_current kinds₂])
      (by simp [Cursor.kind_current kinds₂]) (by simp [Cursor.kind_current kinds₃])
    exact run_linesUpTo_eof _ (Cursor.kind_current kinds₃)
  change Prod.fst <$> (script lines).run c = _
  rw [ran]
  rfl

end Reader

/-- A script with one formula, which is a shown value. -/
theorem parse_heading {e : Expr} {v : Value} (denotes : e.Denotes v) (module : String) :
    ∃ header formula e', parse ("A:\n    a = " ++ v.inspect) module = .ok [header, formula] ∧
      header.declaration = .node "A" none ∧ formula.declaration = .formula "a" e' ∧
      e'.plain = e.plain := by
  obtain ⟨ts, stop, lexed, spelled⟩ := Token.tokens_heading denotes.shows
  obtain ⟨first, second⟩ := Lines.columnOf_heading v.inspect
  obtain ⟨header, formula, e', ran, rest⟩ :=
    Reader.run_script_heading first (by omega) denotes.writable spelled ⟨stop, stop⟩
  refine ⟨header, formula, e', ?_, rest⟩
  simp only [parse, lexed]
  rw [ran]

/-! ### Compiling and evaluating the script -/

namespace ReadBack

variable {ρ : Type}

/-- The member that the formula is compiled to. -/
def member (line : Nat) (code : Code) : Member := ⟨"a", line, .formula code, []⟩

/-- The scope in which the node is open and has these members. -/
def inNode (classes : List ClassSignature) (visible : Dependencies) (members : List Member) :
    Scope :=
  { classes, current := some ⟨"A", none, visible, members⟩ }

/-- The formula is accepted after its node. -/
theorem run_ofLines {e e' : Expr} {v : Value} (denotes : e.Denotes v) (same : e'.plain = e.plain)
    (module : String) (classes : List ClassSignature) (load : String → Loading ρ Module) (r : ρ)
    (n₁ n₂ : Nat) (s₁ s₂ : Span) :
    ∃ code, (Scope.ofLines module classes load
        [⟨n₁, s₁, .node "A" none⟩, ⟨n₂, s₂, .formula "a" e'⟩]).run.run r =
          (.ok (inNode classes ((∅ : Dependencies).insert "a" []) [member n₂ code]), r) ∧
      ∀ {σ : Type} (s : Setting σ) (read : Read (Eval σ)) (cx : Context) (vars : List Value),
        run s read cx vars code = pure v := by
  let sc := inNode classes ∅ []
  obtain ⟨code, lowered, runs⟩ := denotes.runs sc []
  refine ⟨code, ?_, runs⟩
  have opened : (Scope.declareIn module load { classes } ⟨n₁, s₁, .node "A" none⟩).run.run r =
      (.ok sc, r) := rfl
  have made : Definition.member ⟨sc, n₂, "a", .formula e'⟩ = .ok (member n₂ code) := by
    have mentioned : sc.mentions [] e' = .ok [] := by
      rw [← (Scope.Concurs.refl _).mentions_plain, same, (Scope.Concurs.refl _).mentions_plain,
        denotes.closed]
    have compiled : sc.lower [] e' = .ok code := by
      rw [← Scope.lower_plain, same, Scope.lower_plain, lowered]
    simp only [Definition.member, Scope.references, Scope.mentionsOptional, mentioned, compiled]
    rfl
  have defined := Scope.run_declareIn_of_member ⟨sc, n₂, "a", .formula e'⟩ ⟨"A", none, ∅, []⟩
    (member n₂ code) (by rfl : Line.definition? ⟨n₂, s₂, .formula "a" e'⟩ sc = _) rfl made rfl
    (Dependencies.isCyclic_insert_nil ∅ "a") module load r
  rw [Scope.ofLines, run_foldlM_cons opened, run_foldlM_cons defined]
  rfl

/-- The compiled module. -/
def compiled (library : Library) (classes : List ClassSignature) (name : String)
    (whitelist : Option Whitelist) (line : Nat) (code : Code) : Module :=
  (inNode classes ((∅ : Dependencies).insert "a" []) [member line code]).toModule library name
    whitelist

section

variable (library : Library) (classes : List ClassSignature) (name : String)
  (whitelist : Option Whitelist) (line : Nat) (code : Code)

/-- Its one node. -/
def ref : NodeRef := ⟨library.nextId, 0, name, "A"⟩

theorem node?_compiled :
    (compiled library classes name whitelist line code).node? "A" = some (ref library name) := by
  have named : ((compiled library classes name whitelist line code).nodes.findIdx?
      fun n ↦ n.name == "A") = some 0 := by
    simp [compiled, Scope.toModule, Scope.drafts, inNode, name_toNode]
  rw [Module.node?, named]
  rfl

theorem slot?_compiled :
    (library.push (compiled library classes name whitelist line code)).slot?
        (ref library name) "a" =
      some ⟨0, library.nextId, name, member line code⟩ := by
  rw [Library.slot?, ref, Library.node?_push_nextId]
  have nodes : (compiled library classes name whitelist line code).nodes =
      #[(Node.define { name := "A" } library.nextId name (member line code))] := rfl
  rw [nodes]
  change (Node.define { name := "A" } library.nextId name (member line code)).table["a"]? = _
  rw [Node.getElem?_table_define]
  simp [member]

end

end ReadBack

/-- Shown data reads back. Whatever is known where a script is compiled, the script of a node `A`
with a formula `a` that is data as it is shown compiles, and then `a` is that data, whatever the
host, its state, the built-in methods and the environments so far. -/
theorem Registry.inspect_reads_back {v : Value} (data : v.Data)
    (load : String → Loading Registry Module) (name : String) (classes : List ClassSignature)
    (whitelist : Option Whitelist) (r : Registry) :
    ∃ m, (compile load name classes whitelist ("A:\n    a = " ++ v.inspect)).run.run r =
        (.ok m, r.pushModule m) ∧
      ∀ {σ : Type} (host : Host σ) (fallback : Whitelist) (methods : BuiltIns) (depth : Nat)
        (w : World σ),
        ((Engine.evaluate ⟨⟨(r.pushModule m).library, host, fallback, methods⟩, m, depth + 1⟩ "A"
          "a" []).run.run w).1 = .ok v := by
  obtain ⟨e, denotes⟩ := Expr.exists_denotes data
  obtain ⟨⟨n₁, s₁, d₁⟩, ⟨n₂, s₂, d₂⟩, e', parsed, rfl, rfl, same⟩ := parse_heading denotes name
  obtain ⟨code, accepted, runs⟩ :=
    ReadBack.run_ofLines denotes same name classes load r n₁ n₂ s₁ s₂
  let m := ReadBack.compiled r.library classes name whitelist n₂ code
  refine ⟨m, ?_, ?_⟩
  · have lines : (ExceptT.mk (pure (parse ("A:\n    a = " ++ v.inspect) name)) :
        Loading Registry (List Line)).run.run r =
          (parse ("A:\n    a = " ++ v.inspect) name, r) := rfl
    rw [compile, run_bind, lines, parsed]
    dsimp only
    rw [run_bind, accepted]
    rfl
  · intro σ host fallback methods depth w
    have found :
        Engine.node ⟨⟨(r.pushModule m).library, host, fallback, methods⟩, m, depth + 1⟩ "A" =
          .ok (ReadBack.ref r.library name) :=
      Engine.node_of_some (ReadBack.node?_compiled r.library classes name whitelist n₂ code)
    have slot := ReadBack.slot?_compiled r.library classes name whitelist n₂ code
    have made : (Eval.newEnv [] : Eval σ Nat).run.run w =
        (.ok w.envs.size, { w with envs := w.envs.push { params := [] } }) := rfl
    have forgotten (key : MemoKey) :
        ((w.envs.push { params := [] })[w.envs.size]?.bind fun e ↦ e.cached? key) = none := by
      simp [Env.cached?]
    rw [Engine.evaluate, found, Eval.ofExcept_ok, pure_bind, run_bind, made]
    dsimp only
    rw [Engine.read, readAttr_of_some slot, run_bind, Eval.run_cached?, forgotten]
    dsimp only
    rw [run_compute, ReadBack.member, runBody, runs]
    rfl

namespace ReadBack

/-- A map with a quoted key, a negative one and an empty list as the last. -/
def sample : Value :=
  .map [(.str "\"é\n", .int 9223372036854775807), (.int (-1), .list [.nil, .map []]),
    (.list [], .bool true)]

theorem data_sample : sample.Data := by
  have quoted : ∀ c ∈ "\"é\n".toList, Token.isPlainlyEscaped c := by
    intro c hc
    unfold Token.isPlainlyEscaped
    have chars : c = '"' ∨ c = 'é' ∨ c = '\n' := by simpa using hc
    rcases chars with rfl | rfl | rfl <;> decide +kernel
  have empty : (Value.map []).Data := .map [] (by simp) (by simp) .nil
  have list : (Value.list [.nil, .map []]).Data := .list _ (by simp [Value.Data.nil, empty])
  apply Value.Data.map
  · simp [Value.Data.str _ quoted, Value.Data.int (-1) (by decide), Value.Data.list [] (by simp)]
  · simp [Value.Data.int 9223372036854775807 (by decide), list, Value.Data.bool true]
  · simp [Value.beq_eq_equal, Value.equal]

/-- The sample is shown as `{"\"é\n": 9223372036854775807, -1: [nil, {}], []: true}`, and from
that text it comes back. -/
theorem sample_reads_back :
    sample.Data ∧ ∃ m, (Registry.compile Registry.noImports "M" [] none
        ("A:\n    a = " ++ sample.inspect)).run.run {} = (.ok m, Registry.pushModule {} m) ∧
      ((Engine.evaluate ⟨⟨(Registry.pushModule {} m).library,
          (⟨[], fun _ _ _ ↦ pure .nil⟩ : Host Unit), {}, Value.send⟩, m, 1⟩ "A" "a" []).run.run
        ⟨#[], (), none⟩).1 = .ok sample := by
  obtain ⟨m, compiled, evaluated⟩ :=
    Registry.inspect_reads_back data_sample Registry.noImports "M" [] none {}
  exact ⟨data_sample, m, compiled, evaluated ⟨[], fun _ _ _ ↦ pure .nil⟩ {} Value.send 0
    ⟨#[], (), none⟩⟩

end ReadBack

end Formulary
