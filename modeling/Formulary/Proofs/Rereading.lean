import Formulary.Proofs.Precedence

/-!
# Reading inverts spelling

The tokens that spell an expression are a phrase of the language, and it stands for that expression
(`Expr.grammatical_spell`). So they are read as that expression, apart from spans, and up to the
token after them.
-/

namespace Formulary

open Token (Kind)

namespace Expr

open Phrase (Primary Operand Conditional Expression Grammatical)

/-! ### Spelled phrases -/

variable (l : Layout)

/-- An expression as a phrase, as it is spelled. -/
def phrase (e : Expr) : Phrase := ⟨e.spell l, e.plain⟩

/-- An expression as a phrase that is an item of a list. -/
def itemPhrase (e : Expr) : Phrase := ⟨e.item l, e.plain⟩

/-- An expression as a phrase that something is taken from. -/
def operandPhrase (e : Expr) : Phrase := ⟨parenthesise e.isCompound (e.spell l), e.plain⟩

/-- An argument with a phrase in it. -/
def argumentPhrase : Entry String Expr → Entry String Phrase
  | .pair name e => .pair name (e.itemPhrase l)
  | .spread e => .spread (e.itemPhrase l)

/-- An entry with phrases in it. -/
def entryPhrase : Entry Expr Expr → Entry Phrase Phrase
  | .pair k v => .pair (k.itemPhrase l) (v.itemPhrase l)
  | .spread e => .spread (e.itemPhrase l)

/-- What a comprehension collects, with phrases in it. -/
def yieldPhrase : Yield Expr → Yield Phrase
  | .list a => .list (a.itemPhrase l)
  | .set a => .set (a.itemPhrase l)
  | .map k v => .map (k.itemPhrase l) (v.itemPhrase l)

theorem ofArgument_argumentPhrase (x : Entry String Expr) :
    Phrase.ofArgument (argumentPhrase l x) = (argumentParts x).map (itemPhrase l) := by
  cases x <;> rfl

theorem ofEntry_entryPhrase (x : Entry Expr Expr) :
    Phrase.ofEntry (entryPhrase l x) = (entryParts x).map (itemPhrase l) := by
  cases x <;> rfl

theorem ofYield_yieldPhrase (yield : Yield Expr) :
    Phrase.ofYield (yieldPhrase l yield) = (yieldParts yield).map (itemPhrase l) := by
  cases yield <;> rfl

theorem listed_items (trailing : Bool) (es : List Expr) :
    Phrase.listed trailing (es.map (itemPhrase l)) = separated trailing (spellAll l es) := by
  rw [Phrase.listed, List.map_map, spellAll_eq_map]
  rfl

theorem trees_items (es : List Expr) : (es.map (itemPhrase l)).map Phrase.tree = plainAll es := by
  induction es with
  | nil => rfl
  | cons e es ih => simp only [List.map_cons, plainAll, ih, itemPhrase]

theorem kinds_arguments (args : List (Entry String Expr)) :
    (args.map (argumentPhrase l)).map Phrase.argumentKinds = spellNamed l args := by
  induction args with
  | nil => rfl
  | cons x args ih => cases x <;> simp only [List.map_cons, spellNamed, ih] <;> rfl

theorem trees_arguments (args : List (Entry String Expr)) :
    (args.map (argumentPhrase l)).map Phrase.argumentTree = plainNamed args := by
  induction args with
  | nil => rfl
  | cons x args ih => cases x <;> simp only [List.map_cons, plainNamed, ih] <;> rfl

theorem kinds_entries (entries : List (Entry Expr Expr)) :
    (entries.map (entryPhrase l)).map Phrase.entryKinds = spellEntries l entries := by
  induction entries with
  | nil => rfl
  | cons x entries ih => cases x <;> simp only [List.map_cons, spellEntries, ih] <;> rfl

theorem trees_entries (entries : List (Entry Expr Expr)) :
    (entries.map (entryPhrase l)).map Phrase.entryTree = plainEntries entries := by
  induction entries with
  | nil => rfl
  | cons x entries ih => cases x <;> simp only [List.map_cons, plainEntries, ih] <;> rfl

theorem kinds_filter (f : Option Expr) :
    Phrase.filterKinds (f.map (itemPhrase l)) = spellFilter l f := by
  cases f with
  | none => rfl
  | some e => rw [spellFilter, item_eq]; rfl

theorem tree_filter (f : Option Expr) : (f.map (itemPhrase l)).map Phrase.tree = plainFilter f := by
  cases f with
  | none => rfl
  | some e => rw [plainFilter]; rfl

theorem kinds_yield (yield : Yield Expr) :
    Phrase.yieldKinds (yieldPhrase l yield) = spellYield l yield := by
  cases yield <;> simp only [spellYield, item_eq] <;> rfl

theorem tree_yield (yield : Yield Expr) :
    Phrase.yieldTree (yieldPhrase l yield) = plainYield yield := by
  cases yield <;> simp only [plainYield] <;> rfl

theorem brackets_yield (yield : Yield Expr) :
    (yieldPhrase l yield).opening = yield.opening ∧
      (yieldPhrase l yield).closing = yield.closing := by
  cases yield <;> exact ⟨rfl, rfl⟩

section

variable {l} {e : Expr}

/-- What something is taken from is a name, a constant or in parentheses. -/
theorem primary_operandPhrase (h : (e.phrase l).Grammatical) :
    Primary Grammatical (e.operandPhrase l) := by
  by_cases compound : e.isCompound = true
  · rw [operandPhrase, compound]
    exact .paren h
  · cases e with
    | literal s v => exact .literal v
    | ident s name => exact .ident name
    | params s => exact .params
    | path s p => exact .path p
    | _ => exact absurd rfl compound

theorem grammatical_item (h : (e.phrase l).Grammatical) : (e.itemPhrase l).Grammatical := by
  rw [itemPhrase, item]
  cases l.wrapped e with
  | false => exact h
  | true => exact (Operand.suffixed (.primary (.paren h))).grammatical

end

/-- The tokens of an expression are a phrase that stands for it. -/
theorem grammatical_spell (e : Expr) (writable : e.Writable) : (e.phrase l).Grammatical := by
  induction e using parts_induction with
  | step e ih =>
  have item {a : Expr} (ha : a ∈ e.parts) : (a.itemPhrase l).Grammatical :=
    grammatical_item (ih a ha (writable.part ha))
  have operand {a : Expr} (ha : a ∈ e.parts) :
      Phrase.Suffixed Grammatical true (a.operandPhrase l) :=
    .primary (primary_operandPhrase (ih a ha (writable.part ha)))
  have items {es : List Expr} (inside : ∀ a ∈ es, a ∈ e.parts) :
      ∀ p ∈ es.map (itemPhrase l), p.Grammatical :=
    List.forall_mem_map.mpr fun a ha ↦ item (inside a ha)
  cases e with
  | literal s v => exact (Primary.literal v).grammatical
  | ident s name => exact (Primary.ident name).grammatical
  | params s => exact Primary.params.grammatical
  | path s p => exact (Primary.path p).grammatical
  | unary s op a =>
    exact (Operand.unary op (.suffixed (operand (by simp [parts])))).grammatical
  | binary s op a b =>
    have left : Operand Grammatical (a.operandPhrase l) := .suffixed (operand (by simp [parts]))
    have right : Operand Grammatical (b.operandPhrase l) := .suffixed (operand (by simp [parts]))
    have chain := Expression.chain (.more op left (.last (.inl right)))
    simp only [Phrase.joined, Phrase.continued, List.flatMap_cons, List.flatMap_nil,
      List.append_nil, Phrase.operandTrees, List.map_cons, List.map_nil,
      byPrecedence_singleton] at chain
    exact Phrase.grammatical_iff.mpr chain
  | cond s a b c =>
    have cond := Conditional.cond (item (a := a) (by simp [parts]))
      (item (a := b) (by simp [parts])) (item (a := c) (by simp [parts]))
    rw [Phrase.grammatical_iff, phrase, plain, spell]
    simp only [List.append_assoc, List.cons_append]
    exact .single (.inr cond)
  | attr s a name => exact ((operand (by simp [parts])).attr name).grammatical
  | index s a args =>
    have filled : args ≠ [] := writable.self
    have index := (operand (a := a) (by simp [parts])).index (l.trails (.index s a args))
      (by simpa using filled) (items fun e he ↦ List.mem_cons_of_mem a he)
    rw [listed_items, trees_items] at index
    exact index.grammatical
  | method s a name args =>
    have method := (operand (a := a) (by simp [parts])).method name
      (l.trails (.method s a name args)) (items fun e he ↦ List.mem_cons_of_mem a he)
    rw [listed_items, trees_items] at method
    exact method.grammatical
  | call s a args =>
    have each : ∀ x ∈ args.map (argumentPhrase l), ∀ p ∈ Phrase.ofArgument x, p.Grammatical := by
      refine List.forall_mem_map.mpr fun x hx ↦ ?_
      rw [ofArgument_argumentPhrase]
      exact items fun b hb ↦ List.mem_cons_of_mem a (List.mem_flatMap.mpr ⟨x, hx, hb⟩)
    have call := (operand (a := a) (by simp [parts])).call (l.trails (.call s a args)) each
    rw [kinds_arguments, trees_arguments] at call
    exact call.grammatical
  | raise s args =>
    have raise := Primary.raise (l.trails (.raise s args)) (items fun _ ↦ id)
    rw [listed_items, trees_items] at raise
    exact raise.grammatical
  | list s es =>
    have list := Primary.list (l.trails (.list s es)) (items fun _ ↦ id)
    rw [listed_items, trees_items] at list
    exact list.grammatical
  | set s es =>
    have filled : es ≠ [] := writable.self
    have set := Primary.set (l.trails (.set s es)) (by simpa using filled)
      (items fun a (ha : a ∈ es) ↦ ha)
    rw [listed_items, trees_items] at set
    exact set.grammatical
  | map s entries =>
    have each : ∀ x ∈ entries.map (entryPhrase l), ∀ p ∈ Phrase.ofEntry x, p.Grammatical := by
      refine List.forall_mem_map.mpr fun x hx ↦ ?_
      rw [ofEntry_entryPhrase]
      exact items fun b hb ↦ List.mem_flatMap.mpr ⟨x, hx, hb⟩
    have map := Primary.map (l.trails (.map s entries)) each
    rw [kinds_entries, trees_entries] at map
    exact map.grammatical
  | comprehension s yield b source f =>
    have yielded : ∀ p ∈ Phrase.ofYield (yieldPhrase l yield), p.Grammatical := by
      rw [ofYield_yieldPhrase]
      exact items fun a ha ↦ by simp [parts, ha]
    have filtered : ∀ p ∈ f.map (itemPhrase l), p.Grammatical := by
      rintro p hp
      obtain ⟨a, rfl, rfl⟩ := Option.map_eq_some_iff.mp hp
      exact item (by simp [parts])
    have comprehension := Primary.comprehension b yielded (item (a := source) (by simp [parts]))
      filtered
    rw [kinds_yield, tree_yield, kinds_filter, tree_filter, (brackets_yield l yield).1,
      (brackets_yield l yield).2] at comprehension
    rw [phrase, plain, spell]
    simp only [List.append_assoc, List.cons_append]
    exact comprehension.grammatical

end Expr

namespace Reader

/-- The tokens of an expression are read as that expression. -/
theorem reads_expression (l : Layout) (k : Kind) (rest : List Kind) {e : Expr}
    (writable : e.Writable) (ends : k.isEnd = true) :
    Reads expression (e.item l ++ k :: rest) (k :: rest) (·.plain = e.plain) :=
  reads_grammatical (Expr.grammatical_item (e.grammatical_spell l writable)) k rest ends

/-- Reading inverts spelling. However an expression is laid out, and whatever stands behind the end
of its line, its tokens are taken, no token more and none less, and they are read as the same
expression apart from spans. -/
theorem expression_of_spelling (l : Layout) (e : Expr) (writable : e.Writable)
    (tokens : List Token) (spelled : tokens.map Token.kind = e.item l) (last : Token)
    (ends : last.kind = .newline ∨ last.kind = .eof) (rest : List Token) (c : Cursor)
    (ahead : c.ahead = tokens ++ last :: rest) :
    ∃ e' c', expression.run c = .ok (e', c') ∧ c'.ahead = last :: rest ∧ e'.plain = e.plain := by
  have input : c.kinds = e.item l ++ last.kind :: rest.map Token.kind := by
    rw [Cursor.kinds, ahead, List.map_append, spelled, List.map_cons]
  have isEnd : last.kind.isEnd = true := by
    rcases ends with h | h <;> rw [h] <;> rfl
  obtain ⟨e', c', ran, suffix, left, same⟩ := reads_expression l _ _ writable isEnd c input
  rw [ahead] at suffix
  exact ⟨e', c', ran, Cursor.ahead_eq_of_suffix suffix left, same⟩

end Reader

/-! ### A map laid out with all parentheses and commas -/

namespace Dressed

/-- The entries `x.f(1): [y for y, z in _ if !y]` and `**M::A(n = -2)`. -/
def entries : List (Entry Expr Expr) :=
  [.pair (.method default (.ident default "x") "f" [.literal default (.int 1)])
    (.comprehension default (.list (.ident default "y")) (.pair "y" "z") (.params default)
      (some (.unary default .not (.ident default "y")))),
  .spread (.call default (.path default ⟨some "M", "A"⟩)
    [.pair "n" (.unary default .neg (.literal default (.int 2)))])]

/-- Parentheses and trailing commas wherever they may stand. -/
def layout : Layout := ⟨fun _ ↦ true, fun _ ↦ true⟩

def kinds : List Kind :=
  [.lparen, .lbrace, .lparen, .ident "x", .dot, .ident "f", .lparen, .int 1, .comma, .rparen,
    .rparen, .colon, .lparen, .lbracket, .ident "y", .kwFor, .ident "y", .comma, .ident "z", .kwIn,
    .underscore, .kwIf, .lparen, .bang, .ident "y", .rparen, .rbracket, .rparen, .comma,
    .doubleStar, .lparen, .const "M", .doubleColon, .const "A", .lparen, .ident "n", .assign,
    .lparen, .minus, .int 2, .rparen, .comma, .rparen, .rparen, .comma, .rbrace, .rparen]

theorem writable : (Expr.map default entries).Writable := by
  simp [entries, Expr.writable_iff, Expr.parts, Expr.isFilled, Expr.entryParts, Expr.yieldParts,
    Expr.argumentParts]

/-- The map is read from these tokens, before the line ends and another one follows. -/
theorem read_from_kinds :
    kinds.length = 47 ∧ ∃ e' c',
      Reader.expression.run (.ofTokens (kinds.map (⟨·, default⟩) ++
          [⟨.newline, default⟩, ⟨.ident "next", default⟩])) = .ok (e', c') ∧
        c'.ahead = [⟨.newline, default⟩, ⟨.ident "next", default⟩] ∧
        e'.plain = (Expr.map default entries).plain :=
  ⟨rfl, Reader.expression_of_spelling layout (.map default entries) writable
    (kinds.map (⟨·, default⟩)) rfl ⟨.newline, default⟩ (.inl rfl) [⟨.ident "next", default⟩] _ rfl⟩

end Dressed

end Formulary
