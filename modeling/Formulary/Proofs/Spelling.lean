import Formulary.Proofs.Reading

/-!
# Spelling expressions

The tokens of an expression. The grammar leaves two choices open, which a `Layout` makes anew at
every place: whether a compound expression is put in parentheses where none are needed, and whether
a comma trails in a list. Operands of operators, and what attributes, selections and calls are taken
from, stand in parentheses whenever they are compound, so precedence never decides how an expression
is read.

`Expr.plain` forgets the spans of an expression.
-/

namespace Formulary

open Token (Kind)

/-! ### Kinds of tokens -/

/-- The token of a constant. -/
def Literal.kind : Literal → Kind
  | nil => .kwNil
  | bool true => .kwTrue
  | bool false => .kwFalse
  | int n => .int n
  | float x => .float x
  | str s => .str s

/-- The token of a unary operator. -/
def UnaryOp.kind : UnaryOp → Kind
  | neg => .minus
  | not => .bang

/-- The token of a binary operator. -/
def BinaryOp.kind : BinaryOp → Kind
  | mul => .star
  | div => .slash
  | mod => .percent
  | add => .plus
  | sub => .minus
  | lt => .lt
  | le => .le
  | gt => .gt
  | ge => .ge
  | eq => .eqEq
  | ne => .notEq
  | and => .andAnd
  | or => .orOr

/-- The tokens of a node path. -/
def NodePath.kinds : NodePath → List Kind
  | ⟨some module, name⟩ => [.const module, .doubleColon, .const name]
  | ⟨none, name⟩ => [.const name]

/-- The tokens of the variables of a comprehension. -/
def Binding.kinds : Binding → List Kind
  | single name => [.ident name]
  | pair first second => [.ident first, .comma, .ident second]

/-- The bracket before what a comprehension collects. -/
def Yield.opening {ε : Type} : Yield ε → Kind
  | .list _ => .lbracket
  | .set _ | .map _ _ => .lbrace

/-- The bracket that ends a comprehension. -/
def Yield.closing {ε : Type} : Yield ε → Kind
  | .list _ => .rbracket
  | .set _ | .map _ _ => .rbrace

namespace Token.Kind

/-- The tokens with which expressions start. -/
def isStart : Kind → Bool
  | int _ | float _ | str _ | ident _ | const _ | underscore | kwNil | kwTrue | kwFalse | kwIf
  | kwErr | lparen | lbracket | lbrace | minus | bang => true
  | _ => false

/-- The tokens that may stand after a whole expression. -/
def isEnd : Kind → Bool
  | rparen | rbracket | rbrace | comma | colon | kwThen | kwElse | kwFor | kwIf | newline | eof =>
    true
  | _ => false

/-- The tokens that continue an expression which is an operand of something. -/
def isSuffix : Kind → Bool
  | dot | lbracket | lparen | doubleColon => true
  | _ => false

end Token.Kind

@[simp] theorem UnaryOp.unaryOp?_kind (op : UnaryOp) : op.kind.unaryOp? = some op := by
  cases op <;> rfl

@[simp] theorem BinaryOp.binaryOp?_kind (op : BinaryOp) : op.kind.binaryOp? = some op := by
  cases op <;> rfl

theorem BinaryOp.isSuffix_kind (op : BinaryOp) : op.kind.isSuffix = false := by
  cases op <;> rfl

theorem Token.Kind.isEnd_of_isClose {k : Kind} (h : k.isClose = true) : k.isEnd = true := by
  cases k <;> first | rfl | cases h

theorem Token.Kind.isClose_of_isStart {k : Kind} (h : k.isStart = true) : k.isClose = false := by
  cases k <;> first | rfl | cases h

theorem Token.Kind.ne_of_isStart {k close : Kind} (start : k.isStart = true)
    (h : close.isClose = true) : k ≠ close := by
  rintro rfl
  rw [isClose_of_isStart start] at h
  cases h

theorem Token.Kind.isSuffix_of_isEnd {k : Kind} (h : k.isEnd = true) : k.isSuffix = false := by
  cases k <;> first | rfl | cases h

theorem Token.Kind.binaryOp?_of_isEnd {k : Kind} (h : k.isEnd = true) : k.binaryOp? = none := by
  cases k <;> first | rfl | cases h

/-! ### Expressions -/

/-- Expressions that are more than one name or constant. -/
def Expr.isCompound : Expr → Bool
  | literal _ _ | ident _ _ | params _ | path _ _ => false
  | _ => true

/-- How expressions are laid out where the grammar leaves a choice. -/
structure Layout where
  /-- Whether a compound expression is put in parentheses where none are needed. -/
  wraps : Expr → Bool
  /-- Whether a comma follows the last item of an expression's list. -/
  trails : Expr → Bool

/-- Tokens in parentheses, if there are to be any. -/
def parenthesise (wrapped : Bool) (kinds : List Kind) : List Kind :=
  if wrapped then .lparen :: kinds ++ [.rparen] else kinds

/-- Whether parentheses stand around an expression where none are needed. -/
def Layout.wrapped (l : Layout) (e : Expr) : Bool := e.isCompound && l.wraps e

namespace Expr

mutual

/-- The tokens of an expression, without parentheses around it. -/
def spell (l : Layout) : Expr → List Kind
  | .literal _ v => [v.kind]
  | .ident _ name => [.ident name]
  | .params _ => [.underscore]
  | .path _ p => p.kinds
  | .unary _ op a => op.kind :: parenthesise a.isCompound (spell l a)
  | .binary _ op a b =>
    parenthesise a.isCompound (spell l a) ++ op.kind :: parenthesise b.isCompound (spell l b)
  | .cond _ a b c =>
    .kwIf :: parenthesise (l.wrapped a) (spell l a) ++
      .kwThen :: parenthesise (l.wrapped b) (spell l b) ++
      .kwElse :: parenthesise (l.wrapped c) (spell l c)
  | .attr _ a name => parenthesise a.isCompound (spell l a) ++ [.dot, .ident name]
  | .index s a args =>
    parenthesise a.isCompound (spell l a) ++
      .lbracket :: separated (l.trails (.index s a args)) (spellAll l args) ++ [.rbracket]
  | .method s a name args =>
    parenthesise a.isCompound (spell l a) ++ .dot :: .ident name ::
      .lparen :: separated (l.trails (.method s a name args)) (spellAll l args) ++ [.rparen]
  | .call s a args =>
    parenthesise a.isCompound (spell l a) ++
      .lparen :: separated (l.trails (.call s a args)) (spellNamed l args) ++ [.rparen]
  | .raise s args =>
    .kwErr :: .lparen :: separated (l.trails (.raise s args)) (spellAll l args) ++ [.rparen]
  | .list s items =>
    .lbracket :: separated (l.trails (.list s items)) (spellAll l items) ++ [.rbracket]
  | .set s items =>
    .lbrace :: separated (l.trails (.set s items)) (spellAll l items) ++ [.rbrace]
  | .map s entries =>
    .lbrace :: separated (l.trails (.map s entries)) (spellEntries l entries) ++ [.rbrace]
  | .comprehension _ yield binding source filter =>
    yield.opening :: spellYield l yield ++ .kwFor :: binding.kinds ++
      .kwIn :: parenthesise (l.wrapped source) (spell l source) ++
      spellFilter l filter ++ [yield.closing]

/-- The items of a list, each with its own tokens. -/
def spellAll (l : Layout) : List Expr → List (List Kind)
  | [] => []
  | e :: es => parenthesise (l.wrapped e) (spell l e) :: spellAll l es

/-- The arguments of a node call. -/
def spellNamed (l : Layout) : List (Entry String Expr) → List (List Kind)
  | [] => []
  | .pair name e :: es =>
    (.ident name :: .assign :: parenthesise (l.wrapped e) (spell l e)) :: spellNamed l es
  | .spread e :: es =>
    (.doubleStar :: parenthesise (l.wrapped e) (spell l e)) :: spellNamed l es

/-- The entries of a map. -/
def spellEntries (l : Layout) : List (Entry Expr Expr) → List (List Kind)
  | [] => []
  | .pair k v :: es =>
    (parenthesise (l.wrapped k) (spell l k) ++
      .colon :: parenthesise (l.wrapped v) (spell l v)) :: spellEntries l es
  | .spread e :: es =>
    (.doubleStar :: parenthesise (l.wrapped e) (spell l e)) :: spellEntries l es

/-- What a comprehension collects. -/
def spellYield (l : Layout) : Yield Expr → List Kind
  | .list a | .set a => parenthesise (l.wrapped a) (spell l a)
  | .map k v =>
    parenthesise (l.wrapped k) (spell l k) ++ .colon :: parenthesise (l.wrapped v) (spell l v)

/-- The filter of a comprehension. -/
def spellFilter (l : Layout) : Option Expr → List Kind
  | none => []
  | some e => .kwIf :: parenthesise (l.wrapped e) (spell l e)

end

mutual

/-- The expression without its spans. -/
def plain : Expr → Expr
  | .literal _ v => .literal default v
  | .ident _ name => .ident default name
  | .params _ => .params default
  | .path _ p => .path default p
  | .unary _ op a => .unary default op a.plain
  | .binary _ op a b => .binary default op a.plain b.plain
  | .cond _ a b c => .cond default a.plain b.plain c.plain
  | .attr _ a name => .attr default a.plain name
  | .index _ a args => .index default a.plain (plainAll args)
  | .method _ a name args => .method default a.plain name (plainAll args)
  | .call _ a args => .call default a.plain (plainNamed args)
  | .raise _ args => .raise default (plainAll args)
  | .list _ items => .list default (plainAll items)
  | .set _ items => .set default (plainAll items)
  | .map _ entries => .map default (plainEntries entries)
  | .comprehension _ yield binding source filter =>
    .comprehension default (plainYield yield) binding source.plain (plainFilter filter)

/-- Several expressions without spans. -/
def plainAll : List Expr → List Expr
  | [] => []
  | e :: es => e.plain :: plainAll es

/-- The arguments of a node call without spans. -/
def plainNamed : List (Entry String Expr) → List (Entry String Expr)
  | [] => []
  | .pair name e :: es => .pair name e.plain :: plainNamed es
  | .spread e :: es => .spread e.plain :: plainNamed es

/-- The entries of a map without spans. -/
def plainEntries : List (Entry Expr Expr) → List (Entry Expr Expr)
  | [] => []
  | .pair k v :: es => .pair k.plain v.plain :: plainEntries es
  | .spread e :: es => .spread e.plain :: plainEntries es

/-- What a comprehension yields without spans. -/
def plainYield : Yield Expr → Yield Expr
  | .list a => .list a.plain
  | .set a => .set a.plain
  | .map k v => .map k.plain v.plain

/-- An optional expression without spans. -/
def plainFilter : Option Expr → Option Expr
  | none => none
  | some e => some e.plain

end

attribute [local simp] spell spellAll spellNamed spellEntries spellYield spellFilter
attribute [local simp] plain plainAll plainNamed plainEntries plainYield plainFilter

theorem plain_withSpan (s : Span) (e : Expr) : (e.withSpan s).plain = e.plain := by
  cases e <;> simp [withSpan]

/-- Only a path is a path without its span. -/
theorem eq_path_of_plain {e : Expr} {s : Span} {p : NodePath} (h : e.plain = .path s p) :
    ∃ s', e = .path s' p := by
  cases e <;> simp_all

theorem length_plainAll (es : List Expr) : (plainAll es).length = es.length := by
  induction es with
  | nil => rfl
  | cons e es ih => simp [ih]

/-! ### Parts of expressions -/

/-- The expressions of an argument. -/
def argumentParts : Entry String Expr → List Expr
  | .pair _ e | .spread e => [e]

/-- The expressions of an entry of a map. -/
def entryParts : Entry Expr Expr → List Expr
  | .pair k v => [k, v]
  | .spread e => [e]

/-- The expressions that a comprehension collects. -/
def yieldParts : Yield Expr → List Expr
  | .list a | .set a => [a]
  | .map k v => [k, v]

/-- The expressions that an expression is made of. -/
def parts : Expr → List Expr
  | literal _ _ | ident _ _ | params _ | path _ _ => []
  | unary _ _ a | attr _ a _ => [a]
  | binary _ _ a b => [a, b]
  | cond _ a b c => [a, b, c]
  | index _ a args | method _ a _ args => a :: args
  | call _ a args => a :: args.flatMap argumentParts
  | raise _ args | list _ args | set _ args => args
  | map _ entries => entries.flatMap entryParts
  | comprehension _ yield _ source filter => source :: yieldParts yield ++ filter.toList

/-- An expression stands somewhere in another one. -/
inductive Within (d : Expr) : Expr → Prop where
  | here : Within d d
  | part {e a : Expr} (h : a ∈ e.parts) (rest : Within d a) : Within d e

theorem sizeOf_lt_of_mem_parts {e a : Expr} (h : a ∈ e.parts) : sizeOf a < sizeOf e := by
  cases e with
  | literal | ident | params | path => cases h
  | unary _ _ b =>
    rw [List.mem_singleton.mp h]
    simp only [unary.sizeOf_spec]
    omega
  | attr _ b _ =>
    rw [List.mem_singleton.mp h]
    simp only [attr.sizeOf_spec]
    omega
  | binary _ _ b c =>
    simp only [binary.sizeOf_spec]
    rcases List.mem_pair.mp h with rfl | rfl <;> omega
  | cond _ b c d =>
    simp only [parts, List.mem_cons, List.not_mem_nil, or_false] at h
    simp only [cond.sizeOf_spec]
    rcases h with rfl | rfl | rfl <;> omega
  | index _ b args | method _ b _ args =>
    rcases List.mem_cons.mp h with rfl | h
    · simp
      omega
    · have := List.sizeOf_lt_of_mem h
      simp
      omega
  | raise _ es | list _ es | set _ es =>
    have := List.sizeOf_lt_of_mem h
    simp only [parts] at this
    simp
    omega
  | call _ b args =>
    rcases List.mem_cons.mp h with rfl | h
    · simp
      omega
    · obtain ⟨entry, he, hd⟩ := List.mem_flatMap.mp h
      have := List.sizeOf_lt_of_mem he
      cases entry <;> rw [List.mem_singleton.mp hd] <;> simp at this ⊢ <;> omega
  | map _ entries =>
    obtain ⟨entry, he, hd⟩ := List.mem_flatMap.mp h
    have := List.sizeOf_lt_of_mem he
    cases entry with
    | pair k v => rcases List.mem_pair.mp hd with rfl | rfl <;> simp at this ⊢ <;> omega
    | spread e =>
      rw [List.mem_singleton.mp hd]
      simp at this ⊢
      omega
  | comprehension _ yield binding source filter =>
    rcases List.mem_cons.mp h with rfl | h
    · simp
      omega
    · rcases List.mem_append.mp h with hd | hd
      · cases yield with
        | list e | set e =>
          rw [List.mem_singleton.mp hd]
          simp
          omega
        | map k v => rcases List.mem_pair.mp hd with rfl | rfl <;> simp <;> omega
      · cases filter with
        | none => cases hd
        | some e =>
          rw [Option.toList_some, List.mem_singleton] at hd
          rw [hd]
          simp
          omega

/-- What holds of an expression if it holds of its parts holds of all expressions. -/
theorem parts_induction {P : Expr → Prop} (step : ∀ e, (∀ a ∈ e.parts, P a) → P e) (e : Expr) :
    P e :=
  step e fun a _ ↦ parts_induction step a
termination_by sizeOf e
decreasing_by exact sizeOf_lt_of_mem_parts ‹_›

/-- Selections take something, and a set has an item: empty braces are the empty map. -/
def isFilled : Expr → Prop
  | index _ _ args => args ≠ []
  | set _ items => items ≠ []
  | _ => True

/-- Expressions that can be written: all selections and sets in them are filled. -/
def Writable (e : Expr) : Prop := ∀ d : Expr, d.Within e → d.isFilled

variable {e a : Expr}

theorem Writable.self (h : e.Writable) : e.isFilled := h e .here

theorem Writable.part (h : e.Writable) (ha : a ∈ e.parts) : a.Writable :=
  fun d hd ↦ h d (.part ha hd)

theorem writable_iff : e.Writable ↔ e.isFilled ∧ e.parts.Forall Writable := by
  rw [List.forall_iff_forall_mem]
  constructor
  · intro h
    exact ⟨h.self, fun a ha ↦ h.part ha⟩
  · rintro ⟨self, parts⟩ d hd
    cases hd with
    | here => exact self
    | part ha rest => exact parts _ ha d rest

/-! ### Items -/

/-- An expression as an item, with parentheses around it if the layout puts them there. -/
def item (l : Layout) (e : Expr) : List Kind := parenthesise (l.wrapped e) (e.spell l)

theorem item_eq (l : Layout) (e : Expr) : parenthesise (l.wrapped e) (e.spell l) = e.item l := rfl

/-- An entry of a map. -/
def entryItem (l : Layout) : Entry Expr Expr → List Kind
  | .pair k v => k.item l ++ .colon :: v.item l
  | .spread e => .doubleStar :: e.item l

theorem spellAll_eq_map (l : Layout) (es : List Expr) : spellAll l es = es.map (item l) := by
  induction es with
  | nil => rfl
  | cons e es ih => simp [ih, item]

theorem spellEntries_eq_map (l : Layout) (entries : List (Entry Expr Expr)) :
    spellEntries l entries = entries.map (entryItem l) := by
  induction entries with
  | nil => rfl
  | cons e es ih => cases e <;> simp [ih, entryItem, item]

/-! ### First tokens -/

theorem exists_start_parenthesise {kinds : List Kind} (wrapped : Bool)
    (h : ∃ k ks, kinds = k :: ks ∧ k.isStart = true) :
    ∃ k ks, parenthesise wrapped kinds = k :: ks ∧ k.isStart = true := by
  cases wrapped with
  | false => exact h
  | true => exact ⟨.lparen, kinds ++ [.rparen], rfl, rfl⟩

/-- An expression starts with a token that starts expressions. -/
theorem exists_start (l : Layout) : ∀ e : Expr, ∃ k ks, e.spell l = k :: ks ∧ k.isStart = true
  | .literal _ v => by cases v with
    | bool b => cases b <;> exact ⟨_, _, rfl, rfl⟩
    | _ => exact ⟨_, _, rfl, rfl⟩
  | .ident _ _ | .params _ => ⟨_, _, rfl, rfl⟩
  | .path _ ⟨module, name⟩ => by cases module <;> exact ⟨_, _, rfl, rfl⟩
  | .unary _ op _ => by cases op <;> exact ⟨_, _, rfl, rfl⟩
  | .cond _ _ _ _ | .raise _ _ | .list _ _ | .set _ _ | .map _ _ => ⟨_, _, rfl, rfl⟩
  | .comprehension _ yield _ _ _ => by cases yield <;> exact ⟨_, _, rfl, rfl⟩
  | .binary _ _ a _ | .attr _ a _ | .index _ a _ | .method _ a _ _ | .call _ a _ => by
    obtain ⟨k, ks, starts, first⟩ := exists_start_parenthesise a.isCompound (exists_start l a)
    exact ⟨k, _, by rw [spell, starts]; rfl, first⟩

theorem exists_start_item (l : Layout) (e : Expr) : ∃ k ks, e.item l = k :: ks ∧ k.isStart = true :=
  exists_start_parenthesise _ (exists_start l e)

end Expr

end Formulary
