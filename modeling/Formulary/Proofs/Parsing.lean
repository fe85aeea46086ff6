import Formulary.Proofs.Grammar

/-!
# Reading operands

The tokens of an operand are read as the expression that the operand stands for, up to the token
after them. Each form is read by a function of the reader for inner expressions, and
`Reader.ReadsPhrases` says of such a reader that it reads all phrases that may stand in brackets.
There is one lemma for each form of expression.
-/

namespace Formulary

open Token (Kind)

namespace Phrase

/-- Arguments that are those of a phrase apart from spans. -/
def SameArgument (x : Entry String Phrase) (y : Entry String Expr) : Prop :=
  Expr.plainNamed [y] = [argumentTree x]

/-- Entries that are those of a phrase apart from spans. -/
def SameEntry (x : Entry Phrase Phrase) (y : Entry Expr Expr) : Prop :=
  Expr.plainEntries [y] = [entryTree x]

theorem plainAll_eq_of_forall₂ {phrases : List Phrase} {es : List Expr}
    (h : List.Forall₂ (fun p e ↦ e.plain = p.tree) phrases es) :
    Expr.plainAll es = phrases.map tree := by
  induction h with
  | nil => rfl
  | cons same _ ih => rw [Expr.plainAll, List.map_cons, same, ih]

theorem plainNamed_eq_of_forall₂ {args : List (Entry String Phrase)}
    {args' : List (Entry String Expr)} (h : List.Forall₂ SameArgument args args') :
    Expr.plainNamed args' = args.map argumentTree := by
  induction h with
  | nil => rfl
  | @cons x y _ _ same _ ih =>
    cases y <;> simp_all [SameArgument, Expr.plainNamed]

theorem plainEntries_eq_of_forall₂ {entries : List (Entry Phrase Phrase)}
    {entries' : List (Entry Expr Expr)} (h : List.Forall₂ SameEntry entries entries') :
    Expr.plainEntries entries' = entries.map entryTree := by
  induction h with
  | nil => rfl
  | @cons x y _ _ same _ ih =>
    cases y <;> simp_all [SameEntry, Expr.plainEntries]

end Phrase

namespace Reader

variable {expr : Reader Expr} {inner : Phrase → Prop} {p : Phrase} {k : Kind} {rest : List Kind}

/-- The reader reads these phrases wherever an expression may end, and they start as expressions
do. -/
structure ReadsPhrases (expr : Reader Expr) (inner : Phrase → Prop) : Prop where
  reads : ∀ p, inner p → ∀ (k : Kind) (rest : List Kind), k.isEnd = true →
    Reads expr (p.kinds ++ k :: rest) (k :: rest) (·.plain = p.tree)
  starts : ∀ p, inner p → ∃ k ks, p.kinds = k :: ks ∧ k.isStart = true

/-! ### Items -/

theorem ReadsPhrases.items (h : ReadsPhrases expr inner) {close : Kind}
    (closing : close.isClose = true) {phrases : List Phrase} (hp : ∀ p ∈ phrases, inner p) :
    ReadsEach expr close phrases Phrase.kinds fun p e ↦ e.plain = p.tree := by
  constructor
  · intro p mem k rest hk
    have ends : k.isEnd = true := by
      rcases hk with rfl | rfl
      · rfl
      · exact Kind.isEnd_of_isClose closing
    exact h.reads p (hp p mem) k rest ends
  · intro p mem
    obtain ⟨k, ks, starts, first⟩ := h.starts p (hp p mem)
    exact ⟨k, ks, starts, Kind.ne_of_isStart first closing⟩

theorem reads_argument (h : ReadsPhrases expr inner) (x : Entry String Phrase)
    (hx : ∀ p ∈ Phrase.ofArgument x, inner p) (ends : k.isEnd = true) :
    Reads (argument expr) (Phrase.argumentKinds x ++ k :: rest) (k :: rest)
      (Phrase.SameArgument x) := by
  cases x with
  | pair name p =>
    unfold argument
    apply reads_skip_ite (by simp)
    apply reads_kind_bind
    apply reads_get_bind
    intro c hc
    rw [if_pos (Cursor.kind_next hc)]
    apply reads_advance_bind (by simp)
    apply reads_advance_bind (by simp)
    apply (h.reads p (hx p List.mem_cons_self) k rest ends).bind
    intro e same
    apply reads_pure
    simp only [Phrase.SameArgument, Expr.plainNamed, Phrase.argumentTree, same]
  | spread p =>
    unfold argument
    apply reads_eat_ite (by simp)
    apply (h.reads p (hx p List.mem_cons_self) k rest ends).bind
    intro e same
    apply reads_pure
    simp only [Phrase.SameArgument, Expr.plainNamed, Phrase.argumentTree, same]

theorem reads_mapEntry (h : ReadsPhrases expr inner) (x : Entry Phrase Phrase)
    (hx : ∀ p ∈ Phrase.ofEntry x, inner p) (ends : k.isEnd = true) :
    Reads (mapEntry expr) (Phrase.entryKinds x ++ k :: rest) (k :: rest) (Phrase.SameEntry x) := by
  cases x with
  | pair key value =>
    have readsKey := h.reads key (hx key (by simp [Phrase.ofEntry])) .colon
      (value.kinds ++ k :: rest) rfl
    obtain ⟨first, ks, starts, start⟩ := h.starts key (hx key (by simp [Phrase.ofEntry]))
    unfold mapEntry
    rw [Phrase.entryKinds, List.append_assoc, List.cons_append]
    rw [starts] at readsKey ⊢
    apply reads_skip_ite (by rintro rfl; cases start)
    apply readsKey.bind
    intro key' sameKey
    apply reads_require_bind (by simp)
    apply (h.reads value (hx value (by simp [Phrase.ofEntry])) k rest ends).bind
    intro value' sameValue
    apply reads_pure
    simp only [Phrase.SameEntry, Expr.plainEntries, Phrase.entryTree, sameKey, sameValue]
  | spread p =>
    unfold mapEntry
    apply reads_eat_ite (by simp)
    apply (h.reads p (hx p List.mem_cons_self) k rest ends).bind
    intro e same
    apply reads_pure
    simp only [Phrase.SameEntry, Expr.plainEntries, Phrase.entryTree, same]

theorem ReadsPhrases.arguments (h : ReadsPhrases expr inner) {args : List (Entry String Phrase)}
    (ha : ∀ x ∈ args, ∀ p ∈ Phrase.ofArgument x, inner p) :
    ReadsEach (argument expr) .rparen args Phrase.argumentKinds Phrase.SameArgument := by
  constructor
  · intro x hx k rest hk
    apply reads_argument h x (ha x hx)
    rcases hk with rfl | rfl <;> rfl
  · intro x _
    cases x with
    | pair name p => exact ⟨.ident name, _, rfl, by simp⟩
    | spread p => exact ⟨.doubleStar, _, rfl, by simp⟩

theorem ReadsPhrases.entries (h : ReadsPhrases expr inner) {entries : List (Entry Phrase Phrase)}
    (he : ∀ x ∈ entries, ∀ p ∈ Phrase.ofEntry x, inner p) :
    ReadsEach (mapEntry expr) .rbrace entries Phrase.entryKinds Phrase.SameEntry := by
  constructor
  · intro x hx k rest hk
    apply reads_mapEntry h x (he x hx)
    rcases hk with rfl | rfl <;> rfl
  · intro x hx
    cases x with
    | pair key value =>
      obtain ⟨k, ks, starts, first⟩ := h.starts key (he _ hx key (by simp [Phrase.ofEntry]))
      exact ⟨k, _, by rw [Phrase.entryKinds, starts]; rfl, Kind.ne_of_isStart first rfl⟩
    | spread p => exact ⟨.doubleStar, _, rfl, by simp⟩

/-! ### Names, constants and parentheses -/

theorem reads_leaf {form : Span → Expr} {P : Expr → Prop} (more : k ≠ .eof)
    (h : ∀ s, P (form s)) : Reads (leaf form) (k :: rest) rest P := by
  unfold leaf
  apply reads_span_bind
  intro s
  apply reads_advance_bind more
  exact reads_pure (h s)

theorem reads_nodePath (p : NodePath) (other : k ≠ .doubleColon) :
    Reads nodePath (p.kinds ++ k :: rest) (k :: rest) (· = p) := by
  unfold nodePath
  obtain ⟨module, name⟩ := p
  cases module with
  | none =>
    apply reads_const_bind
    apply reads_skip_ite other
    exact reads_pure rfl
  | some module =>
    apply reads_const_bind
    apply reads_eat_ite (by simp)
    apply reads_const_bind
    exact reads_pure rfl

theorem reads_pathExpr (p : NodePath) (other : k ≠ .doubleColon) :
    Reads pathExpr (p.kinds ++ k :: rest) (k :: rest) (·.plain = .path default p) := by
  unfold pathExpr
  apply reads_span_bind
  intro s
  apply (reads_nodePath p other).bind
  rintro _ rfl
  apply reads_spanFrom_bind
  intro s
  apply reads_pure
  rw [Expr.plain]

theorem reads_parenthesised (h : ReadsPhrases expr inner) (hp : inner p) :
    Reads (parenthesised expr) (.lparen :: (p.kinds ++ .rparen :: rest)) rest
      (·.plain = p.tree) := by
  unfold parenthesised
  apply reads_span_bind
  intro s
  apply reads_advance_bind (by simp)
  apply (h.reads p hp .rparen rest rfl).bind
  intro e same
  apply reads_require_bind (by simp)
  apply reads_spanFrom_bind
  intro s
  apply reads_pure
  rw [Expr.plain_withSpan, same]

/-! ### Conditions, failures, lists, sets and maps -/

theorem reads_conditional (h : ReadsPhrases expr inner) {a b c : Phrase} (ha : inner a)
    (hb : inner b) (hc : inner c) (ends : k.isEnd = true) :
    Reads (conditional expr)
      (.kwIf :: (a.kinds ++ .kwThen :: (b.kinds ++ .kwElse :: (c.kinds ++ k :: rest)))) (k :: rest)
      (·.plain = .cond default a.tree b.tree c.tree) := by
  unfold conditional
  apply reads_span_bind
  intro start
  apply reads_advance_bind (by simp)
  apply (h.reads a ha .kwThen _ rfl).bind
  intro a' sameA
  apply reads_require_bind (by simp)
  apply (h.reads b hb .kwElse _ rfl).bind
  intro b' sameB
  apply reads_require_bind (by simp)
  apply (h.reads c hc k rest ends).bind
  intro c' sameC
  apply reads_pure
  simp only [Expr.plain, sameA, sameB, sameC]

theorem reads_raised (h : ReadsPhrases expr inner) (trailing : Bool) {args : List Phrase}
    (ha : ∀ p ∈ args, inner p) :
    Reads (raised expr) (.kwErr :: .lparen :: (Phrase.listed trailing args ++ .rparen :: rest)) rest
      (·.plain = .raise default (args.map Phrase.tree)) := by
  have closing : Kind.rparen.isClose = true := rfl
  unfold raised
  apply reads_span_bind
  intro start
  apply reads_advance_bind (by simp)
  apply reads_require_bind (by simp)
  apply (reads_items closing trailing (h.items closing ha) rest).bind
  intro args' same
  apply reads_spanFrom_bind
  intro s
  apply reads_pure
  simp only [Expr.plain, Phrase.plainAll_eq_of_forall₂ same]

/-- After the first item of a list comes a comma or the closing bracket. -/
theorem exists_follow (trailing : Bool) (pieces : List (List Kind)) (close : Kind)
    (rest : List Kind) :
    ∃ k ks, following trailing pieces ++ close :: rest = k :: ks ∧ (k = .comma ∨ k = close) := by
  rcases following_cases trailing pieces with ⟨none, -⟩ | more
  · exact ⟨close, rest, by rw [none]; rfl, .inr rfl⟩
  · exact ⟨.comma, _, by rw [more]; rfl, .inl rfl⟩

/-- What is read after a bracket that an expression follows. -/
def bracketedFrom (expr : Reader Expr) (start : Span) : Reader Expr := do
  let first ← expr
  if (← kind) = .kwFor then comprehension expr start (.list first) .rbracket
  else
    let rest ← moreItems expr .rbracket
    return .list (← spanFrom start) (first :: rest)

theorem reads_bracketed_start {ks : List Kind} {Q : Expr → Prop} (start : k.isStart = true)
    (h : ∀ s, Reads (bracketedFrom expr s) (k :: ks) rest Q) :
    Reads (bracketed expr) (.lbracket :: k :: ks) rest Q := by
  unfold bracketed
  apply reads_span_bind
  intro s
  apply reads_advance_bind (by simp)
  apply reads_skip_ite (Kind.ne_of_isStart start rfl)
  exact h s

/-- What is read after a brace that an expression follows. -/
def bracedFrom (expr : Reader Expr) (start : Span) : Reader Expr := do
  let first ← expr
  if ← eat .colon then
    let value ← expr
    if (← kind) = .kwFor then comprehension expr start (.map first value) .rbrace
    else
      let rest ← moreItems (mapEntry expr) .rbrace
      return .map (← spanFrom start) (.pair first value :: rest)
  else if (← kind) = .kwFor then comprehension expr start (.set first) .rbrace
  else
    let rest ← moreItems expr .rbrace
    return .set (← spanFrom start) (first :: rest)

theorem reads_braced_start {ks : List Kind} {Q : Expr → Prop} (start : k.isStart = true)
    (h : ∀ s, Reads (bracedFrom expr s) (k :: ks) rest Q) :
    Reads (braced expr) (.lbrace :: k :: ks) rest Q := by
  unfold braced
  apply reads_span_bind
  intro s
  apply reads_advance_bind (by simp)
  apply reads_skip_ite (Kind.ne_of_isStart start rfl)
  apply reads_kind_bind
  rw [if_neg (by rintro rfl; cases start)]
  exact h s

theorem reads_bracketed (h : ReadsPhrases expr inner) (trailing : Bool) {items : List Phrase}
    (hi : ∀ p ∈ items, inner p) :
    Reads (bracketed expr) (.lbracket :: (Phrase.listed trailing items ++ .rbracket :: rest)) rest
      (·.plain = .list default (items.map Phrase.tree)) := by
  cases items with
  | nil =>
    unfold bracketed
    apply reads_span_bind
    intro start
    apply reads_advance_bind (by simp)
    apply reads_eat_ite (by simp)
    apply reads_spanFrom_bind
    intro s
    exact reads_pure rfl
  | cons first items =>
    have each := h.items (rfl : Kind.rbracket.isClose = true) hi
    obtain ⟨k, ks, starts, start⟩ := h.starts first (hi first List.mem_cons_self)
    have readsFirst := each.head trailing (items.map Phrase.kinds) rest
    simp only [Phrase.listed, List.map_cons, separated, List.append_assoc]
    rw [starts] at readsFirst ⊢
    apply reads_bracketed_start start
    intro s
    apply readsFirst.bind
    intro first' sameFirst
    obtain ⟨k', ks', follows, follow⟩ :=
      exists_follow trailing (items.map Phrase.kinds) .rbracket rest
    rw [follows]
    apply reads_kind_bind
    rw [if_neg (by rcases follow with rfl | rfl <;> simp), ← follows]
    apply (reads_moreItems rfl trailing each.tail rest).bind
    intro items' same
    apply reads_spanFrom_bind
    intro s
    apply reads_pure
    simp only [Expr.plain, Expr.plainAll, sameFirst, Phrase.plainAll_eq_of_forall₂ same]

theorem reads_set (h : ReadsPhrases expr inner) (trailing : Bool) {items : List Phrase}
    (filled : items ≠ []) (hi : ∀ p ∈ items, inner p) :
    Reads (braced expr) (.lbrace :: (Phrase.listed trailing items ++ .rbrace :: rest)) rest
      (·.plain = .set default (items.map Phrase.tree)) := by
  have each := h.items (rfl : Kind.rbrace.isClose = true) hi
  obtain ⟨first, items, rfl⟩ := List.exists_cons_of_ne_nil filled
  obtain ⟨k, ks, starts, start⟩ := h.starts first (hi first List.mem_cons_self)
  have readsFirst := each.head trailing (items.map Phrase.kinds) rest
  obtain ⟨k', ks', follows, follow⟩ :=
    exists_follow trailing (items.map Phrase.kinds) .rbrace rest
  simp only [Phrase.listed, List.map_cons, separated, List.append_assoc]
  rw [starts] at readsFirst ⊢
  apply reads_braced_start start
  intro s
  apply readsFirst.bind
  intro first' sameFirst
  rw [follows]
  apply reads_skip_ite (by rcases follow with rfl | rfl <;> simp)
  apply reads_kind_bind
  rw [if_neg (by rcases follow with rfl | rfl <;> simp), ← follows]
  apply (reads_moreItems rfl trailing each.tail rest).bind
  intro items' same
  apply reads_spanFrom_bind
  intro s
  apply reads_pure
  simp only [Expr.plain, Expr.plainAll, sameFirst, Phrase.plainAll_eq_of_forall₂ same]

theorem reads_map (h : ReadsPhrases expr inner) (trailing : Bool)
    {entries : List (Entry Phrase Phrase)} (he : ∀ x ∈ entries, ∀ p ∈ Phrase.ofEntry x, inner p) :
    Reads (braced expr)
      (.lbrace :: (separated trailing (entries.map Phrase.entryKinds) ++ .rbrace :: rest)) rest
      (·.plain = .map default (entries.map Phrase.entryTree)) := by
  have each := h.entries he
  cases entries with
  | nil =>
    unfold braced
    apply reads_span_bind
    intro start
    apply reads_advance_bind (by simp)
    apply reads_eat_ite (by simp)
    apply reads_spanFrom_bind
    intro s
    exact reads_pure rfl
  | cons first entries =>
    cases first with
    | spread p =>
      -- the first token tells that this is a map
      unfold braced
      apply reads_span_bind
      intro start
      apply reads_advance_bind (by simp)
      apply reads_skip_ite (by simp)
      apply reads_kind_bind
      rw [if_pos rfl]
      apply (reads_items rfl trailing each rest).bind
      intro entries' same
      apply reads_spanFrom_bind
      intro s
      apply reads_pure
      simp only [Expr.plain, Phrase.plainEntries_eq_of_forall₂ same]
    | pair key value =>
      have hk : inner key := he _ List.mem_cons_self key (by simp [Phrase.ofEntry])
      have hv : inner value := he _ List.mem_cons_self value (by simp [Phrase.ofEntry])
      obtain ⟨k, ks, starts, start⟩ := h.starts key hk
      obtain ⟨k', ks', follows, follow⟩ :=
        exists_follow trailing (entries.map Phrase.entryKinds) .rbrace rest
      have ends : k'.isEnd = true := by rcases follow with rfl | rfl <;> rfl
      simp only [List.map_cons, separated, Phrase.entryKinds, List.append_assoc, List.cons_append]
      rw [follows]
      have readsKey := h.reads key hk .colon (value.kinds ++ k' :: ks') rfl
      rw [starts] at readsKey ⊢
      apply reads_braced_start start
      intro s
      apply readsKey.bind
      intro key' sameKey
      apply reads_eat_ite (by simp)
      apply (h.reads value hv k' ks' ends).bind
      intro value' sameValue
      apply reads_kind_bind
      rw [if_neg (by rcases follow with rfl | rfl <;> simp), ← follows]
      apply (reads_moreItems rfl trailing each.tail rest).bind
      intro entries' same
      apply reads_spanFrom_bind
      intro s
      apply reads_pure
      simp only [Expr.plain, Expr.plainEntries, Phrase.entryTree, sameKey, sameValue,
        Phrase.plainEntries_eq_of_forall₂ same]

/-! ### Comprehensions -/

theorem reads_binding (b : Binding) :
    Reads binding (b.kinds ++ .kwIn :: rest) (.kwIn :: rest) (· = b) := by
  unfold binding
  cases b with
  | single name =>
    apply reads_ident_bind
    apply reads_skip_ite (by simp)
    exact reads_pure rfl
  | pair first second =>
    apply reads_ident_bind
    apply reads_eat_ite (by simp)
    apply reads_ident_bind
    exact reads_pure rfl

theorem reads_filter (h : ReadsPhrases expr inner) {f : Option Phrase} (hf : ∀ p ∈ f, inner p)
    (closing : k.isClose = true) :
    Reads (filter expr) (Phrase.filterKinds f ++ k :: rest) (k :: rest)
      (Expr.plainFilter · = f.map Phrase.tree) := by
  unfold filter
  cases f with
  | none =>
    apply reads_skip_ite (by rintro rfl; cases closing)
    exact reads_pure rfl
  | some p =>
    apply reads_eat_ite (by simp)
    apply (h.reads p (hf p rfl) k rest (Kind.isEnd_of_isClose closing)).bind
    intro e same
    apply reads_pure
    simp only [Expr.plainFilter, Option.map_some, same]

theorem reads_comprehension (h : ReadsPhrases expr inner) (start : Span) (b : Binding)
    {yield : Yield Phrase} {yield' : Yield Expr} {source : Phrase} {f : Option Phrase}
    (hs : inner source) (hf : ∀ p ∈ f, inner p) {close : Kind} (closing : close.isClose = true)
    (same : Expr.plainYield yield' = Phrase.yieldTree yield) :
    Reads (comprehension expr start yield' close)
      (.kwFor :: (b.kinds ++
        .kwIn :: (source.kinds ++ (Phrase.filterKinds f ++ close :: rest)))) rest
      (·.plain = .comprehension default (Phrase.yieldTree yield) b source.tree
        (f.map Phrase.tree)) := by
  -- after the source comes the filter or the closing bracket
  have follows : ∃ k ks, Phrase.filterKinds f ++ close :: rest = k :: ks ∧ k.isEnd = true := by
    cases f with
    | none => exact ⟨close, rest, rfl, Kind.isEnd_of_isClose closing⟩
    | some e => exact ⟨.kwIf, _, rfl, rfl⟩
  obtain ⟨k, ks, follows, ends⟩ := follows
  rw [comprehension_eq]
  apply reads_advance_bind (by simp)
  apply (reads_binding b).bind
  rintro _ rfl
  apply reads_require_bind (by simp)
  rw [follows]
  apply (h.reads source hs k ks ends).bind
  intro source' sameSource
  rw [← follows]
  apply (reads_filter h hf closing).bind
  intro f' sameFilter
  apply reads_require_bind (Kind.ne_eof_of_isClose closing)
  apply reads_spanFrom_bind
  intro s
  apply reads_pure
  simp only [Expr.plain, same, sameSource, sameFilter]

/-- A comprehension is told from a list, a set or a map by `for` after what it collects. -/
theorem reads_collected (h : ReadsPhrases expr inner) (b : Binding) {yield : Yield Phrase}
    {source : Phrase} {f : Option Phrase} (hy : ∀ p ∈ Phrase.ofYield yield, inner p)
    (hs : inner source) (hf : ∀ p ∈ f, inner p) :
    Reads (primary expr)
      (yield.opening :: (Phrase.yieldKinds yield ++ .kwFor :: (b.kinds ++
        .kwIn :: (source.kinds ++ (Phrase.filterKinds f ++ yield.closing :: rest))))) rest
      (·.plain = .comprehension default (Phrase.yieldTree yield) b source.tree
        (f.map Phrase.tree)) := by
  let tail (close : Kind) : List Kind :=
    b.kinds ++ .kwIn :: (source.kinds ++ (Phrase.filterKinds f ++ close :: rest))
  cases yield with
  | list a =>
    have ha : inner a := hy a List.mem_cons_self
    have reads := h.reads a ha .kwFor (tail .rbracket) rfl
    obtain ⟨k, ks, starts, start⟩ := h.starts a ha
    rw [Phrase.yieldKinds]
    rw [starts] at reads ⊢
    unfold primary
    apply reads_kind_bind
    apply reads_bracketed_start start
    intro s
    apply reads.bind
    intro a' same
    apply reads_kind_bind
    rw [if_pos rfl]
    exact reads_comprehension h s b hs hf rfl
      (by simp only [Expr.plainYield, Phrase.yieldTree, same])
  | set a =>
    have ha : inner a := hy a List.mem_cons_self
    have reads := h.reads a ha .kwFor (tail .rbrace) rfl
    obtain ⟨k, ks, starts, start⟩ := h.starts a ha
    rw [Phrase.yieldKinds]
    rw [starts] at reads ⊢
    unfold primary
    apply reads_kind_bind
    apply reads_braced_start start
    intro s
    apply reads.bind
    intro a' same
    apply reads_skip_ite (by simp)
    apply reads_kind_bind
    rw [if_pos rfl]
    exact reads_comprehension h s b hs hf rfl
      (by simp only [Expr.plainYield, Phrase.yieldTree, same])
  | map key value =>
    have hk : inner key := hy key (by simp [Phrase.ofYield])
    have hv : inner value := hy value (by simp [Phrase.ofYield])
    have reads := h.reads key hk .colon (value.kinds ++ .kwFor :: tail .rbrace) rfl
    obtain ⟨k, ks, starts, start⟩ := h.starts key hk
    rw [Phrase.yieldKinds, List.append_assoc, List.cons_append]
    rw [starts] at reads ⊢
    unfold primary
    apply reads_kind_bind
    apply reads_braced_start start
    intro s
    apply reads.bind
    intro key' sameKey
    apply reads_eat_ite (by simp)
    apply (h.reads value hv .kwFor _ rfl).bind
    intro value' sameValue
    apply reads_kind_bind
    rw [if_pos rfl]
    exact reads_comprehension h s b hs hf rfl
      (by simp only [Expr.plainYield, Phrase.yieldTree, sameKey, sameValue])

theorem reads_primary (h : ReadsPhrases expr inner) (hp : Phrase.Primary inner p)
    (other : k ≠ .doubleColon) :
    Reads (primary expr) (p.kinds ++ k :: rest) (k :: rest) (·.plain = p.tree) := by
  cases hp with
  | literal v =>
    cases v with
    | bool b =>
      cases b <;>
        exact reads_kind_bind (reads_leaf (by simp [Literal.kind]) fun s ↦ by rw [Expr.plain])
    | _ => exact reads_kind_bind (reads_leaf (by simp [Literal.kind]) fun s ↦ by rw [Expr.plain])
  | ident name | params =>
    exact reads_kind_bind (reads_leaf (by simp) fun s ↦ by simp only [Expr.plain])
  | path path =>
    obtain ⟨module, name⟩ := path
    cases module with
    | none => exact reads_kind_bind (reads_pathExpr ⟨none, name⟩ other)
    | some module => exact reads_kind_bind (reads_pathExpr ⟨some module, name⟩ other)
  | paren hp =>
    simp only [List.cons_append, List.append_assoc, List.nil_append]
    exact reads_kind_bind (reads_parenthesised h hp)
  | raise trailing ha =>
    simp only [List.cons_append, List.append_assoc, List.nil_append]
    exact reads_kind_bind (reads_raised h trailing ha)
  | list trailing hi =>
    simp only [List.cons_append, List.append_assoc, List.nil_append]
    exact reads_kind_bind (reads_bracketed h trailing hi)
  | set trailing filled hi =>
    simp only [List.cons_append, List.append_assoc, List.nil_append]
    exact reads_kind_bind (reads_set h trailing filled hi)
  | map trailing he =>
    simp only [List.cons_append, List.append_assoc, List.nil_append]
    exact reads_kind_bind (reads_map h trailing he)
  | comprehension binding hy hs hf =>
    simp only [List.cons_append, List.append_assoc, List.nil_append]
    exact reads_collected h binding hy hs hf

/-! ### Suffixes -/

/-- Where no suffix follows, nothing is taken. -/
theorem reads_suffixes_none (none : k.isSuffix = false) (bound : Nat) (receiver : Expr) :
    Reads (suffixes expr bound receiver) (k :: rest) (k :: rest) (· = receiver) := by
  cases bound with
  | zero => exact reads_pure rfl
  | succ bound =>
    rw [suffixes]
    apply reads_kind_bind
    cases k <;> first | exact reads_pure rfl | cases none

/-- What is read after a token that continues an expression. -/
def suffix? (expr : Reader Expr) : Kind → Option (Expr → Reader Expr)
  | .dot => some (member expr)
  | .lbracket => some (subscript expr)
  | .lparen => some (invocation expr)
  | _ => none

/-- The first suffix is taken, and then those after it. -/
theorem reads_suffixes_more {step : Expr → Reader Expr} {first : Kind} {ks middle out : List Kind}
    {P Q : Expr → Prop} {bound : Nat} {receiver : Expr} (takes : suffix? expr first = some step)
    (reads : Reads (step receiver) (first :: ks) middle P)
    (after : ∀ r, P r → Reads (suffixes expr bound r) middle out Q) :
    Reads (suffixes expr (bound + 1) receiver) (first :: ks) out Q := by
  rw [suffixes]
  apply reads_kind_bind
  cases first <;> cases takes <;> exact reads.bind after

theorem reads_attr {receiver : Expr} {name : String} (other : k ≠ .lparen) :
    Reads (member expr receiver) (.dot :: .ident name :: k :: rest) (k :: rest)
      (·.plain = .attr default receiver.plain name) := by
  unfold member
  apply reads_advance_bind (by simp)
  apply reads_ident_bind
  apply reads_skip_ite other
  apply reads_spanFrom_bind
  intro s
  apply reads_pure
  rw [Expr.plain]

section

variable {receiver : Expr} {args : List Phrase}

theorem reads_method (h : ReadsPhrases expr inner) {name : String} (trailing : Bool)
    (ha : ∀ p ∈ args, inner p) :
    Reads (member expr receiver)
      (.dot :: .ident name :: .lparen :: (Phrase.listed trailing args ++ .rparen :: rest)) rest
      (·.plain = .method default receiver.plain name (args.map Phrase.tree)) := by
  have closing : Kind.rparen.isClose = true := rfl
  unfold member
  apply reads_advance_bind (by simp)
  apply reads_ident_bind
  apply reads_eat_ite (by simp)
  apply (reads_items closing trailing (h.items closing ha) rest).bind
  intro args' same
  apply reads_spanFrom_bind
  intro s
  apply reads_pure
  rw [Expr.plain, Phrase.plainAll_eq_of_forall₂ same]

theorem reads_subscript (h : ReadsPhrases expr inner) (trailing : Bool) (filled : args ≠ [])
    (ha : ∀ p ∈ args, inner p) :
    Reads (subscript expr receiver)
      (.lbracket :: (Phrase.listed trailing args ++ .rbracket :: rest)) rest
      (·.plain = .index default receiver.plain (args.map Phrase.tree)) := by
  have closing : Kind.rbracket.isClose = true := rfl
  unfold subscript
  apply reads_advance_bind (by simp)
  apply (reads_items closing trailing (h.items closing ha) rest).bind
  intro args' same
  have filled' : args'.isEmpty = false := by
    cases same with
    | nil => exact absurd rfl filled
    | cons _ _ => rfl
  dsimp only
  rw [if_neg (by simp [filled'])]
  apply reads_spanFrom_bind
  intro s
  apply reads_pure
  rw [Expr.plain, Phrase.plainAll_eq_of_forall₂ same]

end

theorem reads_invocation (h : ReadsPhrases expr inner) {target : Expr} (trailing : Bool)
    {args : List (Entry String Phrase)} (ha : ∀ x ∈ args, ∀ p ∈ Phrase.ofArgument x, inner p) :
    Reads (invocation expr target)
      (.lparen :: (separated trailing (args.map Phrase.argumentKinds) ++ .rparen :: rest)) rest
      (·.plain = .call default target.plain (args.map Phrase.argumentTree)) := by
  unfold invocation
  apply reads_advance_bind (by simp)
  apply (reads_items rfl trailing (h.arguments ha) rest).bind
  intro args' same
  apply reads_spanFrom_bind
  intro s
  apply reads_pure
  rw [Expr.plain, Phrase.plainNamed_eq_of_forall₂ same]

/-- A primary expression and all that is taken from it. -/
def suffixed (expr : Reader Expr) : Reader Expr := do
  let receiver ← primary expr
  suffixes expr (← remaining) receiver

/-- A phrase with suffixes is read before all that can follow it. The suffixes that follow are part
of the loop that reads its own, so what comes of them is up to the rest of the loop. -/
theorem reads_suffixed (h : ReadsPhrases expr inner) {callable : Bool}
    (hp : Phrase.Suffixed inner callable p) {out : List Kind} {Q : Expr → Prop} (k : Kind)
    (rest : List Kind) (other : k ≠ .doubleColon) (uncalled : callable = false → k ≠ .lparen)
    (after : ∀ bound receiver, (k :: rest).length ≤ bound → receiver.plain = p.tree →
      Reads (suffixes expr bound receiver) (k :: rest) out Q) :
    Reads (suffixed expr) (p.kinds ++ k :: rest) out Q := by
  induction hp generalizing k rest with
  | primary hp =>
    apply (reads_primary h hp other).bind
    intro receiver same
    apply reads_remaining_bind
    exact after _ receiver (Nat.le_refl _) same
  | attr hp name ih =>
    rw [List.append_assoc]
    refine ih .dot _ (by simp) (by simp) fun bound receiver enough same ↦ ?_
    obtain ⟨bound, rfl⟩ := Nat.exists_eq_add_of_le' enough
    refine reads_suffixes_more rfl (reads_attr (uncalled rfl)) fun r hr ↦ ?_
    exact after _ r (by simp; omega) (by rw [hr, same])
  | method hp name trailing ha ih =>
    simp only [List.append_assoc, List.cons_append, List.nil_append]
    refine ih .dot _ (by simp) (by simp) fun bound receiver enough same ↦ ?_
    obtain ⟨bound, rfl⟩ := Nat.exists_eq_add_of_le' enough
    refine reads_suffixes_more rfl (reads_method h trailing ha) fun r hr ↦ ?_
    exact after _ r (by simp; omega) (by rw [hr, same])
  | index hp trailing filled ha ih =>
    simp only [List.append_assoc, List.cons_append, List.nil_append]
    refine ih .lbracket _ (by simp) (by simp) fun bound receiver enough same ↦ ?_
    obtain ⟨bound, rfl⟩ := Nat.exists_eq_add_of_le' enough
    refine reads_suffixes_more rfl (reads_subscript h trailing filled ha) fun r hr ↦ ?_
    exact after _ r (by simp; omega) (by rw [hr, same])
  | call hp trailing ha ih =>
    simp only [List.append_assoc, List.cons_append, List.nil_append]
    refine ih .lparen _ (by simp) (by simp) fun bound receiver enough same ↦ ?_
    obtain ⟨bound, rfl⟩ := Nat.exists_eq_add_of_le' enough
    refine reads_suffixes_more rfl (reads_invocation h trailing ha) fun r hr ↦ ?_
    exact after _ r (by simp; omega) (by rw [hr, same])

/-! ### Operands -/

/-- What starts with no unary operator is read with its suffixes. -/
theorem reads_operandUpTo_suffixed {input out : List Kind} {P : Expr → Prop} {first : Kind}
    {ks : List Kind} (starts : input = first :: ks) (plain : first.unaryOp? = none)
    (reads : Reads (suffixed expr) input out P) (bound : Nat) :
    Reads (operandUpTo expr (bound + 1)) input out P := by
  rw [operandUpTo]
  rw [starts] at reads ⊢
  apply reads_kind_bind
  rw [plain]
  exact reads

theorem reads_operandUpTo_unary (op : UnaryOp) {input out : List Kind} {tree : Expr} {bound : Nat}
    (reads : Reads (operandUpTo expr bound) input out (·.plain = tree)) :
    Reads (operandUpTo expr (bound + 1)) (op.kind :: input) out
      (·.plain = .unary default op tree) := by
  rw [operandUpTo]
  apply reads_kind_bind
  rw [op.unaryOp?_kind]
  apply reads_span_bind
  intro s
  apply reads_advance_bind (by cases op <;> simp [UnaryOp.kind])
  apply reads.bind
  intro e same
  apply reads_pure
  rw [Expr.plain, same]

theorem reads_operandUpTo (h : ReadsPhrases expr inner) (hp : Phrase.Operand inner p)
    (none : k.isSuffix = false) {bound : Nat} (enough : p.kinds.length ≤ bound) :
    Reads (operandUpTo expr bound) (p.kinds ++ k :: rest) (k :: rest) (·.plain = p.tree) := by
  induction hp generalizing bound with
  | suffixed hp =>
    obtain ⟨first, ks, starts, -, plain⟩ := hp.starts
    rw [starts] at enough
    obtain ⟨bound, rfl⟩ := Nat.exists_eq_add_of_le' enough
    apply reads_operandUpTo_suffixed (by rw [starts]; rfl) plain
    refine reads_suffixed h hp k rest (by rintro rfl; cases none) (by rintro - rfl; cases none)
      fun bound receiver _ same ↦ ?_
    apply (reads_suffixes_none none bound receiver).imp
    rintro _ rfl
    exact same
  | unary op hp ih =>
    obtain ⟨bound, rfl⟩ := Nat.exists_eq_add_of_le' enough
    exact reads_operandUpTo_unary op (ih (Nat.le_add_left _ _))

/-- A condition is read before the end of an expression. -/
theorem reads_operandUpTo_conditional (h : ReadsPhrases expr inner)
    (hp : Phrase.Conditional inner p) (ends : k.isEnd = true) {bound : Nat}
    (enough : p.kinds.length ≤ bound) :
    Reads (operandUpTo expr bound) (p.kinds ++ k :: rest) (k :: rest) (·.plain = p.tree) := by
  induction hp generalizing bound with
  | cond ha hb hc =>
    obtain ⟨bound, rfl⟩ := Nat.exists_eq_add_of_le' enough
    simp only [List.cons_append, List.append_assoc]
    apply reads_operandUpTo_suffixed rfl rfl
    apply Reads.bind (reads_kind_bind (reads_conditional h ha hb hc ends))
    intro receiver same
    apply reads_remaining_bind
    apply (reads_suffixes_none (Kind.isSuffix_of_isEnd ends) _ receiver).imp
    rintro _ rfl
    exact same
  | unary op hp ih =>
    obtain ⟨bound, rfl⟩ := Nat.exists_eq_add_of_le' enough
    exact reads_operandUpTo_unary op (ih (Nat.le_add_left _ _))

/-- The first operand of a chain is read up to the operator after it, or up to the end. -/
theorem reads_first (h : ReadsPhrases expr inner) {after : List (BinaryOp × Phrase)}
    (hp : Phrase.Operands inner p after) (ends : k.isEnd = true) :
    Reads (operand expr) (p.kinds ++ (Phrase.continued after ++ k :: rest))
      (Phrase.continued after ++ k :: rest) (·.plain = p.tree) := by
  unfold operand
  apply reads_remaining_bind
  have enough (out : List Kind) : p.kinds.length ≤ (p.kinds ++ out).length := by
    rw [List.length_append]
    omega
  cases hp with
  | last hp =>
    rcases hp with hp | hp
    · exact reads_operandUpTo h hp (Kind.isSuffix_of_isEnd ends) (enough _)
    · exact reads_operandUpTo_conditional h hp ends (enough _)
  | more op hp later => exact reads_operandUpTo h hp op.isSuffix_kind (enough _)

end Reader

end Formulary
