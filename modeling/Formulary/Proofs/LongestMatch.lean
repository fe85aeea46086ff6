import Formulary.Proofs.EvalLaws
import Formulary.Proofs.Scanning
import Mathlib.Data.String.Basic

/-!
# Longest matches

Reading goes from position to position, each the end of the longest text that a rule matches at the
one before (`Token.Reached`). The tokens of a script are what the rules make of these texts, and
they leave out blanks and comments only (`Token.Covers`). There are none if reading comes to a
position from which it cannot go on (`Token.Stuck`). That the lexer reads like this is
`Token.tokens_longest_match`.
-/

namespace Formulary

/-! ### Slices -/

theorem Token.byteLength_eq (cs : List Char) : byteLength cs = String.utf8Len cs := by
  have counted : ∀ n, cs.foldl (fun n c ↦ n + c.utf8Size) n = n + String.utf8Len cs := by
    induction cs with
    | nil => simp
    | cons c cs ih =>
      intro n
      rw [List.foldl_cons, ih, String.utf8Len_cons]
      omega
  rw [byteLength, counted, Nat.zero_add]

namespace Span

variable {source : String} {before w rest : List Char}

theorem splitBytes_append (cs rest : List Char) :
    splitBytes (String.utf8Len cs) (cs ++ rest) = some (cs, rest) := by
  induction cs with
  | nil => simp [splitBytes]
  | cons c cs ih =>
    have size := c.utf8Size_pos
    obtain ⟨n, hn⟩ : ∃ n, String.utf8Len (c :: cs) = n + 1 :=
      ⟨String.utf8Len cs + c.utf8Size - 1, by rw [String.utf8Len_cons]; omega⟩
    have left : n + 1 - c.utf8Size = String.utf8Len cs := by
      rw [← hn, String.utf8Len_cons]
      omega
    rw [hn, List.cons_append, splitBytes, left, ih, if_pos]
    · rfl
    · rw [← hn, String.utf8Len_cons]
      omega

/-- The span of a part of a text covers that part. -/
theorem slice_eq (h : source.toList = before ++ (w ++ rest)) :
    (⟨String.utf8Len before, String.utf8Len (before ++ w)⟩ : Span).slice source =
      String.ofList w := by
  have length : (⟨String.utf8Len before, String.utf8Len (before ++ w)⟩ : Span).length =
      String.utf8Len w := by simp [Span.length]
  rw [slice, if_pos (by simp), h]
  simp only [splitBytes_append, length]

theorem slice_eq_of_end (h : source.toList = before ++ w) :
    (⟨String.utf8Len before, String.utf8Len (before ++ w)⟩ : Span).slice source =
      String.ofList w :=
  @slice_eq source before w [] (by rw [List.append_nil, h])

end Span

namespace Token

/-! ### Positions and tokens -/

/-- The positions of a text that reading comes to, each with what remains from there: the start,
and after such a position the end of the text that a rule takes there, if the rule makes something
of it. -/
inductive Reached (source : String) : (position : Nat) → (remaining : List Char) → Prop where
  | start : Reached source 0 source.toList
  | next {p : Nat} {w rest : List Char} {rule : Rule} {made : Option Kind}
      (before : Reached source p (w ++ rest)) (takes : rule.Takes w (w ++ rest))
      (makes : rule.Makes w made) : Reached source (p + String.utf8Len w) rest

/-- There is more to read, but no rule matches, or what is taken is an integer out of range. -/
def Stuck (remaining : List Char) : Prop :=
  remaining ≠ [] ∧
    ((∀ (rule : Rule) (w : List Char), w ∈ rule.language → ¬ w <+: remaining) ∨
      ∃ w, Rule.int.Takes w remaining ∧ Decimal.maxInt < Decimal.digitsValue w)

/-- What may stand before a token or the end: spaces, tabs, carriage returns, and comments that run
to the end of the line. -/
inductive Gap (after : List Char) : List Char → Prop where
  | none : Gap after []
  | blank {c : Char} {gap : List Char} (h : c ∈ [' ', '\t', '\r']) (more : Gap after gap) :
      Gap after (c :: gap)
  | comment {body : List Char} (line : '\n' ∉ body) (ends : ∀ c ∈ after.head?, c = '\n') :
      Gap after ('#' :: body)

/-- What remains of a text from a position on. -/
def remaining (source : String) (p : Nat) : List Char :=
  ((⟨p, source.utf8ByteSize⟩ : Span).slice source).toList

/-- The tokens cover a text: they end with its end, the others take up parts of it in order and
leave gaps only, and each of them is what a rule makes of the text that it takes off what remains
there. -/
structure Covers (source : String) (ts : List Token) : Prop where
  last : ts.getLast? = some ⟨.eof, source.utf8ByteSize, source.utf8ByteSize⟩
  nonempty : ∀ t ∈ ts.dropLast, t.span.start < t.span.stop
  ordered : ts.Pairwise fun a b ↦ a.span.start < b.span.start ∧ a.span.stop ≤ b.span.start
  gaps : (⟨0, 0⟩ :: ts.map Token.span).IsChain fun a b ↦
    Gap (remaining source b.start) ((⟨a.stop, b.start⟩ : Span).slice source).toList
  longest : ∀ t ∈ ts.dropLast, ∃ rule : Rule,
    rule.Takes (t.span.slice source).toList (remaining source t.span.start) ∧
      rule.Makes (t.span.slice source).toList (some t.kind)

/-- Whether resolving the escapes of a text comes to a backslash that nothing follows. -/
def dangles : List Char → Bool
  | [] => false
  | '\\' :: _ :: cs => dangles cs
  | ['\\'] => true
  | _ :: cs => dangles cs

theorem Quotable.dangles_eq_false {q : Char} {body : List Char} (h : Quotable q body) :
    dangles body = false := by
  induction h with
  | nil => rfl
  | @plain c cs hc _ ih =>
    simp only [List.mem_cons, List.not_mem_nil, or_false, not_or] at hc
    rw [dangles]
    · exact ih
    · simp [hc]
    · simp [hc]
  | escape _ _ ih => exact ih

/-! ### One text is taken -/

variable {input w v rest : List Char} {rule other : Rule}

/-- At most one text is taken off an input. -/
theorem Rule.Takes.text_unique (h : rule.Takes w input) (h' : other.Takes v input) : w = v := by
  have shorter := h'.longest rule w h.matched h.start
  have longer := h.longest other v h'.matched h'.start
  exact (List.prefix_of_prefix_length_le h.start h'.start shorter).eq_of_length (by omega)

/-- Digits are taken as an integer, by no other rule. -/
theorem Rule.Takes.eq_int (h : rule.Takes w input) (digits : Rule.int.Takes w input) :
    rule = .int := by
  obtain ⟨nonempty, digit⟩ := mem_digits.mp digits.matched
  obtain ⟨d, ds, rfl⟩ := List.exists_cons_of_ne_nil nonempty
  have family : rule.family = .number :=
    (Rule.family_of_mem h.matched).symm.trans
      (Family.of_isDigit (digit d List.mem_cons_self))
  rcases Rule.eq_number family with rfl | rfl
  · obtain ⟨whole, fraction, exponent, cut, -⟩ := Rule.mem_float.mp h.matched
    have point := digit '.' (by simp [cut])
    exact absurd point (by decide)
  · rfl

/-- Of an integer out of range nothing is made. -/
theorem not_makes_of_large {made : Option Kind} (takes : rule.Takes w input)
    (makes : rule.Makes w made) (int : Rule.int.Takes v input) :
    ¬ Decimal.maxInt < Decimal.digitsValue v := by
  cases takes.text_unique int
  cases takes.eq_int int
  cases makes with
  | @int _ n value =>
    have bound := n.toInt_lt
    unfold Decimal.maxInt
    omega

/-- Where a rule takes a text and makes something of it, reading is not stuck. -/
theorem not_stuck {made : Option Kind} (takes : rule.Takes w input) (makes : rule.Makes w made) :
    ¬ Stuck input := by
  rintro ⟨-, none | ⟨v, int, large⟩⟩
  · exact none rule w takes.matched takes.start
  · exact not_makes_of_large takes makes int large

/-! ### Steps of reading -/

variable {source : String} {c : Char} {cs before : List Char}

/-- Where a rule takes a text and makes something of it, reading goes on after it. -/
theorem tokensFrom_of_takes {made : Option Kind} (takes : rule.Takes w (w ++ rest))
    (makes : rule.Makes w made) {fuel : Nat} (enough : (w ++ rest).length ≤ fuel) (p : Nat) :
    ∃ ts fuel', rest.length ≤ fuel' ∧ tokensFrom fuel p (w ++ rest) =
      (tokensFrom fuel' (p + String.utf8Len w) rest).map (ts ++ ·) := by
  obtain ⟨c, v, rfl⟩ := List.exists_cons_of_ne_nil (Rule.ne_nil_of_mem takes.matched)
  cases fuel with
  | zero => cases enough
  | succ fuel =>
    have shorter : rest.length ≤ fuel := by
      simp only [List.cons_append, List.length_cons, List.length_append] at enough
      omega
    have scanned := scans_scan c (v ++ rest)
    rw [List.cons_append] at takes ⊢
    rw [tokensFrom]
    generalize scan c (v ++ rest) = lexeme at scanned ⊢
    cases scanned with
    | @piece _ w' rest' made' cut takes' makes' =>
      -- what the scanner takes is the same text; what it makes of it does not matter here
      cases takes'.text_unique takes
      obtain rfl : rest' = rest := by simpa using cut
      cases made' with
      | none =>
        refine ⟨[], fuel, shorter, ?_⟩
        simp only [Class.of, byteLength_eq]
        cases tokensFrom fuel (p + String.utf8Len (c :: v)) rest' <;> rfl
      | some kind =>
        refine ⟨[⟨kind, p, p + String.utf8Len (c :: v)⟩], fuel, shorter, ?_⟩
        simp only [Class.of, byteLength_eq, List.singleton_append]
    | unmatched none => exact absurd takes.start (none rule _ takes.matched)
    | outOfRange int large => exact absurd large (not_makes_of_large takes makes int)

/-- Reading comes to the positions that are reached. -/
theorem tokens_of_reached {p : Nat} (h : Reached source p rest) :
    ∃ ts fuel, rest.length ≤ fuel ∧ tokens source = (tokensFrom fuel p rest).map (ts ++ ·) := by
  induction h with
  | start =>
    refine ⟨[], source.toList.length, Nat.le_refl _, ?_⟩
    rw [tokens]
    cases tokensFrom source.toList.length 0 source.toList <;> rfl
  | next _ takes makes ih =>
    obtain ⟨ts, fuel, enough, read⟩ := ih
    obtain ⟨more, fuel', enough', step⟩ := tokensFrom_of_takes takes makes enough _
    refine ⟨ts ++ more, fuel', enough', ?_⟩
    rw [read, step]
    cases tokensFrom fuel' _ _ with
    | error e => rfl
    | ok later => simp [Except.map]

/-- Reading fails where it is stuck. -/
theorem tokens_of_stuck {p : Nat} (h : Reached source p rest) (stuck : Stuck rest) :
    ∃ e, tokens source = .error e ∧ e.span.start = p := by
  obtain ⟨ts, fuel, enough, read⟩ := tokens_of_reached h
  obtain ⟨c, cs, rfl⟩ := List.exists_cons_of_ne_nil stuck.1
  cases fuel with
  | zero => cases enough
  | succ fuel =>
    have scanned := scans_scan c cs
    rw [read, tokensFrom]
    generalize scan c cs = lexeme at scanned ⊢
    cases scanned with
    | piece _ takes makes => exact absurd stuck (not_stuck takes makes)
    | unmatched | outOfRange => exact ⟨_, rfl, rfl⟩

/-- If reading fails, it is stuck at a position that is reached. -/
theorem stuck_of_tokensFrom {p fuel : Nat} {e : LexError} (h : Reached source p rest)
    (failed : tokensFrom fuel p rest = .error e) :
    ∃ remaining, Reached source e.span.start remaining ∧ Stuck remaining := by
  induction fuel generalizing p rest with
  | zero => cases failed
  | succ fuel ih =>
    cases rest with
    | nil => cases failed
    | cons c cs =>
      have scanned := scans_scan c cs
      rw [tokensFrom] at failed
      generalize scan c cs = lexeme at scanned failed
      cases scanned with
      | @piece rule w rest made cut takes makes =>
        rw [← cut] at h takes
        have further := h.next takes makes
        rw [← byteLength_eq] at further
        cases made with
        | none => exact ih further failed
        | some kind =>
          refine ih further ?_
          simp only [Class.of] at failed
          cases later : tokensFrom fuel (p + byteLength w) rest with
          | error e' =>
            rw [later] at failed
            cases failed
            rfl
          | ok ts =>
            rw [later] at failed
            cases failed
      | unmatched none =>
        cases failed
        exact ⟨_, h, List.cons_ne_nil _ _, .inl none⟩
      | outOfRange int large =>
        cases failed
        exact ⟨_, h, List.cons_ne_nil _ _, .inr ⟨_, int, large⟩⟩

/-! ### What is read -/

/-- Tokens are laid out over a text, after a part that comes before it. -/
inductive Laid : (before text : List Char) → List Token → Prop where
  | done {before gap : List Char} (skipped : Gap [] gap) :
      Laid before gap [⟨.eof, String.utf8Len (before ++ gap), String.utf8Len (before ++ gap)⟩]
  | token {before gap w rest : List Char} {rule : Rule} {kind : Kind} {ts : List Token}
      (skipped : Gap (w ++ rest) gap) (takes : rule.Takes w (w ++ rest))
      (makes : rule.Makes w (some kind)) (later : Laid (before ++ gap ++ w) rest ts) :
      Laid before (gap ++ (w ++ rest))
        (⟨kind, String.utf8Len (before ++ gap), String.utf8Len (before ++ gap ++ w)⟩ :: ts)

theorem laid_nil (before : List Char) :
    Laid before [] [⟨.eof, String.utf8Len before, String.utf8Len before⟩] := by
  simpa using @Laid.done before [] .none

theorem laid_token {kind : Kind} {ts : List Token} (takes : rule.Takes w (w ++ rest))
    (makes : rule.Makes w (some kind)) (later : Laid (before ++ w) rest ts) :
    Laid before (w ++ rest)
      (⟨kind, String.utf8Len before, String.utf8Len (before ++ w)⟩ :: ts) := by
  simpa using @Laid.token before [] w rest rule kind ts .none takes makes (by simpa using later)

/-- A comment runs to the end of the line. -/
theorem head?_of_comment (h : Rule.comment.Takes w (w ++ rest)) : ∀ c ∈ rest.head?, c = '\n' := by
  intro c hc
  obtain ⟨body, rfl, line⟩ := Rule.mem_comment.mp h.matched
  cases rest with
  | nil => cases hc
  | cons d rest =>
    cases hc
    by_contra other
    have longer := h.longest .comment ('#' :: (body ++ [c]))
      (Rule.mem_comment.mpr ⟨_, rfl, by simpa [or_imp, forall_and] using ⟨line, other⟩⟩)
      ⟨rest, by simp⟩
    simp at longer

/-- Where a line ends, there is no gap. -/
theorem Gap.eq_nil {after gap : List Char} (h : Gap after gap)
    (line : ∀ c ∈ (gap ++ after).head?, c = '\n') : gap = [] := by
  cases h with
  | none => rfl
  | blank hc _ =>
    cases line _ rfl
    exact absurd hc (by decide)
  | comment => cases line _ rfl

theorem Gap.append {after gap blanks : List Char} (h : Gap after gap)
    (blank : ∀ c ∈ blanks, isSeparator c = true) : Gap after (blanks ++ gap) := by
  induction blanks with
  | nil => exact h
  | cons c blanks ih =>
    obtain ⟨first, others⟩ := List.forall_mem_cons.mp blank
    exact .blank (isSeparator_iff.mp first) (ih others)

/-- What is skipped belongs to the gap before the next token. -/
theorem gap_of_skipped {after gap : List Char} (h : Gap after gap)
    (takes : rule.Takes w (w ++ (gap ++ after))) (makes : rule.Makes w none) :
    Gap after (w ++ gap) := by
  cases makes with
  | blanks => exact h.append (Rule.mem_blanks.mp takes.matched).2
  | comment =>
    -- after a comment the line ends, so nothing more was skipped there
    have ends := head?_of_comment takes
    cases h.eq_nil ends
    obtain ⟨body, rfl, line⟩ := Rule.mem_comment.mp takes.matched
    rw [List.append_nil]
    exact .comment (fun newline ↦ line _ newline rfl) ends

theorem laid_of_skipped {ts : List Token} (h : Laid (before ++ w) rest ts)
    (takes : rule.Takes w (w ++ rest)) (makes : rule.Makes w none) :
    Laid before (w ++ rest) ts := by
  cases h with
  | done skipped =>
    rw [List.append_assoc]
    exact .done (gap_of_skipped skipped (by rwa [List.append_nil]) makes)
  | token skipped takes' makes' later =>
    rw [List.append_assoc, ← List.append_assoc w]
    rw [List.append_assoc before] at later
    exact .token (gap_of_skipped skipped takes makes) takes' makes' later

/-- The tokens that are read are laid out over the text. -/
theorem laid_of_tokensFrom {fuel : Nat} {ts : List Token} (enough : rest.length ≤ fuel)
    (read : tokensFrom fuel (String.utf8Len before) rest = .ok ts) : Laid before rest ts := by
  induction fuel generalizing before rest ts with
  | zero =>
    cases List.length_eq_zero_iff.mp (Nat.le_zero.mp enough)
    cases read
    exact laid_nil before
  | succ fuel ih =>
    cases rest with
    | nil =>
      cases read
      exact laid_nil before
    | cons c cs =>
      have scanned := scans_scan c cs
      rw [tokensFrom] at read
      generalize scan c cs = lexeme at scanned read
      cases scanned with
      | @piece rule w rest made cut takes makes =>
        have shorter : rest.length ≤ fuel := by
          have nonempty := List.length_pos_iff.mpr (Rule.ne_nil_of_mem takes.matched)
          rw [← cut, List.length_append] at enough
          omega
        rw [← cut] at takes ⊢
        simp only [Class.of, byteLength_eq, ← String.utf8Len_append] at read
        cases made with
        | none => exact laid_of_skipped (ih shorter read) takes makes
        | some kind =>
          obtain ⟨later, hlater, rfl⟩ := map_eq_ok read
          exact laid_token takes makes (ih shorter hlater)
      | unmatched | outOfRange => cases read

section

variable {text : List Char} {ts : List Token}

theorem Laid.ne_nil (h : Laid before text ts) : ts ≠ [] := by
  cases h <;> exact List.cons_ne_nil _ _

theorem Laid.getLast? (h : Laid before text ts) :
    ts.getLast? =
      some ⟨.eof, String.utf8Len (before ++ text), String.utf8Len (before ++ text)⟩ := by
  induction h with
  | done => rfl
  | token _ _ _ later ih =>
    rw [List.getLast?_cons_of_ne_nil later.ne_nil, ih]
    simp only [List.append_assoc]

/-- Each token but the last is what a rule makes of a part of the text. -/
theorem Laid.piece (h : Laid before text ts) : ∀ t ∈ ts.dropLast,
    ∃ (earlier w rest : List Char) (rule : Rule), before ++ text = earlier ++ (w ++ rest) ∧
      t.span = ⟨String.utf8Len earlier, String.utf8Len (earlier ++ w)⟩ ∧
      rule.Takes w (w ++ rest) ∧ rule.Makes w (some t.kind) := by
  induction h with
  | done => exact fun t ht ↦ absurd ht List.not_mem_nil
  | @token before gap w rest rule kind ts _ takes makes later ih =>
    rw [List.dropLast_cons_of_ne_nil later.ne_nil]
    refine List.forall_mem_cons.mpr ⟨?_, ?_⟩
    · exact ⟨before ++ gap, w, rest, rule, by rw [List.append_assoc], rfl, takes, makes⟩
    · intro t ht
      obtain ⟨earlier, v, after, other, cut, found⟩ := ih t ht
      exact ⟨earlier, v, after, other, by rw [← cut]; simp only [List.append_assoc], found⟩

theorem utf8Len_lt_of_mem (h : w ∈ rule.language) (before : List Char) :
    String.utf8Len before < String.utf8Len (before ++ w) := by
  have positive : String.utf8Len w ≠ 0 := fun h0 ↦
    Rule.ne_nil_of_mem h (String.utf8Len_eq_zero.mp h0)
  rw [String.utf8Len_append]
  omega

theorem Laid.le_start (h : Laid before text ts) :
    ∀ t ∈ ts, String.utf8Len before ≤ t.span.start := by
  induction h with
  | done => simp
  | token _ _ _ _ ih =>
    refine List.forall_mem_cons.mpr ⟨by simp, fun t ht ↦ ?_⟩
    have later := ih t ht
    simp only [String.utf8Len_append] at later
    omega

theorem Laid.ordered (h : Laid before text ts) :
    ts.Pairwise fun a b ↦ a.span.start < b.span.start ∧ a.span.stop ≤ b.span.start := by
  induction h with
  | done => exact List.pairwise_singleton _ _
  | @token before gap w _ _ _ _ _ takes _ later ih =>
    refine List.pairwise_cons.mpr ⟨fun t ht ↦ ?_, ih⟩
    have nonempty := utf8Len_lt_of_mem takes.matched (before ++ gap)
    have after := later.le_start t ht
    exact ⟨Nat.lt_of_lt_of_le nonempty after, after⟩

theorem remaining_eq (h : source.toList = before ++ text) :
    remaining source (String.utf8Len before) = text := by
  have size : source.utf8ByteSize = String.utf8Len (before ++ text) := by
    rw [← h, ← String.utf8ByteSize_ofList, String.ofList_toList]
  rw [remaining, size, Span.slice_eq_of_end h, String.toList_ofList]

/-- Between two tokens, and before the first, there is a gap. -/
theorem Laid.gaps (h : Laid before text ts) (cut : source.toList = before ++ text) {s : Span}
    (stop : s.stop = String.utf8Len before) :
    (s :: ts.map Token.span).IsChain fun a b ↦
      Gap (remaining source b.start) ((⟨a.stop, b.start⟩ : Span).slice source).toList := by
  induction h generalizing s with
  | @done before gap skipped =>
    have whole : source.toList = before ++ gap ++ [] := by rw [cut, List.append_nil]
    refine List.isChain_cons_cons.mpr ⟨?_, .singleton _⟩
    rw [remaining_eq whole, stop, Span.slice_eq_of_end cut, String.toList_ofList]
    exact skipped
  | @token before gap w rest rule kind ts skipped takes makes later ih =>
    have cut' : source.toList = before ++ gap ++ (w ++ rest) := by
      rw [cut, List.append_assoc]
    refine List.isChain_cons_cons.mpr ⟨?_, ih ?_ rfl⟩
    · rw [remaining_eq cut', stop, Span.slice_eq cut, String.toList_ofList]
      exact skipped
    · rw [cut']
      simp only [List.append_assoc]

/-- Tokens that are laid out over a text cover it. -/
theorem covers_of_laid (h : Laid [] source.toList ts) : Covers source ts where
  last := by
    have size : source.utf8ByteSize = String.utf8Len source.toList := by
      rw [← String.utf8ByteSize_ofList, String.ofList_toList]
    rw [h.getLast?, size, List.nil_append]
  nonempty t ht := by
    obtain ⟨earlier, w, rest, rule, -, span, takes, -⟩ := h.piece t ht
    rw [span]
    exact utf8Len_lt_of_mem takes.matched earlier
  ordered := h.ordered
  gaps := h.gaps rfl rfl
  longest t ht := by
    obtain ⟨earlier, w, rest, rule, cut, span, takes, makes⟩ := h.piece t ht
    rw [span, Span.slice_eq cut, remaining_eq cut, String.toList_ofList]
    exact ⟨rule, takes, makes⟩

end

/-- The lexer takes the longest match at each position, and loses nothing. If it succeeds, its
tokens cover the source. It fails at the position where it is stuck, if it comes to one, and only
then. A quoted text that it takes never ends within an escape. -/
theorem tokens_longest_match (source : String) :
    (∀ ts, tokens source = .ok ts → Covers source ts) ∧
    (∀ p, (∃ e, tokens source = .error e ∧ e.span.start = p) ↔
      ∃ remaining, Reached source p remaining ∧ Stuck remaining) ∧
    ∀ p remaining body, Reached source p remaining →
      (Rule.doubleQuoted.Takes ('"' :: body ++ ['"']) remaining ∨
        Rule.singleQuoted.Takes ('\'' :: body ++ ['\'']) remaining) → dangles body = false := by
  refine ⟨fun ts read ↦ ?_, fun p ↦ ⟨?_, ?_⟩, fun p remaining body _ taken ↦ ?_⟩
  · exact covers_of_laid (laid_of_tokensFrom (Nat.le_refl _) read)
  · rintro ⟨e, failed, rfl⟩
    exact stuck_of_tokensFrom .start failed
  · rintro ⟨remaining, reached, stuck⟩
    exact tokens_of_stuck reached stuck
  · rcases taken with taken | taken
    all_goals
      obtain ⟨_, same, quotable⟩ := mem_between_quotes.mp taken.matched
      obtain rfl := by simpa using same
      exact quotable.dangles_eq_false

end Token

end Formulary
