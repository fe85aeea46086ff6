import Formulary.Proofs.Lexicon

/-!
# What the scanner finds

The scanner looks at the first character of its input and then reads on. The rules fall into
families by the characters that their lexemes start with (`Token.Rule.family_of_mem`), so it has to
tell apart the rules of one family only. It finds the rule that takes the longest text and that
text, or that no rule matches, or that an integer is out of range (`Token.scans_scan`).
-/

namespace Formulary.Token

/-! ### Families of rules -/

/-- Lexemes by their first characters. -/
inductive Family where
  | blank | comment | number | word | quoted | symbol
deriving DecidableEq

/-- The lexemes that start with a character. -/
def Family.of (c : Char) : Family :=
  if isSeparator c then .blank
  else if c = '#' then .comment
  else if c.isDigit then .number
  else if c.isAlpha || c = '_' then .word
  else if c = '"' || c = '\'' then .quoted
  else .symbol

/-- The lexemes that a rule is about. -/
def Rule.family : Rule → Family
  | blanks => .blank
  | comment => .comment
  | fixed spelling _ => if spelling ∈ keywords.map Prod.fst then .word else .symbol
  | float | int => .number
  | doubleQuoted | singleQuoted => .quoted
  | ident | const => .word

section tables

theorem mem_keywords_or_symbols :
    ∀ e ∈ spellings, e ∈ keywords ∨ (e.1.toList, e.2) ∈ symbols := by decide +kernel

theorem mem_spellings_of_keywords : ∀ e ∈ keywords, e ∈ spellings := by decide +kernel

theorem mem_spellings_of_symbols : ∀ e ∈ symbols, (String.ofList e.1, e.2) ∈ spellings := by
  decide +kernel

theorem spellings_functional : ∀ a ∈ spellings, ∀ b ∈ spellings, a.1 = b.1 → a.2 = b.2 := by
  decide +kernel

theorem family_of_spellings : ∀ e ∈ spellings,
    e.1.toList.head?.map Family.of = some (Rule.fixed e.1 e.2).family := by decide +kernel

theorem spellings_ne_nil : ∀ e ∈ spellings, e.1.toList ≠ [] := by decide +kernel

theorem isWordChar_of_keywords : ∀ e ∈ keywords, e.1.toList.all isWordChar = true := by
  decide +kernel

theorem symbols_sorted : symbols.Pairwise fun a b ↦ b.1.length ≤ a.1.length := by decide +kernel

end tables

variable {c : Char} {cs w v : List Char} {rule other : Rule}

theorem not_blank_of_isWordChar (h : isWordChar c = true) : isSeparator c = false ∧ c ≠ '#' := by
  have apart : ∀ d, isWordChar d = false → c ≠ d := by
    rintro d hd rfl
    rw [h] at hd
    cases hd
  simp [isSeparator, apart ' ' (by decide), apart '\t' (by decide), apart '\r' (by decide),
    apart '#' (by decide)]

theorem Family.of_isDigit (h : c.isDigit = true) : Family.of c = .number := by
  have word : isWordChar c = true := by simp [isWordChar, Char.isAlphanum, h]
  obtain ⟨space, hash⟩ := not_blank_of_isWordChar word
  simp [Family.of, space, hash, h]

theorem Family.of_word (h : (c.isAlpha || c = '_') = true) : Family.of c = .word := by
  obtain ⟨space, hash⟩ : isSeparator c = false ∧ c ≠ '#' := by
    apply not_blank_of_isWordChar
    rw [Bool.or_eq_true] at h
    rcases h with h | h <;> simp [isWordChar, Char.isAlphanum, h]
  have digit : c.isDigit = false := by
    by_contra digit
    rw [Bool.not_eq_false, isDigit_iff] at digit
    rw [Bool.or_eq_true, decide_eq_true_eq, isAlpha_iff, isUpper_iff, isLower_iff] at h
    rcases h with (h | h) | rfl
    · exact absurd (Char.le_trans h.1 digit.2) (by decide)
    · exact absurd (Char.le_trans h.1 digit.2) (by decide)
    · exact absurd digit.2 (by decide)
  simp [Family.of, space, hash, digit, h]

namespace Rule

/-- A lexeme starts with a character of its family. -/
theorem family_of_mem (h : c :: w ∈ rule.language) : Family.of c = rule.family := by
  cases rule with
  | blanks =>
    have separator := (mem_blanks.mp h).2 c List.mem_cons_self
    exact if_pos separator
  | comment =>
    obtain ⟨_, ⟨⟩, -⟩ := mem_comment.mp h
    rfl
  | fixed spelling kind =>
    obtain ⟨hw, listed⟩ := h
    have first := family_of_spellings _ listed
    simpa [← hw] using first
  | float =>
    obtain ⟨whole, _, _, hw, ⟨nonempty, digit⟩, -⟩ := mem_float.mp h
    obtain ⟨d, ds, rfl⟩ := List.exists_cons_of_ne_nil nonempty
    cases hw
    exact Family.of_isDigit (digit c List.mem_cons_self)
  | int => exact Family.of_isDigit ((mem_digits.mp h).2 c List.mem_cons_self)
  | doubleQuoted | singleQuoted =>
    obtain ⟨_, ⟨⟩, -⟩ := mem_between_quotes.mp h
    rfl
  | ident =>
    obtain ⟨_, _, ⟨⟩, first, -⟩ := mem_ident.mp h
    apply Family.of_word
    rcases first with lower | rfl
    · simp [isAlpha_iff, lower]
    · rfl
  | const =>
    obtain ⟨_, _, ⟨⟩, upper, -⟩ := mem_const.mp h
    apply Family.of_word
    simp [isAlpha_iff, upper]

/-- No lexeme is empty. -/
theorem ne_nil_of_mem (h : w ∈ rule.language) : w ≠ [] := by
  rintro rfl
  cases rule with
  | blanks => exact (mem_blanks.mp h).1 rfl
  | comment =>
    obtain ⟨_, ⟨⟩, -⟩ := mem_comment.mp h
  | fixed spelling kind => exact spellings_ne_nil _ h.2 h.1.symm
  | float =>
    obtain ⟨whole, _, _, hw, -⟩ := mem_float.mp h
    simp at hw
  | int => exact (mem_digits.mp h).1 rfl
  | doubleQuoted | singleQuoted =>
    obtain ⟨_, hw, -⟩ := mem_between_quotes.mp h
    cases hw
  | ident =>
    obtain ⟨_, _, ⟨⟩, -⟩ := mem_ident.mp h
  | const =>
    obtain ⟨_, _, ⟨⟩, -⟩ := mem_const.mp h

theorem family_of_start (h : w ∈ rule.language) (start : w <+: c :: cs) :
    rule.family = Family.of c := by
  cases w with
  | nil => exact absurd rfl (ne_nil_of_mem h)
  | cons d w =>
    obtain ⟨rfl, -⟩ := List.cons_prefix_cons.mp start
    exact (family_of_mem h).symm

theorem fixed_family (spelling : String) (kind : Kind) :
    (fixed spelling kind).family = .word ∨ (fixed spelling kind).family = .symbol := by
  rw [family]
  split <;> simp

theorem eq_blanks (h : rule.family = .blank) : rule = blanks := by
  cases rule with
  | blanks => rfl
  | fixed spelling kind => rcases fixed_family spelling kind with h' | h' <;> simp [h'] at h
  | _ => cases h

theorem eq_comment (h : rule.family = .comment) : rule = comment := by
  cases rule with
  | comment => rfl
  | fixed spelling kind => rcases fixed_family spelling kind with h' | h' <;> simp [h'] at h
  | _ => cases h

theorem eq_number (h : rule.family = .number) : rule = float ∨ rule = int := by
  cases rule with
  | float => exact .inl rfl
  | int => exact .inr rfl
  | fixed spelling kind => rcases fixed_family spelling kind with h' | h' <;> simp [h'] at h
  | _ => cases h

theorem eq_quoted (h : rule.family = .quoted) : rule = doubleQuoted ∨ rule = singleQuoted := by
  cases rule with
  | doubleQuoted => exact .inl rfl
  | singleQuoted => exact .inr rfl
  | fixed spelling kind => rcases fixed_family spelling kind with h' | h' <;> simp [h'] at h
  | _ => cases h

theorem eq_word (h : rule.family = .word) :
    rule = ident ∨ rule = const ∨
      ∃ spelling kind, rule = fixed spelling kind ∧ spelling ∈ keywords.map Prod.fst := by
  cases rule with
  | ident => exact .inl rfl
  | const => exact .inr (.inl rfl)
  | fixed spelling kind =>
    rw [family] at h
    split at h
    · next listed => exact .inr (.inr ⟨_, _, rfl, listed⟩)
    · cases h
  | _ => cases h

theorem eq_symbol (h : rule.family = .symbol) :
    ∃ spelling kind, rule = fixed spelling kind ∧ spelling ∉ keywords.map Prod.fst := by
  cases rule with
  | fixed spelling kind =>
    rw [family] at h
    split at h
    · cases h
    · next other => exact ⟨_, _, rfl, other⟩
  | _ => cases h

/-- To tell which rule takes a text, only the rules of one family have to be compared. -/
theorem takes_of_family {f : Family} (first : Family.of c = f) (matched : w ∈ rule.language)
    (start : w <+: c :: cs)
    (longest : ∀ (other : Rule) (v : List Char), other.family = f → v ∈ other.language →
      v <+: c :: cs → v.length ≤ w.length)
    (fixedFirst : ∀ spelling kind, (fixed spelling kind).family = f →
      w ∈ (fixed spelling kind).language → rule = fixed spelling kind) :
    rule.Takes w (c :: cs) where
  matched := matched
  start := start
  longest other v hv hs := longest other v ((family_of_start hv hs).trans first) hv hs
  fixedFirst spelling kind h :=
    fixedFirst spelling kind ((family_of_start h start).trans first) h

end Rule

/-! ### The scanner -/

/-- The class of a lexeme by what is made of it. -/
def Class.of : Option Kind → Class
  | none => .skipped
  | some kind => .token kind

/-- What a lexeme at the start of an input has to be: a piece that some rule takes and of which it
makes something, or the report that no rule matches, or that an integer is out of range. -/
inductive Scans (input : List Char) : Lexeme → Prop where
  | piece {rule : Rule} {w rest : List Char} {made : Option Kind} (cut : w ++ rest = input)
      (takes : rule.Takes w input) (makes : rule.Makes w made) : Scans input ⟨.of made, w, rest⟩
  | unmatched {w rest : List Char}
      (none : ∀ (rule : Rule) (v : List Char), v ∈ rule.language → ¬ v <+: input) :
      Scans input ⟨.unexpected, w, rest⟩
  | outOfRange {w rest : List Char} (takes : Rule.int.Takes w input)
      (large : Decimal.maxInt < Decimal.digitsValue w) : Scans input ⟨.invalidLiteral, w, rest⟩

open Rule (takes_of_family)

theorem scans_blanks (h : isSeparator c = true) (cs : List Char) :
    Scans (c :: cs) ⟨.skipped, c :: cs.takeWhile isSeparator, cs.dropWhile isSeparator⟩ := by
  have run : ∀ d ∈ c :: cs.takeWhile isSeparator, isSeparator d = true :=
    List.forall_mem_cons.mpr ⟨h, fun d hd ↦ List.mem_takeWhile_imp hd⟩
  have cut : c :: cs.takeWhile isSeparator ++ cs.dropWhile isSeparator = c :: cs := by simp
  refine .piece cut (takes_of_family (if_pos h) (Rule.mem_blanks.mpr ⟨by simp, run⟩) ⟨_, cut⟩ ?_ ?_)
    .blanks
  · intro other v family hv start
    rw [Rule.eq_blanks family] at hv
    rw [← cut] at start
    exact length_le_of_run run (head?_dropWhile _ _) (Rule.mem_blanks.mp hv).2 start
  · intro spelling kind family
    cases Rule.eq_blanks family

theorem scans_comment (cs : List Char) :
    Scans ('#' :: cs) ⟨.skipped, '#' :: cs.takeWhile (· ≠ '\n'), cs.dropWhile (· ≠ '\n')⟩ := by
  have run : ∀ d ∈ cs.takeWhile (· ≠ '\n'), decide (d ≠ '\n') = true :=
    fun d hd ↦ List.mem_takeWhile_imp (p := (· ≠ '\n')) hd
  have cut : '#' :: cs.takeWhile (· ≠ '\n') ++ cs.dropWhile (· ≠ '\n') = '#' :: cs := by simp
  have matched : '#' :: cs.takeWhile (· ≠ '\n') ∈ Rule.comment.language :=
    Rule.mem_comment.mpr ⟨_, rfl, by simpa using run⟩
  refine .piece cut (takes_of_family rfl matched ⟨_, cut⟩ ?_ ?_) .comment
  · intro other v family hv start
    rw [Rule.eq_comment family] at hv
    obtain ⟨v, rfl, plain⟩ := Rule.mem_comment.mp hv
    rw [← cut] at start
    obtain ⟨-, start⟩ := List.cons_prefix_cons.mp start
    have shorter := length_le_of_run run (head?_dropWhile _ _) (by simpa using plain) start
    simpa using shorter
  · intro spelling kind family
    cases Rule.eq_comment family

theorem scans_number (h : c.isDigit = true) (cs : List Char) :
    Scans (c :: cs) (scanNumber (c :: cs)) := by
  obtain ⟨w, rest, cut, scanned, longest⟩ := scanNumber_spec h cs
  have takes : ∀ rule : Rule, rule = .float ∨ rule = .int → w ∈ rule.language →
      rule.Takes w (c :: cs) := by
    intro rule number matched
    refine takes_of_family (Family.of_isDigit h) matched ⟨_, cut.symm⟩ ?_ ?_
    · intro other v family hv start
      refine longest v ?_ start
      rcases Rule.eq_number family with rfl | rfl
      · exact .inl (Rule.mem_float.mp hv)
      · exact .inr (mem_digits.mp hv)
    · intro spelling kind family
      rcases Rule.eq_number family with ⟨⟨⟩⟩ | ⟨⟨⟩⟩
  rcases scanned with ⟨float, scanned⟩ | ⟨digits, scanned⟩
  · obtain ⟨x, hx⟩ := Decimal.readFloat_of_isFloat float
    rw [scanned, floatKind, hx]
    exact .piece cut.symm (takes _ (.inl rfl) (Rule.mem_float.mpr float)) (.float hx)
  · have int := takes _ (.inr rfl) (mem_digits.mpr digits)
    rw [scanned, intKind, Decimal.readInt_of_isDigits digits]
    by_cases large : Decimal.maxInt < Decimal.digitsValue w
    · rw [if_pos large]
      exact .outOfRange int large
    · rw [if_neg large]
      refine .piece cut.symm int (.int (Int64.toInt_ofInt_of_le ?_ ?_))
      · omega
      · unfold Decimal.maxInt at large
        omega

theorem mem_fixed {kind : Kind} (listed : (String.ofList w, kind) ∈ spellings) :
    w ∈ (Rule.fixed (String.ofList w) kind).language :=
  ⟨String.toList_ofList.symm, listed⟩

/-- A fixed spelling is one kind of token. -/
theorem eq_fixed {spelling : String} {kind kind' : Kind}
    (listed : (String.ofList w, kind) ∈ spellings) (h : w ∈ (Rule.fixed spelling kind').language) :
    Rule.fixed (String.ofList w) kind = Rule.fixed spelling kind' := by
  obtain ⟨rfl, listed'⟩ := h
  rw [String.ofList_toList] at listed ⊢
  have same : kind = kind' := spellings_functional _ listed _ listed' rfl
  rw [same]

theorem isWordChar_of_mem (family : rule.family = .word) (h : w ∈ rule.language) :
    ∀ d ∈ w, isWordChar d = true := by
  rcases Rule.eq_word family with rfl | rfl | ⟨spelling, kind, rfl, listed⟩
  · obtain ⟨d, ds, rfl, first, run⟩ := Rule.mem_ident.mp h
    refine List.forall_mem_cons.mpr ⟨?_, run⟩
    rcases first with lower | rfl
    · simp [isWordChar, Char.isAlphanum, isAlpha_iff, lower]
    · rfl
  · obtain ⟨d, ds, rfl, upper, run⟩ := Rule.mem_const.mp h
    refine List.forall_mem_cons.mpr ⟨?_, run⟩
    simp [isWordChar, Char.isAlphanum, isAlpha_iff, upper]
  · obtain ⟨e, he, rfl⟩ := List.mem_map.mp listed
    rw [h.1]
    exact List.all_eq_true.mp (isWordChar_of_keywords e he)

theorem scans_word (h : (c.isAlpha || c = '_') = true) (cs : List Char) :
    Scans (c :: cs) (scanWord (c :: cs)) := by
  have first : isWordChar c = true := by
    rw [Bool.or_eq_true] at h
    rcases h with h | h <;> simp [isWordChar, Char.isAlphanum, h]
  have run : ∀ d ∈ c :: cs.takeWhile isWordChar, isWordChar d = true :=
    List.forall_mem_cons.mpr ⟨first, fun d hd ↦ List.mem_takeWhile_imp hd⟩
  have cut : c :: cs.takeWhile isWordChar ++ cs.dropWhile isWordChar = c :: cs := by simp
  have longest : ∀ (other : Rule) (v : List Char), other.family = .word → v ∈ other.language →
      v <+: c :: cs → v.length ≤ (c :: cs.takeWhile isWordChar).length := by
    intro other v family hv start
    rw [← cut] at start
    exact length_le_of_run run (head?_dropWhile _ _) (isWordChar_of_mem family hv) start
  rw [scanWord, List.takeWhile_cons_of_pos first, List.dropWhile_cons_of_pos first, wordKind]
  generalize cs.takeWhile isWordChar = tail at *
  cases found : keywords.lookup (String.ofList (c :: tail)) with
  | some kind =>
    obtain ⟨before, after, table, -⟩ := List.lookup_eq_some_iff.mp found
    have listed : (String.ofList (c :: tail), kind) ∈ spellings :=
      mem_spellings_of_keywords _ (by simp [table])
    exact .piece cut (takes_of_family (Family.of_word h) (mem_fixed listed) ⟨_, cut⟩ longest
      fun _ _ _ ↦ eq_fixed listed) .fixed
  | none =>
    have free : ∀ spelling kind, (Rule.fixed spelling kind).family = .word →
        c :: tail ∉ (Rule.fixed spelling kind).language := by
      rintro spelling kind family ⟨hw, listed⟩
      rcases Rule.eq_word family with ⟨⟨⟩⟩ | ⟨⟨⟩⟩ | ⟨_, _, ⟨⟩, keyword⟩
      obtain ⟨e, he, rfl⟩ := List.mem_map.mp keyword
      have other := List.lookup_eq_none_iff.mp found e he
      rw [hw, String.ofList_toList] at other
      simp at other
    have run' := (List.forall_mem_cons.mp run).2
    by_cases upper : c.isUpper = true
    · simp only [List.headD_cons, upper, if_true]
      exact .piece cut (takes_of_family (Family.of_word h)
        (Rule.mem_const.mpr ⟨c, tail, rfl, upper, run'⟩) ⟨_, cut⟩ longest
        fun _ _ family hw ↦ absurd hw (free _ _ family)) .const
    · simp only [List.headD_cons, upper]
      have lower : c.isLower = true ∨ c = '_' := by
        simpa [isAlpha_iff, upper] using h
      exact .piece cut (takes_of_family (Family.of_word h)
        (Rule.mem_ident.mpr ⟨c, tail, rfl, lower, run'⟩) ⟨_, cut⟩ longest
        fun _ _ family hw ↦ absurd hw (free _ _ family)) .ident

theorem mem_symbols {spelling : String} {kind : Kind}
    (family : (Rule.fixed spelling kind).family = .symbol)
    (listed : (spelling, kind) ∈ spellings) : (spelling.toList, kind) ∈ symbols := by
  obtain ⟨_, _, ⟨⟩, other⟩ := Rule.eq_symbol family
  rcases mem_keywords_or_symbols _ listed with keyword | symbol
  · exact absurd (List.mem_map_of_mem keyword) other
  · exact symbol

theorem scans_symbol (h : Family.of c = .symbol) (cs : List Char) :
    Scans (c :: cs) (scanSymbol c cs) := by
  rw [scanSymbol]
  cases found : symbols.find? fun e ↦ e.1.isPrefixOf (c :: cs) with
  | none =>
    refine .unmatched fun rule v hv start ↦ ?_
    have family := (Rule.family_of_start hv start).trans h
    obtain ⟨spelling, kind, rfl, -⟩ := Rule.eq_symbol family
    obtain ⟨rfl, listed⟩ := hv
    have other := List.find?_eq_none.mp found _ (mem_symbols family listed)
    exact other (by simpa using start)
  | some e =>
    obtain ⟨start, before, after, table, others⟩ := List.find?_eq_some_iff_append.mp found
    have start : e.1 <+: c :: cs := by simpa using start
    have listed : (String.ofList e.1, e.2) ∈ spellings :=
      mem_spellings_of_symbols e (by simp [table])
    refine .piece (List.prefix_iff_eq_append.mp start)
      (takes_of_family h (mem_fixed listed) start ?_ fun _ _ _ ↦ eq_fixed listed) .fixed
    -- the longer spellings come first, so what fits after the first that fits is no longer
    intro other v family hv hs
    obtain ⟨spelling, kind, rfl, -⟩ := Rule.eq_symbol family
    obtain ⟨rfl, listed⟩ := hv
    have member := mem_symbols family listed
    have sorted := symbols_sorted
    rw [table, List.mem_append, List.mem_cons] at member
    rw [table, List.pairwise_append, List.pairwise_cons] at sorted
    rcases member with member | rfl | member
    · have fits : spelling.toList.isPrefixOf (c :: cs) = true := by simpa using hs
      have misfit := others _ member
      simp [fits] at misfit
    · exact Nat.le_refl _
    · exact sorted.2.1.1 _ member

section

variable {q : Char} {body : List Char}

theorem scanBody_spec (cs : List Char) :
    Quotable q (scanBody q cs).1 ∧ (scanBody q cs).1 ++ (scanBody q cs).2 = cs := by
  fun_induction scanBody q cs with
  | case1 | case2 => exact ⟨.nil, rfl⟩
  | case3 c cs other body rest scanned ih =>
    rw [scanned] at ih
    exact ⟨.escape other ih.1, by simp [ih.2]⟩
  | case4 | case5 => exact ⟨.nil, rfl⟩
  | case6 c cs h1 h2 plain body rest scanned ih =>
    rw [scanned] at ih
    have backslash : c ≠ '\\' := by
      intro hc
      cases cs with
      | nil => exact h2 hc rfl
      | cons d cs => exact h1 d cs hc rfl
    refine ⟨.plain ?_ ih.1, by simp [ih.2]⟩
    simpa [backslash, or_assoc] using plain

/-- A text goes to the first quote that no backslash stands before. -/
theorem scanBody_append (h : Quotable q body) (hq : q ≠ '\\') (rest : List Char) :
    scanBody q (body ++ q :: rest) = (body, q :: rest) := by
  induction h with
  | nil => simp [scanBody, hq]
  | @plain c cs hc _ ih =>
    simp only [List.mem_cons, List.not_mem_nil, or_false, not_or] at hc
    rw [List.cons_append, scanBody, ih]
    · simp [hc]
    · simp [hc]
    · simp [hc]
  | @escape c cs hc _ ih =>
    rw [List.cons_append, List.cons_append, scanBody, if_neg hc, ih]

/-- The rule for texts between quotes of some kind. -/
inductive Quotes : Rule → Char → Prop where
  | double : Quotes .doubleQuoted '"'
  | single : Quotes .singleQuoted '\''

theorem Quotes.mem_iff (h : Quotes rule q) :
    w ∈ rule.language ↔ ∃ body, w = q :: body ++ [q] ∧ Quotable q body := by
  cases h <;> exact mem_between_quotes

theorem Quotes.makes (h : Quotes rule q) (body : List Char) :
    rule.Makes (q :: body ++ [q]) (some (.str (String.ofList (unescape body)))) := by
  cases h
  · exact .doubleQuoted
  · exact .singleQuoted

theorem quotes_of_family (h : rule.family = .quoted) : ∃ q, Quotes rule q := by
  rcases Rule.eq_quoted h with rfl | rfl
  · exact ⟨_, .double⟩
  · exact ⟨_, .single⟩

/-- What any rule matches at a quote is a text up to where the scanner finds the next one. -/
theorem scanBody_of_start (hq : Quotes rule q) (hv : v ∈ other.language) (start : v <+: q :: cs) :
    ∃ body rest, v = q :: body ++ [q] ∧ scanBody q cs = (body, q :: rest) := by
  have family : other.family = .quoted := by
    rw [Rule.family_of_start hv start]
    cases hq <;> rfl
  obtain ⟨q', other⟩ := quotes_of_family family
  obtain ⟨body, rfl, quotable⟩ := other.mem_iff.mp hv
  obtain ⟨rfl, rest, cut⟩ := List.cons_prefix_cons.mp start
  refine ⟨body, rest, rfl, ?_⟩
  calc scanBody q' cs = scanBody q' (body ++ q' :: rest) := by simp [← cut]
    _ = (body, q' :: rest) := scanBody_append quotable (by cases hq <;> decide) rest

theorem scans_quoted (hq : Quotes rule q) (cs : List Char) : Scans (q :: cs) (scanQuoted q cs) := by
  obtain ⟨quotable, cut⟩ := scanBody_spec (q := q) cs
  cases scanned : scanBody q cs with
  | mk body rest =>
    rw [scanned] at quotable cut
    by_cases closed : ∃ rest', rest = q :: rest'
    · obtain ⟨rest, rfl⟩ := closed
      have cut : q :: body ++ [q] ++ rest = q :: cs := by simp [← cut]
      simp only [scanQuoted, scanned, if_true]
      refine .piece cut ⟨hq.mem_iff.mpr ⟨body, rfl, quotable⟩, ⟨_, cut⟩, ?_, ?_⟩ (hq.makes body)
      · intro other v hv start
        obtain ⟨_, _, rfl, again⟩ := scanBody_of_start hq hv start
        rw [scanned] at again
        cases again
        exact Nat.le_refl _
      · intro spelling kind h
        have family := Rule.family_of_start h ⟨_, cut⟩
        cases hq <;> rcases Rule.fixed_family spelling kind with h | h <;> rw [h] at family <;>
          cases family
    · have unmatched : ∀ (rule : Rule) (v : List Char), v ∈ rule.language →
          ¬ v <+: q :: cs := by
        intro other v hv start
        obtain ⟨_, rest, -, again⟩ := scanBody_of_start hq hv start
        rw [scanned] at again
        exact closed ⟨rest, congrArg Prod.snd again⟩
      simp only [scanQuoted, scanned]
      split
      · next d rest =>
        rw [if_neg fun same ↦ closed ⟨rest, by rw [same]⟩]
        exact .unmatched unmatched
      · exact .unmatched unmatched

end

/-- The scanner finds what stands at the start of an input. -/
theorem scans_scan (c : Char) (cs : List Char) : Scans (c :: cs) (scan c cs) := by
  unfold scan
  split
  · next h => exact scans_blanks h cs
  split
  · next h =>
    rw [h]
    exact scans_comment cs
  split
  · next h => exact scans_number h cs
  split
  · next h => exact scans_word h cs
  split
  · next h =>
    rw [Bool.or_eq_true, decide_eq_true_eq, decide_eq_true_eq] at h
    rcases h with rfl | rfl
    · exact scans_quoted .double cs
    · exact scans_quoted .single cs
  · next blank hash digit word quote =>
    refine scans_symbol ?_ cs
    rw [Family.of, if_neg blank, if_neg hash, if_neg digit, if_neg word, if_neg quote]

end Formulary.Token
