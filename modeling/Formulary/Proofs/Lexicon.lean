import Formulary.Proofs.Numerals
import Mathlib.Computability.Language

/-!
# The lexical rules

Each kind of lexeme is a regular language (`Token.Rule.language`). Which rule takes which text off
the start of an input is a matter of these languages alone: the text is the longest that any rule
matches, and a fixed spelling goes before a name (`Token.Rule.Takes`).
-/

open scoped Computability

namespace Formulary.Token

/-! ### Rules -/

/-- Texts of one character of some kind. -/
def one (p : Char → Prop) : Language Char := {w | ∃ c, p c ∧ w = [c]}

/-- One of several characters. -/
def among (cs : List Char) : Language Char := one (· ∈ cs)

/-- One character other than these. -/
def outside (cs : List Char) : Language Char := one (· ∉ cs)

/-- One character of a range. -/
def between (a b : Char) : Language Char := one fun c ↦ a ≤ c ∧ c ≤ b

/-- Decimal digits, at least one. -/
def digits : Language Char := between '0' '9' * (between '0' '9')∗

/-- What a word goes on with. -/
def wordRest : Language Char :=
  (between 'a' 'z' + between 'A' 'Z' + between '0' '9' + among ['_'])∗

/-- What may stand between two quotes. -/
def quotable (quote : Char) : Language Char :=
  (outside [quote, '\\', '\n', '\r'] + among ['\\'] * outside ['\n'])∗

/-- Lexemes with a single spelling each. -/
def spellings : List (String × Kind) :=
  [("\n", .newline), ("import", .kwImport), ("if", .kwIf), ("then", .kwThen), ("else", .kwElse),
    ("for", .kwFor), ("in", .kwIn), ("nil", .kwNil), ("true", .kwTrue), ("false", .kwFalse),
    ("and", .andAnd), ("or", .orOr), ("ERR", .kwErr), ("_", .underscore), ("(", .lparen),
    (")", .rparen), ("[", .lbracket), ("]", .rbracket), ("\x7b", .lbrace), ("\x7d", .rbrace),
    (",", .comma), ("::", .doubleColon), (":", .colon), (".", .dot), ("?", .question),
    ("=", .assign), ("**", .doubleStar), ("*", .star), ("/", .slash), ("%", .percent),
    ("+", .plus), ("-", .minus), ("!", .bang), ("<", .lt), ("<=", .le), (">", .gt), (">=", .ge),
    ("==", .eqEq), ("!=", .notEq), ("&&", .andAnd), ("||", .orOr)]

/-- The rules for lexemes. -/
inductive Rule where
  | blanks | comment
  | fixed (spelling : String) (kind : Kind)
  | float | int
  | doubleQuoted | singleQuoted
  | ident | const

namespace Rule

/-- The texts that match a rule. -/
def language : Rule → Language Char
  | blanks => among [' ', '\t', '\r'] * (among [' ', '\t', '\r'])∗
  | comment => among ['#'] * (outside ['\n'])∗
  | fixed spelling kind => {w | w = spelling.toList ∧ (spelling, kind) ∈ spellings}
  | float =>
    digits * among ['.'] * digits * (1 + among ['e', 'E'] * (1 + among ['+', '-']) * digits)
  | int => digits
  | doubleQuoted => among ['"'] * quotable '"' * among ['"']
  | singleQuoted => among ['\''] * quotable '\'' * among ['\'']
  | ident => (between 'a' 'z' + among ['_']) * wordRest
  | const => between 'A' 'Z' * wordRest

/-- A rule takes a text off the start of an input: the text matches, no rule matches a longer one
there, and if it is a fixed spelling, it is taken as such. -/
structure Takes (rule : Rule) (w input : List Char) : Prop where
  matched : w ∈ rule.language
  start : w <+: input
  longest : ∀ (other : Rule) (v : List Char), v ∈ other.language → v <+: input →
    v.length ≤ w.length
  fixedFirst : ∀ spelling kind, w ∈ (fixed spelling kind).language → rule = fixed spelling kind

/-- What a rule makes of a text: nothing of blanks and comments, a token of any other. Of an integer
it makes one only if the number is in range. -/
inductive Makes : Rule → List Char → Option Kind → Prop where
  | blanks {w : List Char} : Makes .blanks w none
  | comment {w : List Char} : Makes .comment w none
  | fixed {spelling : String} {kind : Kind} {w : List Char} :
      Makes (.fixed spelling kind) w (some kind)
  | float {w : List Char} {x : Binary64} (h : Decimal.readFloat w = some x) :
      Makes .float w (some (.float x))
  | int {w : List Char} {n : Int64} (h : n.toInt = Decimal.digitsValue w) :
      Makes .int w (some (.int n))
  | doubleQuoted {body : List Char} :
      Makes .doubleQuoted ('"' :: body ++ ['"']) (some (.str (String.ofList (unescape body))))
  | singleQuoted {body : List Char} :
      Makes .singleQuoted ('\'' :: body ++ ['\'']) (some (.str (String.ofList (unescape body))))
  | ident {w : List Char} : Makes .ident w (some (.ident (String.ofList w)))
  | const {w : List Char} : Makes .const w (some (.const (String.ofList w)))

end Rule

/-! ### Texts of the languages -/

section

variable {p q : Char → Prop} {c : Char} {w : List Char} {l : Language Char}

theorem one_add_one : one p + one q = one fun c ↦ p c ∨ q c := by
  ext w
  change (∃ c, _) ∨ (∃ c, _) ↔ ∃ c, _
  simp only [or_and_right, exists_or]

theorem mem_one_mul : w ∈ one p * l ↔ ∃ c v, w = c :: v ∧ p c ∧ v ∈ l := by
  rw [Language.mem_mul]
  constructor
  · rintro ⟨_, ⟨c, hc, rfl⟩, v, hv, rfl⟩
    exact ⟨c, v, rfl, hc, hv⟩
  · rintro ⟨c, v, rfl, hc, hv⟩
    exact ⟨[c], ⟨c, hc, rfl⟩, v, hv, rfl⟩

theorem cons_mem_one_mul : c :: w ∈ one p * l ↔ p c ∧ w ∈ l := by
  rw [mem_one_mul]
  constructor
  · rintro ⟨_, _, ⟨⟩, h⟩
    exact h
  · intro h
    exact ⟨c, w, rfl, h⟩

theorem mem_one_star : w ∈ (one p)∗ ↔ ∀ c ∈ w, p c := by
  induction w with
  | nil => simp [Language.nil_mem_kstar]
  | cons c w ih =>
    rw [← Language.one_add_self_mul_kstar_eq_kstar, Language.mem_add, Language.mem_one,
      cons_mem_one_mul, ih, List.forall_mem_cons]
    simp

theorem mem_one_plus : w ∈ one p * (one p)∗ ↔ w ≠ [] ∧ ∀ c ∈ w, p c := by
  cases w with
  | nil =>
    rw [mem_one_mul]
    simp
  | cons c w =>
    rw [cons_mem_one_mul, mem_one_star]
    simp

end

/-! ### Characters and tables -/

section
variable {c q : Char} {w : List Char}

theorem isDigit_iff : c.isDigit = true ↔ '0' ≤ c ∧ c ≤ '9' := by
  simp [Char.isDigit, Char.le_def]

theorem isLower_iff : c.isLower = true ↔ 'a' ≤ c ∧ c ≤ 'z' := by
  change (decide ('a'.val ≤ c.val) && decide (c.val ≤ 'z'.val)) = true ↔ _
  simp [Char.le_def]

theorem isUpper_iff : c.isUpper = true ↔ 'A' ≤ c ∧ c ≤ 'Z' := by
  change decide ('A'.val ≤ c.val ∧ c.val ≤ 'Z'.val) = true ↔ _
  simp [Char.le_def]

theorem isAlpha_iff : c.isAlpha = true ↔ c.isUpper = true ∨ c.isLower = true := by
  change (c.isUpper || c.isLower) = true ↔ _
  simp

theorem isWordChar_iff : isWordChar c = true ↔
    ((('a' ≤ c ∧ c ≤ 'z') ∨ 'A' ≤ c ∧ c ≤ 'Z') ∨ '0' ≤ c ∧ c ≤ '9') ∨ c ∈ ['_'] := by
  rw [← isDigit_iff, ← isLower_iff, ← isUpper_iff]
  simp only [isWordChar, Char.isAlphanum, Bool.or_eq_true, decide_eq_true_eq, isAlpha_iff,
    List.mem_singleton]
  tauto

theorem isSeparator_iff : isSeparator c = true ↔ c ∈ [' ', '\t', '\r'] := by
  simp [isSeparator, or_assoc]

theorem mem_digits : w ∈ digits ↔ Decimal.IsDigits w := by
  simp only [Decimal.IsDigits, isDigit_iff]
  exact mem_one_plus

theorem mem_wordRest : w ∈ wordRest ↔ ∀ c ∈ w, isWordChar c = true := by
  simp only [isWordChar_iff]
  rw [wordRest, between, between, between, among, one_add_one, one_add_one, one_add_one]
  exact mem_one_star

/-- What may stand between two quotes: characters other than the quote, backslashes and line ends,
and backslashes with another character than a newline. -/
inductive Quotable (q : Char) : List Char → Prop where
  | nil : Quotable q []
  | plain {c : Char} {cs : List Char} (h : c ∉ [q, '\\', '\n', '\r']) (rest : Quotable q cs) :
      Quotable q (c :: cs)
  | escape {c : Char} {cs : List Char} (h : c ≠ '\n') (rest : Quotable q cs) :
      Quotable q ('\\' :: c :: cs)

theorem quotable_eq : quotable q = 1 + (outside [q, '\\', '\n', '\r'] * quotable q +
    among ['\\'] * (outside ['\n'] * quotable q)) := by
  rw [← mul_assoc, ← add_mul]
  exact (Language.one_add_self_mul_kstar_eq_kstar _).symm

theorem quotable_of_mem (h : w ∈ quotable q) : Quotable q w := by
  induction hn : w.length using Nat.strong_induction_on generalizing w with
  | _ n ih =>
    rw [quotable_eq, Language.mem_add, Language.mem_add, Language.mem_one] at h
    rcases h with rfl | h | h
    · exact .nil
    · obtain ⟨c, cs, rfl, hc, rest⟩ := mem_one_mul.mp h
      exact .plain hc (ih cs.length (by simp [← hn]) rest rfl)
    · obtain ⟨b, v, rfl, hb, h⟩ := mem_one_mul.mp h
      obtain ⟨c, cs, rfl, hc, rest⟩ := mem_one_mul.mp h
      rw [List.mem_singleton.mp hb]
      refine .escape (by simpa using hc) (ih cs.length ?_ rest rfl)
      simp only [← hn, List.length_cons]
      omega

theorem Quotable.mem (h : Quotable q w) : w ∈ quotable q := by
  induction h with
  | nil => exact Language.nil_mem_kstar _
  | plain hc _ ih =>
    rw [quotable_eq]
    exact .inr (.inl (cons_mem_one_mul.mpr ⟨hc, ih⟩))
  | escape hc _ ih =>
    rw [quotable_eq]
    exact .inr (.inr (cons_mem_one_mul.mpr ⟨by simp, cons_mem_one_mul.mpr ⟨by simpa using hc, ih⟩⟩))

namespace Rule

theorem mem_blanks : w ∈ blanks.language ↔ w ≠ [] ∧ ∀ c ∈ w, isSeparator c = true := by
  simp only [isSeparator_iff]
  exact mem_one_plus

theorem mem_comment : w ∈ comment.language ↔ ∃ cs, w = '#' :: cs ∧ ∀ c ∈ cs, c ≠ '\n' := by
  change w ∈ one _ * (one _)∗ ↔ _
  simp only [mem_one_mul, mem_one_star, List.mem_singleton]
  constructor
  · rintro ⟨_, cs, rfl, rfl, h⟩
    exact ⟨cs, rfl, h⟩
  · rintro ⟨cs, rfl, h⟩
    exact ⟨'#', cs, rfl, rfl, h⟩

theorem mem_ident : w ∈ ident.language ↔
    ∃ c cs, w = c :: cs ∧ (c.isLower = true ∨ c = '_') ∧ ∀ d ∈ cs, isWordChar d = true := by
  change w ∈ (one _ + one _) * _ ↔ _
  rw [one_add_one]
  simp only [mem_one_mul, mem_wordRest, ← isLower_iff, List.mem_singleton]

theorem mem_const : w ∈ const.language ↔
    ∃ c cs, w = c :: cs ∧ c.isUpper = true ∧ ∀ d ∈ cs, isWordChar d = true := by
  change w ∈ one _ * _ ↔ _
  simp only [mem_one_mul, mem_wordRest, ← isUpper_iff]

end Rule

/-- A text between two quotes. -/
theorem mem_between_quotes : w ∈ among [q] * quotable q * among [q] ↔
    ∃ body, w = q :: body ++ [q] ∧ Quotable q body := by
  rw [Language.mem_mul]
  constructor
  · rintro ⟨_, hb, _, ⟨d, hd, rfl⟩, rfl⟩
    obtain ⟨c, body, rfl, hc, hbody⟩ := mem_one_mul.mp hb
    rw [List.mem_singleton.mp hc, List.mem_singleton.mp hd]
    exact ⟨body, rfl, quotable_of_mem hbody⟩
  · rintro ⟨body, rfl, hbody⟩
    exact ⟨q :: body, cons_mem_one_mul.mpr ⟨by simp, hbody.mem⟩, [q], ⟨q, by simp, rfl⟩, rfl⟩

theorem mem_exponent : w ∈ 1 + among ['e', 'E'] * (1 + among ['+', '-']) * digits ↔
    Decimal.IsExponent w := by
  have signed : ∀ v, v ∈ 1 + among ['+', '-'] ↔ v = [] ∨ v = ['+'] ∨ v = ['-'] := by
    intro v
    rw [Language.mem_add, Language.mem_one]
    refine or_congr_right ?_
    change (∃ c, c ∈ ['+', '-'] ∧ v = [c]) ↔ _
    simp
  rw [Language.mem_add, Language.mem_one, mul_assoc, among, mem_one_mul]
  refine or_congr_right ?_
  constructor
  · rintro ⟨e, u, rfl, he, hu⟩
    obtain ⟨s, hs, ds, hds, rfl⟩ := Language.mem_mul.mp hu
    exact ⟨e, s, ds, rfl, by simpa using he, (signed s).mp hs, mem_digits.mp hds⟩
  · rintro ⟨e, s, ds, rfl, he, hs, hds⟩
    exact ⟨e, s ++ ds, rfl, by simpa using he,
      Language.mem_mul.mpr ⟨s, (signed s).mpr hs, ds, mem_digits.mpr hds, rfl⟩⟩

theorem Rule.mem_float : w ∈ float.language ↔ Decimal.IsFloat w := by
  rw [language, mul_assoc, mul_assoc, Language.mem_mul]
  constructor
  · rintro ⟨whole, hw, v, hv, rfl⟩
    obtain ⟨point, u, rfl, hp, hu⟩ := mem_one_mul.mp hv
    obtain ⟨fraction, hf, exponent, he, rfl⟩ := Language.mem_mul.mp hu
    rw [List.mem_singleton.mp hp]
    exact ⟨whole, fraction, exponent, rfl, mem_digits.mp hw, mem_digits.mp hf, mem_exponent.mp he⟩
  · rintro ⟨whole, fraction, exponent, rfl, hw, hf, he⟩
    exact ⟨whole, mem_digits.mpr hw, _, cons_mem_one_mul.mpr ⟨by simp,
      Language.mem_mul.mpr ⟨fraction, mem_digits.mpr hf, exponent, mem_exponent.mpr he, rfl⟩⟩, rfl⟩

end

end Formulary.Token
