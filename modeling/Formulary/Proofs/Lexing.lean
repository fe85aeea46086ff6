import Formulary.Proofs.Reading
import Formulary.Proofs.WholeNumbers
import Formulary.Text.Blank
import Formulary.Token.Lexer
import Mathlib.Data.List.TakeWhile

/-!
# What the lexer reads

`Lexes` says that a text starts with tokens of given kinds and what is left after them, whatever
fuel and offset the lexer has. `Shows` says of a text on its own that it is read as such tokens
wherever a word or a number would end after it; so it holds of words, numbers, quoted texts, and of
lists of such texts in brackets.
-/

namespace Formulary.Token

variable {c : Char} {cs input middle rest chars : List Char} {kinds kinds' : List Kind} {k : Kind}

/-- The input starts with tokens of these kinds, after which the rest is left. -/
def Lexes (input : List Char) (kinds : List Kind) (rest : List Char) : Prop :=
  ∀ fuel offset, input.length ≤ fuel →
    ∃ tokens fuel' offset', rest.length ≤ fuel' ∧ tokens.map kind = kinds ∧
      tokensFrom fuel offset input = (tokensFrom fuel' offset' rest).map (tokens ++ ·)

theorem lexes_nil (input : List Char) : Lexes input [] input := by
  intro fuel offset enough
  refine ⟨[], fuel, offset, enough, rfl, ?_⟩
  cases tokensFrom fuel offset input <;> rfl

theorem Lexes.append (first : Lexes input kinds middle) (second : Lexes middle kinds' rest) :
    Lexes input (kinds ++ kinds') rest := by
  intro fuel offset enough
  obtain ⟨ts, fuel₁, offset₁, enough₁, hts, eq₁⟩ := first fuel offset enough
  obtain ⟨ts', fuel₂, offset₂, enough₂, hts', eq₂⟩ := second fuel₁ offset₁ enough₁
  refine ⟨ts ++ ts', fuel₂, offset₂, enough₂, by rw [List.map_append, hts, hts'], ?_⟩
  rw [eq₁, eq₂]
  cases tokensFrom fuel₂ offset₂ rest with
  | error e => rfl
  | ok tokens => simp only [Except.map, List.append_assoc]

/-- One token. -/
theorem tokensFrom_token (scanned : scan c cs = ⟨.token k, chars, rest⟩) (fuel offset : Nat) :
    tokensFrom (fuel + 1) offset (c :: cs) =
      (tokensFrom fuel (offset + byteLength chars) rest).map
        (⟨k, offset, offset + byteLength chars⟩ :: ·) := by
  rw [tokensFrom, scanned]

/-- What is skipped leaves no token. -/
theorem tokensFrom_skipped (scanned : scan c cs = ⟨.skipped, chars, rest⟩) (fuel offset : Nat) :
    tokensFrom (fuel + 1) offset (c :: cs) = tokensFrom fuel (offset + byteLength chars) rest := by
  rw [tokensFrom, scanned]

theorem lexes_token (scanned : scan c cs = ⟨.token k, chars, rest⟩)
    (shorter : rest.length ≤ cs.length) : Lexes (c :: cs) [k] rest := by
  intro fuel offset enough
  cases fuel with
  | zero => cases enough
  | succ fuel =>
    rw [List.length_cons] at enough
    exact ⟨[⟨k, offset, offset + byteLength chars⟩], fuel, offset + byteLength chars, by omega, rfl,
      tokensFrom_token scanned fuel offset⟩

theorem lexes_skipped (scanned : scan c cs = ⟨.skipped, chars, rest⟩)
    (shorter : rest.length ≤ cs.length) : Lexes (c :: cs) [] rest := by
  intro fuel offset enough
  cases fuel with
  | zero => cases enough
  | succ fuel =>
    rw [List.length_cons] at enough
    refine ⟨[], fuel, offset + byteLength chars, by omega, rfl, ?_⟩
    rw [tokensFrom_skipped scanned]
    cases tokensFrom fuel (offset + byteLength chars) rest <;> rfl

/-- A symbol of one character. -/
theorem lexes_symbol (scanned : scan c cs = ⟨.token k, [c], cs⟩) : Lexes (c :: cs) [k] cs :=
  lexes_token scanned (Nat.le_refl _)

/-- A space before something else is skipped alone. -/
theorem scan_space (other : ∀ c ∈ cs.head?, isSeparator c = false) :
    scan ' ' cs = ⟨.skipped, [' '], cs⟩ := by
  have taken : cs.takeWhile isSeparator = [] ∧ cs.dropWhile isSeparator = cs := by
    cases cs with
    | nil => exact ⟨rfl, rfl⟩
    | cons c cs =>
      have := other c rfl
      exact ⟨List.takeWhile_cons_of_neg (by simp [this]),
        List.dropWhile_cons_of_neg (by simp [this])⟩
  change (⟨.skipped, ' ' :: cs.takeWhile isSeparator, cs.dropWhile isSeparator⟩ : Lexeme) = _
  rw [taken.1, taken.2]

theorem lexes_space (other : ∀ c ∈ cs.head?, isSeparator c = false) : Lexes (' ' :: cs) [] cs :=
  lexes_skipped (scan_space other) (Nat.le_refl _)

/-! ### Words and numbers -/

/-- A text before which a word or a number ends. -/
def Breaks (rest : List Char) : Prop := ∀ c ∈ rest.head?, isWordChar c = false ∧ c ≠ '.'

theorem isDigit_of_breaks (breaks : Breaks rest) : ∀ c ∈ rest.head?, c.isDigit = false := by
  intro c hc
  have word := (breaks c hc).1
  rw [isWordChar, Bool.or_eq_false_iff, Char.isAlphanum, Bool.or_eq_false_iff] at word
  exact word.1.2

/-- What ends a run of characters of some kind is not taken with it. -/
theorem takeWhile_append_of {p : Char → Bool} (all : ∀ c ∈ cs, p c = true)
    (ends : ∀ c ∈ rest.head?, p c = false) :
    (cs ++ rest).takeWhile p = cs ∧ (cs ++ rest).dropWhile p = rest := by
  refine Text.dropWhile_of_append p rfl (List.all_eq_true.mpr all) ?_
  cases rest with
  | nil => rfl
  | cons c rest => exact ends c rfl

theorem scanWord_append (all : ∀ c ∈ cs, isWordChar c = true) (breaks : Breaks rest) :
    scanWord (cs ++ rest) = ⟨.token (wordKind cs), cs, rest⟩ := by
  have taken := takeWhile_append_of all fun c hc ↦ (breaks c hc).1
  simp only [scanWord, taken]

theorem scanNumber_append (all : ∀ c ∈ cs, c.isDigit = true) (breaks : Breaks rest) :
    scanNumber (cs ++ rest) = ⟨intKind cs, cs, rest⟩ := by
  have taken := takeWhile_append_of all (isDigit_of_breaks breaks)
  simp only [scanNumber, Decimal.readDigits, taken]
  split
  · exact absurd rfl (breaks '.' rfl).2
  · rfl

/-! ### Quoted texts -/

/-- Escaping does not use the code point of the character. -/
def isPlainlyEscaped (c : Char) : Prop := ¬['\\', 'u'] <+: Text.escapeChar c

/-- A character that is not escaped by its code point stands as it is, or as a backslash and a
letter that stands for it. -/
theorem escapeChar_cases (h : isPlainlyEscaped c) :
    (∃ d, Text.escapeChar c = ['\\', d] ∧ d ≠ '\n' ∧ unescapeChar d = c) ∨
      Text.escapeChar c = [c] ∧ c ≠ '\\' ∧ c ≠ '"' ∧ c ≠ '\n' ∧ c ≠ '\r' := by
  unfold isPlainlyEscaped at h
  unfold Text.escapeChar at h ⊢
  split_ifs at h ⊢ with quote backslash newline back tab nul printable
  · exact .inl ⟨'"', rfl, by decide, quote.symm⟩
  · exact .inl ⟨'\\', rfl, by decide, backslash.symm⟩
  · exact .inl ⟨'n', rfl, by decide, newline.symm⟩
  · exact .inl ⟨'r', rfl, by decide, back.symm⟩
  · exact .inl ⟨'t', rfl, by decide, tab.symm⟩
  · exact .inl ⟨'0', rfl, by decide, nul.symm⟩
  · exact .inr ⟨rfl, backslash, quote, newline, back⟩
  · exact absurd (List.prefix_append ['\\', 'u'] _) h

theorem scanBody_escaped (cs rest : List Char) (plainly : ∀ c ∈ cs, isPlainlyEscaped c) :
    scanBody '"' (cs.flatMap Text.escapeChar ++ '"' :: rest) =
      (cs.flatMap Text.escapeChar, '"' :: rest) := by
  induction cs with
  | nil => rfl
  | cons c cs ih =>
    have later := ih fun d hd ↦ plainly d (List.mem_cons_of_mem c hd)
    rw [List.flatMap_cons, List.append_assoc]
    rcases escapeChar_cases (plainly c List.mem_cons_self) with
      ⟨d, eq, hd, -⟩ | ⟨eq, hb, hq, hn, hr⟩
    · rw [eq]
      simp only [List.cons_append, List.nil_append, scanBody, if_neg hd, later]
    · rw [eq]
      simp only [List.cons_append, List.nil_append]
      rw [scanBody]
      · simp only [hq, hn, hr, later, decide_false, Bool.or_self, Bool.false_eq_true, if_false]
      all_goals
        intros
        simp_all

theorem unescape_escaped (cs : List Char) (plainly : ∀ c ∈ cs, isPlainlyEscaped c) :
    unescape (cs.flatMap Text.escapeChar) = cs := by
  induction cs with
  | nil => rfl
  | cons c cs ih =>
    have later := ih fun d hd ↦ plainly d (List.mem_cons_of_mem c hd)
    rw [List.flatMap_cons]
    rcases escapeChar_cases (plainly c List.mem_cons_self) with ⟨d, eq, -, hd⟩ | ⟨eq, hb, -⟩
    · rw [eq]
      simp only [List.cons_append, List.nil_append, unescape, hd, later]
    · rw [eq]
      simp only [List.cons_append, List.nil_append]
      rw [unescape, later]
      intros
      simp_all

/-! ### Texts on their own -/

/-- The text is read as tokens of these kinds wherever a word or a number would end after it. It
starts with no space. -/
structure Shows (text : List Char) (kinds : List Kind) : Prop where
  lexes : ∀ rest, Breaks rest → Lexes (text ++ rest) kinds rest
  starts : ∃ c cs, text = c :: cs ∧ isSeparator c = false

theorem Shows.head (h : Shows input kinds) (rest : List Char) :
    ∀ c ∈ (input ++ rest).head?, isSeparator c = false := by
  obtain ⟨c, cs, rfl, other⟩ := h.starts
  rintro _ ⟨⟩
  exact other

theorem shows_word (word : ∀ rest, scan c (cs ++ rest) = scanWord (c :: cs ++ rest))
    (all : (c :: cs).all isWordChar = true) (other : isSeparator c = false) :
    Shows (c :: cs) [wordKind (c :: cs)] := by
  refine ⟨fun rest breaks ↦ ?_, c, cs, rfl, other⟩
  have scanned : scan c (cs ++ rest) = ⟨.token (wordKind (c :: cs)), c :: cs, rest⟩ := by
    rw [word, scanWord_append (List.all_eq_true.mp all) breaks]
  exact lexes_token scanned (by simp)

/-- The digits of a number. -/
theorem shows_int {n : Nat} (h : (n : Int) ≤ Decimal.maxInt) :
    Shows (Nat.toDigits 10 n) [.int (Int64.ofInt n)] := by
  have digit : ∀ c ∈ Nat.toDigits 10 n, c.isDigit = true := fun c hc ↦
    Nat.isDigit_of_mem_toDigits (by omega) (by omega) hc
  have isInt : intKind (Nat.toDigits 10 n) = .token (.int (Int64.ofInt n)) := by
    rw [intKind, Decimal.readInt_toDigits h]
  obtain ⟨c, cs, eq⟩ := List.exists_cons_of_ne_nil (Nat.toDigits_ne_nil (b := 10) (n := n))
  rw [eq] at digit isInt ⊢
  have first := digit c List.mem_cons_self
  have other : isSeparator c = false := by
    unfold isSeparator
    simp only [Bool.or_eq_false_iff, decide_eq_false_iff_not]
    refine ⟨⟨?_, ?_⟩, ?_⟩ <;> rintro rfl <;> cases first
  refine ⟨fun rest breaks ↦ ?_, c, cs, rfl, other⟩
  have scanned : scan c (cs ++ rest) = ⟨.token (.int (Int64.ofInt n)), c :: cs, rest⟩ := by
    rw [scan, other, if_neg (by simp), if_neg (by rintro rfl; cases first), if_pos first,
      ← List.cons_append, scanNumber_append digit breaks, isInt]
  exact lexes_token scanned (by simp)

theorem shows_negated (h : Shows input kinds) : Shows ('-' :: input) (.minus :: kinds) :=
  ⟨fun rest breaks ↦ (lexes_symbol rfl).append (h.lexes rest breaks), '-', input, rfl, rfl⟩

/-- A text between double quotes. -/
theorem shows_quoted (cs : List Char) (plainly : ∀ c ∈ cs, isPlainlyEscaped c) :
    Shows (Text.quoteChars cs) [.str (String.ofList cs)] := by
  refine ⟨fun rest _ ↦ ?_, '"', _, rfl, rfl⟩
  have scanned : scan '"' (cs.flatMap Text.escapeChar ++ '"' :: rest) =
      ⟨.token (.str (String.ofList cs)), '"' :: cs.flatMap Text.escapeChar ++ ['"'], rest⟩ := by
    change scanQuoted '"' _ = _
    simp only [scanQuoted, scanBody_escaped cs rest plainly, unescape_escaped cs plainly, if_pos]
  rw [Text.quoteChars, List.append_assoc]
  apply lexes_token scanned
  simp only [List.length_append, List.length_cons]
  omega

theorem intercalate_cons (sep text : List Char) (texts : List (List Char)) :
    sep.intercalate (text :: texts) = text ++ texts.flatMap (sep ++ ·) := by
  induction texts generalizing text with
  | nil => simp
  | cons next texts ih => simp [ih]

/-- A comma breaks as well. -/
theorem breaks_texts (texts : List (List Char)) (breaks : Breaks rest) :
    Breaks (texts.flatMap ([',', ' '] ++ ·) ++ rest) := by
  cases texts with
  | nil => exact breaks
  | cons text texts =>
    rintro _ ⟨⟩
    decide

/-- Texts with commas and spaces before each of them. -/
theorem lexes_following {texts : List (List Char)} {pieces : List (List Kind)}
    (h : List.Forall₂ Shows texts pieces) (breaks : Breaks rest) :
    Lexes (texts.flatMap ([',', ' '] ++ ·) ++ rest) (following false pieces) rest := by
  induction h with
  | nil => exact lexes_nil rest
  | @cons text piece texts pieces shows _ later =>
    simp only [List.flatMap_cons, following, List.append_assoc, List.cons_append, List.nil_append]
    exact (lexes_symbol rfl).append ((lexes_space (shows.head _)).append
      ((shows.lexes _ (breaks_texts texts breaks)).append later))

/-- Texts with commas and spaces between them are read as a list, up to the closing bracket. -/
theorem lexes_separated {texts : List (List Char)} {pieces : List (List Kind)}
    (h : List.Forall₂ Shows texts pieces) (breaks : Breaks rest) :
    Lexes ([',', ' '].intercalate texts ++ rest) (separated false pieces) rest := by
  cases h with
  | nil => exact lexes_nil rest
  | @cons text piece texts pieces shows later =>
    rw [intercalate_cons, List.append_assoc]
    exact (shows.lexes _ (breaks_texts texts breaks)).append (lexes_following later breaks)

/-- A list of texts in brackets. -/
theorem shows_bracketed (opening closing : Char) {texts : List (List Char)}
    {pieces : List (List Kind)} {k k' : Kind} (h : List.Forall₂ Shows texts pieces)
    (opens : ∀ cs, scan opening cs = ⟨.token k, [opening], cs⟩)
    (closes : ∀ cs, scan closing cs = ⟨.token k', [closing], cs⟩)
    (breaks : isWordChar closing = false ∧ closing ≠ '.') (other : isSeparator opening = false) :
    Shows (opening :: [',', ' '].intercalate texts ++ [closing])
      (k :: separated false pieces ++ [k']) := by
  refine ⟨fun rest _ ↦ ?_, opening, _, rfl, other⟩
  have ends : Breaks (closing :: rest) := by
    rintro _ ⟨⟩
    exact breaks
  rw [List.append_assoc, List.cons_append]
  exact (lexes_symbol (opens _)).append
    ((lexes_separated h ends).append (lexes_symbol (closes rest)))

/-- A key with its value. -/
theorem shows_entry {key value : List Char} {kinds kinds' : List Kind} (hk : Shows key kinds)
    (hv : Shows value kinds') : Shows (key ++ [':', ' '] ++ value) (kinds ++ .colon :: kinds') := by
  obtain ⟨c, cs, rfl, other⟩ := hk.starts
  refine ⟨fun rest breaks ↦ ?_, c, _, rfl, other⟩
  have ends : Breaks (':' :: ' ' :: (value ++ rest)) := by
    rintro _ ⟨⟩
    decide
  have colon : scan ':' (' ' :: (value ++ rest)) =
      ⟨.token .colon, [':'], ' ' :: (value ++ rest)⟩ := rfl
  simp only [List.append_assoc]
  exact (hk.lexes _ ends).append ((lexes_symbol colon).append
    ((lexes_space (hv.head rest)).append (hv.lexes rest breaks)))

end Formulary.Token
