import Formulary.Proofs.Forward
import Formulary.Proofs.NamesFound
import Formulary.Registry

/-!
# Names that texts can declare

The members that a text declares have names as the lexer spells them, `[a-z_][A-Za-z0-9_]*`, and
the modules that it imports have names `[A-Z][A-Za-z0-9_]*` (`named_of_parse`). Hence the members of
every node of a program that was read from texts have such names, inherited ones included
(`Program.isName_of_slot?`).
-/

namespace Formulary

open Token (Kind)

namespace Token

/-- A lower-case letter or an underscore, and then letters, digits and underscores. -/
def isName (name : String) : Bool :=
  match name.toList with
  | [] => false
  | c :: cs => (c.isLower || c = '_') && cs.all isWordChar

/-- If a token is a name, then it is spelled as one: a lower-case name as above, and a capitalised
one as the name of a module. -/
def Kind.Spelled : Kind → Prop
  | .ident name => isName name = true
  | .const name => Registry.isModuleName name = true
  | _ => True

/-- A name among the tokens is spelled as one. -/
def Named (t : Token) : Prop := t.kind.Spelled

theorem spelled_of_keyword {word : String} {k : Kind} (h : keywords.lookup word = some k) :
    k.Spelled := by
  obtain ⟨before, after, split, -⟩ := List.lookup_eq_some_iff.mp h
  have listed : ∀ e ∈ keywords, e.2.Spelled := by simp [keywords, Kind.Spelled]
  exact listed (word, k) (by simp [split])

theorem spelled_of_scanWord {c : Char} {cs : List Char} (start : c.isAlpha = true ∨ c = '_')
    {k : Kind} (h : (scanWord (c :: cs)).type = .token k) : k.Spelled := by
  have word : isWordChar c = true := by
    rcases start with letter | rfl
    · simp [isWordChar, Char.isAlphanum, letter]
    · rfl
  simp only [scanWord, List.takeWhile_cons, word, if_true, wordKind, List.headD_cons] at h
  split at h
  · next k' found =>
    cases h
    exact spelled_of_keyword found
  · split at h
    · next upper =>
      cases h
      have rest : (cs.takeWhile isWordChar).all isWordChar = true := List.all_takeWhile
      rw [Kind.Spelled, Registry.isModuleName, String.toList_ofList]
      exact Bool.and_eq_true_iff.mpr ⟨upper, rest⟩
    · next upper =>
      have lower : c.isLower = true ∨ c = '_' := by
        refine start.imp_left fun letter ↦ ?_
        exact ((Bool.or_eq_true _ _).mp letter).resolve_left upper
      cases h
      simp [Kind.Spelled, isName, lower]

theorem spelled_of_scanNumber {cs : List Char} {k : Kind}
    (h : (scanNumber cs).type = .token k) : k.Spelled := by
  have int : ∀ chars, intKind chars = .token k → k.Spelled := by
    intro chars h
    unfold intKind at h
    split at h
    · cases h
      trivial
    · cases h
  have float : ∀ chars, floatKind chars = .token k → k.Spelled := by
    intro chars h
    unfold floatKind at h
    split at h
    · cases h
      trivial
    · cases h
  unfold scanNumber at h
  rw [apply_ite Lexeme.type, ite_eq_iff] at h
  rcases h with ⟨-, h⟩ | ⟨-, h⟩
  · exact int _ h
  · exact float _ h

theorem spelled_of_scanQuoted {quote : Char} {cs : List Char} {k : Kind}
    (h : (scanQuoted quote cs).type = .token k) : k.Spelled := by
  unfold scanQuoted at h
  dsimp only at h
  split at h
  · split at h
    · cases h
      trivial
    · cases h
  · cases h

theorem spelled_of_scanSymbol {c : Char} {cs : List Char} {k : Kind}
    (h : (scanSymbol c cs).type = .token k) : k.Spelled := by
  have listed : ∀ e ∈ symbols, e.2.Spelled := by simp [symbols, Kind.Spelled]
  unfold scanSymbol at h
  split at h
  · next spelling k' found =>
    cases h
    exact listed _ (List.mem_of_find?_eq_some found)
  · cases h

theorem spelled_of_scan {c : Char} {cs : List Char} {k : Kind}
    (h : (scan c cs).type = .token k) : k.Spelled := by
  unfold scan at h
  split at h
  · cases h
  split at h
  · cases h
  split at h
  · exact spelled_of_scanNumber h
  split at h
  · next start => exact spelled_of_scanWord (by simpa using start) h
  split at h
  · exact spelled_of_scanQuoted h
  · exact spelled_of_scanSymbol h

theorem named_end (span : Span) : Named ⟨.eof, span⟩ := trivial

/-- Names in a text are spelled as such. -/
theorem named_of_tokensFrom {fuel offset : Nat} {cs : List Char} {ts : List Token}
    (h : tokensFrom fuel offset cs = .ok ts) : ∀ t ∈ ts, t.Named := by
  induction fuel generalizing offset cs ts with
  | zero =>
    cases h
    simpa using named_end _
  | succ fuel ih =>
    cases cs with
    | nil =>
      cases h
      simpa using named_end _
    | cons c cs =>
      rw [tokensFrom] at h
      split at h
      · exact ih h
      · next kind found =>
        obtain ⟨rest, hrest, rfl⟩ := map_eq_ok h
        have first : Named ⟨kind, offset, offset + byteLength (scan c cs).chars⟩ :=
          spelled_of_scan found
        exact List.forall_mem_cons.mpr ⟨first, ih hrest⟩
      · cases h
      · cases h

end Token

/-- Members that a declaration makes, and modules that it imports, have names that are spelled as
such. -/
def Declaration.Named : Declaration → Prop
  | .formula name _ | .param name _ => Token.isName name = true
  | .imports name => Registry.isModuleName name = true
  | .node _ _ => True

namespace Reader

theorem ensures_memberLine : Ensures Token.Named Declaration.Named memberLine := by
  refine (ensures_ident _).bind fun name ⟨t, ht, hk⟩ ↦ (keeps_require _ _).bind fun _ ↦ ?_
  have named : Token.isName name = true := by
    rw [Token.Named, hk] at ht
    exact ht
  refine (keeps_eat _).bind fun _ ↦ ensures_ite ?_ ?_
  · refine keeps_atLineEnd.bind fun _ ↦ ensures_ite (ensures_pure named) ?_
    exact keeps_expression.bind fun _ ↦ ensures_pure named
  · refine keeps_atLineEnd.bind fun _ ↦ ensures_ite (ensures_expected _) ?_
    exact keeps_expression.bind fun _ ↦ ensures_pure named

theorem ensures_declaration (indented : Bool) :
    Ensures Token.Named Declaration.Named (declaration indented) := by
  refine keeps_kind.bind fun k ↦ ?_
  split
  · refine ensures_ite (ensures_refuse _) (keeps_advance.bind fun _ ↦ ?_)
    refine (ensures_const _).bind fun name ⟨t, ht, hk⟩ ↦ ensures_pure ?_
    rw [Token.Named, hk] at ht
    exact ht
  · refine ensures_ite (ensures_refuse _) ?_
    refine (keeps_const _).bind fun _ ↦ (keeps_require _ _).bind fun _ ↦ ?_
    refine keeps_atLineEnd.bind fun _ ↦ ensures_ite (ensures_pure trivial) ?_
    exact keeps_nodePath.bind fun _ ↦ ensures_pure trivial
  · exact ensures_ite ensures_memberLine (ensures_refuse _)
  · exact ensures_expected _

theorem ensures_line (lines : Lines) :
    Ensures Token.Named (fun line ↦ line.declaration.Named) (line lines) :=
  keeps_span.bind fun _ ↦ (ensures_declaration _).bind fun _ named ↦
    (keeps_spanFrom _).bind fun _ ↦ ensures_pure named

theorem ensures_linesUpTo (lines : Lines) (bound : Nat) :
    Ensures Token.Named (fun all ↦ ∀ line ∈ all, line.declaration.Named)
      (linesUpTo lines bound) := by
  have none : ∀ line ∈ ([] : List Line), line.declaration.Named := fun line h ↦ by cases h
  induction bound with
  | zero => exact ensures_pure none
  | succ bound ih =>
    refine (keeps_eat _).bind fun _ ↦ ensures_ite ih ?_
    refine keeps_kind.bind fun _ ↦ ensures_ite (ensures_pure none) ?_
    refine (ensures_line lines).bind fun first named ↦ keeps_atLineEnd.bind fun _ ↦ ?_
    have rest : Ensures Token.Named (fun all ↦ ∀ line ∈ all, line.declaration.Named)
        (do return first :: (← linesUpTo lines bound)) :=
      ih.bind fun all hall ↦ ensures_pure (List.forall_mem_cons.mpr ⟨named, hall⟩)
    exact ensures_ite rest (Keeps.bind (ensures_expected _) fun _ ↦ rest)

end Reader

/-- Members that a text declares, and modules that it imports, have names that are spelled as
such. -/
theorem named_of_parse {source module : String} {lines : List Line}
    (h : parse source module = .ok lines) : ∀ line ∈ lines, line.declaration.Named := by
  obtain ⟨tokens, c, lexed, ran⟩ := exists_run_of_parse h
  have named : ∀ t ∈ (Cursor.ofTokens tokens).ahead, t.Named := Token.named_of_tokensFrom lexed
  have script := Reader.keeps_remaining.bind (Reader.ensures_linesUpTo (Lines.ofText source))
  exact (script _ lines c named ran).2

/-! ### Programs -/

/-- A module was read from a text. -/
inductive WrittenModule.FromText : WrittenModule → Prop where
  | read {ρ : Type} {load : String → Loading ρ Module} {r r' : ρ} {source name : String}
      {classes : List ClassSignature} {lines : List Line} {sc : Scope} {o : Outline}
      (parsed : parse source name = .ok lines)
      (accepted : (Outline.ofLines name classes load lines).run.run r = (.ok (sc, o), r')) :
      FromText ⟨name, o.nodes⟩

/-- Every definition of an outline is of some kind. -/
def Outline.Every (Q : Definition → Prop) (o : Outline) : Prop :=
  ∀ n ∈ o.nodes, ∀ d ∈ n.definitions, Q d

theorem Outline.Every.note {Q : Definition → Prop} {o : Outline} (h : o.Every Q) {sc : Scope}
    {line : Line} (new : ∀ d, line.definition? sc = some d → Q d) : (o.note sc line).Every Q := by
  unfold Outline.note
  split
  · intro n hn
    rcases List.mem_append.mp hn with old | here
    · exact h n old
    · cases List.mem_singleton.mp here
      intro d hd
      cases hd
  · split
    · next d hd =>
      intro n hn
      rcases List.mem_append.mp hn with old | here
      · exact h n (List.mem_append_left _ old)
      · obtain ⟨n', hn', rfl⟩ := Option.map_eq_some_iff.mp (Option.mem_toList.mp here)
        have before := h n' (List.mem_append_right _ (Option.mem_toList.mpr hn'))
        exact List.forall_mem_append.mpr ⟨before, by simpa using new d hd⟩
    · exact h

theorem Line.isName_of_definition? {line : Line} {sc : Scope} {d : Definition}
    (named : line.declaration.Named) (h : line.definition? sc = some d) :
    Token.isName d.name = true := by
  unfold Line.definition? at h
  split at h
  · next hd =>
    cases h
    rw [hd] at named
    exact named
  · next hd =>
    cases h
    rw [hd] at named
    exact named
  · cases h
  · cases h

/-- A member that is declared in a text has a name that is spelled as such. -/
theorem WrittenModule.FromText.isName {t : WrittenModule} (h : t.FromText) :
    ∀ n ∈ t.nodes, ∀ d ∈ n.definitions, Token.isName d.name = true := by
  cases h with
  | @read _ _ _ _ _ _ _ _ _ o parsed accepted =>
    have named := named_of_parse parsed
    have every : o.Every fun d ↦ Token.isName d.name = true := by
      apply Outline.ofLines_induction_mem accepted
      · intro n hn
        cases hn
      · intro sc o line hl sc' _ before
        apply before.note
        intro d hd
        exact Line.isName_of_definition? (named line hl) hd
    exact every

/-- The members of a program that was read from texts have names that are spelled as such. -/
theorem Program.isName_of_slot? {p : Program} (h : ∀ t ∈ p.texts, t.FromText) {ref : NodeRef}
    {attr : String} {slot : Slot} (found : p.library.slot? ref attr = some slot) :
    Token.isName slot.member.name = true := by
  obtain ⟨l, defined, holds⟩ := exists_of_rel_right (p.slot?_rel ref attr) found
  obtain ⟨t, ht, n, hn, hd⟩ := exists_mem_of_definition? defined
  rw [Definition.name_of_member holds.member]
  exact (h t ht).isName n hn _ hd

end Formulary
