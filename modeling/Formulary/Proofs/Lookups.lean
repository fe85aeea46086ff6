import Formulary.Proofs.Sequences
import Formulary.Proofs.StandardMethods

/-!
# Three ways to look things up

What a value holds is found by an attribute, by an index and by the method `fetch`. The three are
computed apart: an attribute of a map is looked up by its text, an index by a value, and `fetch`
fails, or falls back, where an index gives `nil`. `Access.lookups_agree` says that they find the
same things.
-/

namespace Formulary

namespace Selection

/-- An index denotes a position of a sequence. -/
def Denotes (i : Int64) (length : Nat) : Prop := 0 ≤ counted i length ∧ counted i length < length

instance (i : Int64) (length : Nat) : Decidable (Denotes i length) :=
  inferInstanceAs (Decidable (_ ∧ _))

theorem position?_eq_some {length : Nat} (short : length < 2 ^ 63) {i : Int64}
    (inside : Denotes i length) : position? i length = some (counted i length).toNat := by
  rw [position?_eq short]
  exact if_pos inside

theorem position?_eq_none {length : Nat} (short : length < 2 ^ 63) {i : Int64}
    (outside : ¬Denotes i length) : position? i length = none := by
  rw [position?_eq short]
  exact if_neg outside

end Selection

namespace Value

/-- Values that names are looked up in. -/
def LooksNamesUp : Value → Prop
  | nil | map _ | call _ _ _ | node _ | record _ _ => True
  | _ => False

/-- Entries have a key, or, if the key is a string, the symbol with the same text. -/
def HoldsKey (entries : List (Value × Value)) (key : Value) : Prop :=
  (∃ e ∈ entries, (key == e.1) = true) ∨
    ∃ text, key = str text ∧ ∃ e ∈ entries, (symbol text == e.1) = true

variable {entries : List (Value × Value)} {key : Value}

theorem isSome_get?_map : (get? (map entries) key).isSome ↔ ∃ e ∈ entries, (key == e.1) = true := by
  rw [get?, Option.isSome_map, ← hasKey, hasKey_map, Ordered.hasKey, List.any_eq_true]

/-- A string that is no key leads on to the symbol with its text, and nothing else leads on. -/
theorem isSome_lookup?_map : (lookup? (map entries) key).isSome ↔ HoldsKey entries key := by
  unfold lookup? HoldsKey
  rw [← isSome_get?_map]
  cases found : get? (map entries) key with
  | some v => simp
  | none =>
    cases key with
    | str text =>
      simp only [Option.isSome_none, Bool.false_eq_true, false_or, isSome_get?_map, str.injEq,
        exists_eq_left']
    | _ => simp

/-! ### Fetching -/

theorem send_fetch_map (args : List Value) :
    (map entries).send "fetch" args = (Method.fetchEntry (map entries) args).mapError .fault :=
  rfl

/-- What is held is fetched, whether there is a fallback or not. -/
theorem send_fetch_of_lookup? {v : Value} (held : lookup? (map entries) key = some v)
    (fallback : List Value) : (map entries).send "fetch" (key :: fallback) = .ok v := by
  simp only [send_fetch_map, Method.fetchEntry, Method.argument, List.getD_cons_zero, held]
  rfl

/-- What is not held is not fetched, and a fallback stands in for it. -/
theorem send_fetch_of_not_holdsKey (missing : ¬HoldsKey entries key) :
    (map entries).send "fetch" [key] =
        Stop.fail (.invalidIndex "Map" s!"key not found: {key.inspect}") ∧
      ∀ fallback, (map entries).send "fetch" [key, fallback] = .ok fallback := by
  rw [← isSome_lookup?_map, Option.not_isSome_iff_eq_none] at missing
  simp only [send_fetch_map, Method.fetchEntry, Method.argument, List.getD_cons_zero, missing]
  exact ⟨rfl, fun _ ↦ rfl⟩

section

variable {items : List Value} (short : items.length < 2 ^ 63) {i : Int64}

include short

theorem send_fetch_of_position {v : Value} (inside : Selection.Denotes i items.length)
    (found : items[(Selection.counted i items.length).toNat]? = some v) :
    (list items).send "fetch" [int i] = .ok v := by
  change (Method.fetchItem (list items) [int i]).mapError Stop.fault = _
  simp only [Method.fetchItem, Method.argument, List.getD_cons_zero, asInt?, Option.bind_some,
    size_list, Selection.position?_eq_some short inside, item?_list, found]
  rfl

theorem send_fetch_of_no_position (outside : ¬Selection.Denotes i items.length) :
    (list items).send "fetch" [int i] =
      Stop.fail (.invalidIndex "List" s!"index {(int i).text} out of range") := by
  change (Method.fetchItem (list items) [int i]).mapError Stop.fault = _
  simp only [Method.fetchItem, Method.argument, List.getD_cons_zero, asInt?, Option.bind_some,
    size_list, Selection.position?_eq_none short outside, Option.bind_none]
  rfl

end

end Value

/-! ### What the standard whitelist lets through -/

namespace ArgSpec

theorem accepts_any {v : Value} (present : v ≠ .nil) : any.accepts v = true := by
  cases v with
  | nil => exact absurd rfl present
  | _ => rfl

theorem accepts_any_orNil (v : Value) : any.orNil.accepts v = true := by
  cases v <;> rfl

end ArgSpec

namespace Whitelist

theorem permit_standard (v : Value) (m : Method) (args : List Value) :
    standard.permit v m.name args =
      (Rule.check m.name (standardRules m) v args).map fun _ ↦ m.name := by
  rw [permit, resolve, aliasLimit, resolveWithin, matcher?_standard]
  rfl

theorem permit_fetch_map (entries : List (Value × Value)) {key : Value} (present : key ≠ .nil)
    {fallback : List Value} (few : fallback.length ≤ 1) :
    standard.permit (.map entries) "fetch" (key :: fallback) = .ok "fetch" := by
  have first : (standardRules .fetch).find? (fun rule ↦ (Value.map entries).isA rule.receiver) =
      some ⟨"Map", [.any, ArgSpec.any.orNil]⟩ := rfl
  have fits : Rule.Fits ⟨"Map", [.any, ArgSpec.any.orNil]⟩ (key :: fallback) := by
    refine ⟨Nat.succ_le_succ few, fun i spec h ↦ ?_⟩
    cases i with
    | zero =>
      cases h
      exact ArgSpec.accepts_any present
    | succ i =>
      cases i with
      | zero =>
        cases h
        exact ArgSpec.accepts_any_orNil _
      | succ i => cases h
  have checked := (Rule.check_eq_ok_iff "fetch" _ _ _).mpr ⟨_, first, fits⟩
  rw [show "fetch" = Method.fetch.name from rfl] at checked ⊢
  rw [permit_standard, checked]
  rfl

theorem permit_fetch_list (items : List Value) (i : Int64) :
    standard.permit (.list items) "fetch" [.int i] = .ok "fetch" :=
  permit_standard (.list items) .fetch [.int i]

end Whitelist

namespace Access

variable {σ : Type} (s : Setting σ) (read : Read (Eval σ)) (cx : Context)

theorem index_map (entries : List (Value × Value)) (key : Value) :
    index s read cx (.map entries) [key] =
      pure ((Value.lookup? (.map entries) key).getD .nil) := rfl

/-- A text as an index is a name. -/
theorem index_eq_getAttr {receiver : Value} (named : receiver.LooksNamesUp) (name : String) :
    index s read cx receiver [.str name] = getAttr s read cx receiver name := by
  cases receiver with
  | nil | call _ _ _ | node _ | record _ _ => rfl
  | map entries =>
    rw [index_map, ← Value.lookupText?_eq]
    rfl
  | _ => exact named.elim

/-- What a map holds, an index gives and a method fetches. -/
theorem exists_fetched {entries : List (Value × Value)} {key : Value}
    (held : Value.HoldsKey entries key) :
    ∃ v, index s read cx (.map entries) [key] = pure v ∧
      (Value.map entries).send "fetch" [key] = .ok v ∧
      ∀ fallback, (Value.map entries).send "fetch" [key, fallback] = .ok v := by
  obtain ⟨v, found⟩ := Option.isSome_iff_exists.mp (Value.isSome_lookup?_map.mpr held)
  refine ⟨v, ?_, Value.send_fetch_of_lookup? found [],
    fun fallback ↦ Value.send_fetch_of_lookup? found [fallback]⟩
  rw [index_map, found, Option.getD_some]

/-- What stands at a position of a list, an index gives and a method fetches. -/
theorem exists_fetched_item {items : List Value} (short : items.length < 2 ^ 63) {i : Int64}
    (inside : Selection.Denotes i items.length) :
    ∃ v, index s read cx (.list items) [.int i] = pure v ∧
      (Value.list items).send "fetch" [.int i] = .ok v := by
  have position := (Int.toNat_lt inside.1).mpr inside.2
  have found := List.getElem?_eq_getElem position
  refine ⟨_, ?_, Value.send_fetch_of_position short inside found⟩
  have indexed := Sequence.index_int s read cx (q := .items items) short i
  rwa [Sequence.element, Sequence.length, if_pos inside.1, Sequence.get?, found,
    Option.getD_some] at indexed

/-- The ways to look things up agree.

On `nil`, maps, node calls, nodes and records an index that is a text computes what the attribute
with this name computes: the same value or the same fault, with the same effect on environments and
the host, whatever reading attributes does.

A map fetches a key exactly if it has the key or, where that is a string, the symbol with the same
text. Then it is what the index gives, even if that is `nil`, and no fallback is looked at; if not,
it is the fallback. A list fetches what an index gives where it denotes a position, and nothing
else. The standard whitelist lets these calls through, for keys other than `nil`. -/
theorem lookups_agree :
    (∀ receiver : Value, receiver.LooksNamesUp → ∀ name,
      index s read cx receiver [.str name] = getAttr s read cx receiver name) ∧
    (∀ entries key,
      ((∃ v, (Value.map entries).send "fetch" [key] = .ok v) ↔ Value.HoldsKey entries key) ∧
      (Value.HoldsKey entries key → ∃ v, index s read cx (.map entries) [key] = pure v ∧
        (Value.map entries).send "fetch" [key] = .ok v ∧
        ∀ fallback, (Value.map entries).send "fetch" [key, fallback] = .ok v) ∧
      (¬Value.HoldsKey entries key →
        ∀ fallback, (Value.map entries).send "fetch" [key, fallback] = .ok fallback) ∧
      (key ≠ .nil → Whitelist.standard.permit (.map entries) "fetch" [key] = .ok "fetch" ∧
        ∀ fallback, Whitelist.standard.permit (.map entries) "fetch" [key, fallback] =
          .ok "fetch")) ∧
    ∀ (items : List Value) (i : Int64), items.length < 2 ^ 63 →
      (Selection.Denotes i items.length → ∃ v, index s read cx (.list items) [.int i] = pure v ∧
        (Value.list items).send "fetch" [.int i] = .ok v) ∧
      (¬Selection.Denotes i items.length →
        ∃ reason, (Value.list items).send "fetch" [.int i] =
          Stop.fail (.invalidIndex "List" reason)) ∧
      Whitelist.standard.permit (.list items) "fetch" [.int i] = .ok "fetch" := by
  refine ⟨fun receiver ↦ index_eq_getAttr s read cx, fun entries key ↦ ⟨⟨?_, ?_⟩,
    exists_fetched s read cx, fun missing ↦ (Value.send_fetch_of_not_holdsKey missing).2,
    fun present ↦ ⟨?_, ?_⟩⟩, fun items i short ↦ ⟨exists_fetched_item s read cx short,
    fun outside ↦ ⟨_, Value.send_fetch_of_no_position short outside⟩,
    Whitelist.permit_fetch_list items i⟩⟩
  · rintro ⟨v, fetched⟩
    by_contra missing
    rw [(Value.send_fetch_of_not_holdsKey missing).1] at fetched
    cases fetched
  · intro held
    obtain ⟨v, -, fetched, -⟩ := exists_fetched s read cx held
    exact ⟨v, fetched⟩
  · exact Whitelist.permit_fetch_map entries present (Nat.zero_le 1)
  · exact fun fallback ↦ Whitelist.permit_fetch_map entries present (Nat.le_refl 1)

namespace Greeting

/-- One greeting under a symbol, and one that is `nil`. -/
def greetings : List (Value × Value) := [(.symbol "hi", .int 1), (.str "bye", .nil)]

/-- A symbol is found by its text, a `nil` that is held comes before any fallback, and only the last
of the two indices denotes a position. -/
theorem lookups_greetings :
    (Value.map greetings).LooksNamesUp ∧
    index setting Greeting.read context (.map greetings) [.str "hi"] =
      getAttr setting Greeting.read context (.map greetings) "hi" ∧
    Value.HoldsKey greetings (.str "bye") ∧
    (∃ v, index setting Greeting.read context (.map greetings) [.str "bye"] = pure v ∧
      (Value.map greetings).send "fetch" [.str "bye"] = .ok v ∧
      ∀ fallback, (Value.map greetings).send "fetch" [.str "bye", fallback] = .ok v) ∧
    (∃ reason, (Value.list [.nil]).send "fetch" [.int 1] =
      Stop.fail (.invalidIndex "List" reason)) ∧
    ∃ v, index setting Greeting.read context (.list [.nil]) [.int (-1)] = pure v ∧
      (Value.list [.nil]).send "fetch" [.int (-1)] = .ok v := by
  have held : Value.HoldsKey greetings (.str "bye") :=
    .inl ⟨(.str "bye", .nil), List.mem_cons_of_mem _ List.mem_cons_self, rfl⟩
  obtain ⟨named, ofMap, ofList⟩ := lookups_agree setting Greeting.read context
  exact ⟨trivial, named (.map greetings) trivial "hi", held,
    (ofMap greetings (.str "bye")).2.1 held, (ofList [.nil] 1 (by decide)).2.1 (by decide),
    (ofList [.nil] (-1) (by decide)).1 (by decide)⟩

end Greeting

end Access

end Formulary
