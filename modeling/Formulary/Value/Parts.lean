import Formulary.Ordered
import Formulary.Value.Sharing

/-!
# Parts of collections

How the parts of a collection are read: the items of a list and the characters of a text by
position, the members of a set, the entries of a map by key and the fields of a record by name.
Each reading goes by the value's index and gives what a look at all the parts would give.
-/

namespace Formulary.Value

/-- An entry as a list of its key and its value. -/
def ofEntry (entry : Value × Value) : Value := .list [entry.1, entry.2]

/-- How many parts a collection has, or characters a text. -/
def size : Value → Nat
  | str s => s.length
  | list items => (list items).index.size items
  | set items => (set items).index.size items
  | map entries => (map entries).index.size entries
  | record type fields => (record type fields).index.size fields
  | _ => 0

/-- The item of a list at a position. -/
def item? (v : Value) (i : Nat) : Option Value :=
  match v with
  | list items => (list items).index.item? items i
  | _ => none

/-- The items of a list from a position on, `count` of them if there are as many. -/
def part (v : Value) (start count : Nat) : List Value :=
  match v with
  | list items => (list items).index.part items start count
  | _ => []

/-- The text of a text's characters from a position on, `count` of them if there are as many. -/
def textPart (v : Value) (start count : Nat) : String :=
  match v with
  | str s => (str s).index.textPart s start count
  | _ => ""

/-- The last item of a list; `nil` if there is none. -/
def last : Value → Value
  | list items => (list items).index.lastD items nil
  | _ => nil

/-- Whether a set has a member. -/
def hasMember (v x : Value) : Bool :=
  match v with
  | set items => ((set items).index.membersLike items x.hashCode).any fun y ↦ x == y
  | _ => false

/-- The first entry of a map whose key fits, where all keys that fit have this code. -/
def entryWith? (v : Value) (code : UInt64) (fits : Value → Bool) : Option (Value × Value) :=
  match v with
  | map entries => ((map entries).index.entriesLike entries code).find? fun e ↦ fits e.1
  | _ => none

/-- The entry of a map under a key. -/
def entryAt? (v k : Value) : Option (Value × Value) := v.entryWith? k.hashCode (k == ·)

/-- The value of a map under a key. -/
def get? (v k : Value) : Option Value := (v.entryAt? k).map Prod.snd

/-- Whether a map has a key. -/
def hasKey (v k : Value) : Bool := (v.entryAt? k).isSome

/-- The field of a record with a given name. -/
def field? (v : Value) (name : String) : Option Value :=
  match v with
  | record type fields =>
    (((record type fields).index.fieldsLike fields name).find? fun e ↦ name == e.1).map Prod.snd
  | _ => none

/-! ### What the readings mean -/

@[simp] theorem size_str (s : String) : size (str s) = s.length := rfl

@[simp] theorem size_list (items : List Value) : size (list items) = items.length := by
  simp [size, index]

@[simp] theorem size_set (items : List Value) : size (set items) = items.length := by
  simp [size, index]

@[simp] theorem size_map (entries : List (Value × Value)) :
    size (map entries) = entries.length := by
  simp [size, index]

@[simp] theorem size_record (type : String) (fields : List (String × Value)) :
    size (record type fields) = fields.length := by
  simp [size, index]

@[simp] theorem item?_list (items : List Value) (i : Nat) : item? (list items) i = items[i]? := by
  simp [item?, index]

@[simp] theorem part_list (items : List Value) (start count : Nat) :
    part (list items) start count = (items.drop start).take count := by
  simp [part, index]

@[simp] theorem textPart_str (s : String) (start count : Nat) :
    textPart (str s) start count = Text.part s start count := by
  simp [textPart, index]

@[simp] theorem last_list (items : List Value) : last (list items) = items.getLastD nil := by
  simp [last, index]

/-- A set has the members that are found by a look at all. -/
@[simp] theorem hasMember_set (items : List Value) (x : Value) :
    hasMember (set items) x = Ordered.has x items := by
  simp only [hasMember, beq_eq_equal, Ordered.has]
  exact any_membersLike items x

theorem entryWith?_map (entries : List (Value × Value)) {code : UInt64} {fits : Value → Bool}
    (h : ∀ k, fits k = true → k.hashCode = code) :
    entryWith? (map entries) code fits = entries.find? fun e ↦ fits e.1 := by
  rw [entryWith?, index]
  exact Index.find?_entriesLike _ _ _ _ fun e ↦ h e.1

@[simp] theorem entryAt?_map (entries : List (Value × Value)) (k : Value) :
    entryAt? (map entries) k = entries.find? fun e ↦ k == e.1 :=
  entryWith?_map entries fun key h ↦
    (hashCode_eq_of_equal k key (by rwa [beq_eq_equal] at h)).symm

/-- A map has under a key what is found by a look at all entries. -/
@[simp] theorem get?_map (entries : List (Value × Value)) (k : Value) :
    get? (map entries) k = Ordered.get? k entries := by
  rw [get?, entryAt?_map]
  induction entries with
  | nil => rfl
  | cons e rest ih =>
    rw [List.find?_cons, Ordered.get?]
    cases k == e.1 with
    | true => rfl
    | false => exact ih

@[simp] theorem hasKey_map (entries : List (Value × Value)) (k : Value) :
    hasKey (map entries) k = Ordered.hasKey k entries := by
  rw [hasKey, entryAt?_map, Ordered.hasKey, Bool.eq_iff_iff, List.find?_isSome, List.any_eq_true]

/-- A record has the fields that are found by a look at all. -/
@[simp] theorem field?_record (type : String) (fields : List (String × Value)) (name : String) :
    field? (record type fields) name = fields.lookup name := by
  simp only [field?, index]
  rw [Index.find?_fieldsLike _ _ _ fun e h ↦ (beq_iff_eq.mp h).symm]
  induction fields with
  | nil => rfl
  | cons e rest ih =>
    rw [List.find?_cons, List.lookup_cons]
    cases name == e.1 with
    | true => rfl
    | false => exact ih

end Formulary.Value
