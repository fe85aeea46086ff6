/-!
# Insertion-ordered collections

Sets and dictionaries kept as lists in the order in which their members first came. A key that
comes again keeps its place, and its first spelling, and takes the newer value.
-/

namespace Formulary.Ordered

universe u v

variable {α : Type u} {β : Type v} [BEq α]

/-- Value stored under the first key equal to `k`. -/
@[specialize] def get? (k : α) : List (α × β) → Option β
  | [] => none
  | (k', v) :: rest => if k == k' then some v else get? k rest

/-- Whether some key is equal to `k`. -/
@[specialize] def hasKey (k : α) (entries : List (α × β)) : Bool := entries.any fun e ↦ k == e.1

/-- Stores `v` under `k`, in the place of an equal key if there is one and last otherwise. -/
@[specialize] def put (k : α) (v : β) : List (α × β) → List (α × β)
  | [] => [(k, v)]
  | (k', v') :: rest => if k == k' then (k', v) :: rest else (k', v') :: put k v rest

/-- Stores every entry of `extra`, one after the other. -/
def merge (entries extra : List (α × β)) : List (α × β) :=
  extra.foldl (fun acc e ↦ put e.1 e.2 acc) entries

/-- The dictionary that holds these entries, later ones replacing earlier values. -/
def ofEntries (entries : List (α × β)) : List (α × β) := merge [] entries

/-- Whether some element is equal to `x`. -/
@[specialize] def has (x : α) (xs : List α) : Bool := xs.any fun y ↦ x == y

/-- Adds `x` last unless an equal element is there. -/
def add (x : α) (xs : List α) : List α := if has x xs then xs else xs ++ [x]

/-- Elements of `xs`, then those of `ys` that are new, in order. -/
def union (xs ys : List α) : List α := ys.foldl (fun acc y ↦ add y acc) xs

/-- The set of these elements. -/
def ofElements (xs : List α) : List α := union [] xs

/-- Elements of `xs` that are not in `ys`. -/
def difference (xs ys : List α) : List α := xs.filter fun x ↦ !has x ys

end Formulary.Ordered
