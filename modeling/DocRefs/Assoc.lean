/-!
# Tables in order of insertion

A finite table that lists its keys in the order in which they came. Setting a key that is there keeps its place.
-/

namespace DocRefs

/-- A table from keys to values. -/
structure Assoc (κ α : Type) where
  entries : List (κ × α) := []
deriving Repr

namespace Assoc

variable {κ α : Type} [DecidableEq κ]

/-- The table without entries. -/
def empty : Assoc κ α := ⟨[]⟩

/-- The value of a key. -/
def get? (t : Assoc κ α) (key : κ) : Option α :=
  (t.entries.find? (·.1 = key)).map (·.2)

/-- Whether a key is there. -/
def contains (t : Assoc κ α) (key : κ) : Bool :=
  t.entries.any (·.1 = key)

/-- Sets a key: in its place if it is there, else at the end. -/
def insert (t : Assoc κ α) (key : κ) (value : α) : Assoc κ α :=
  if t.contains key then ⟨t.entries.map fun e => if e.1 = key then (key, value) else e⟩
  else ⟨t.entries ++ [(key, value)]⟩

/-- Takes a key out. -/
def erase (t : Assoc κ α) (key : κ) : Assoc κ α :=
  ⟨t.entries.filter (·.1 ≠ key)⟩

/-- The keys in order. -/
def keys (t : Assoc κ α) : List κ :=
  t.entries.map (·.1)

/-- How many keys there are. -/
def size (t : Assoc κ α) : Nat :=
  t.entries.length

end Assoc

end DocRefs
