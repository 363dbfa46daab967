import TurtleLogo.Text.Case

set_option autoImplicit false

/-! # Name tables

A table from names to entries in which two spellings are one name if their lower-case forms agree.
Only the folded name is kept. -/

namespace TurtleLogo

/-- The form under which a name is kept. -/
def foldName (name : String) : String :=
  Text.lower name

/-- Replaces the entry of `key`, or adds one at the end. -/
def putEntry {α : Type} (key : String) (a : α) : List (String × α) → List (String × α)
  | [] => [(key, a)]
  | (k, b) :: rest => if k = key then (k, a) :: rest else (k, b) :: putEntry key a rest

/-- A table from folded names to entries. -/
structure NameTable (α : Type) where
  entries : List (String × α) := []

namespace NameTable

variable {α : Type}

/-- The table without entries. -/
def empty : NameTable α :=
  {}

/-- The entry of a name. -/
def get? (t : NameTable α) (name : String) : Option α :=
  t.entries.lookup (foldName name)

/-- Whether a name has an entry. -/
def contains (t : NameTable α) (name : String) : Bool :=
  (t.get? name).isSome

/-- Gives a name an entry, replacing an earlier one. -/
def insert (t : NameTable α) (name : String) (a : α) : NameTable α :=
  ⟨putEntry (foldName name) a t.entries⟩

/-- Removes the entry of a name. -/
def erase (t : NameTable α) (name : String) : NameTable α :=
  ⟨t.entries.filter fun e => e.1 != foldName name⟩

/-- The folded names in increasing order. -/
def keys (t : NameTable α) : List String :=
  (t.entries.map Prod.fst).mergeSort fun a b => decide (a ≤ b)

/-- Whether the table has no entries. -/
def isEmpty (t : NameTable α) : Bool :=
  t.entries.isEmpty

end NameTable

/-! ## What an entry looks like after a change -/

theorem lookup_putEntry {α : Type} (key k : String) (a : α) (es : List (String × α)) :
    (putEntry key a es).lookup k = if k = key then some a else es.lookup k := by
  induction es with
  | nil => simp [putEntry, List.lookup_cons]; grind
  | cons e rest ih =>
    obtain ⟨k', b⟩ := e
    simp only [putEntry]
    split <;> simp only [List.lookup_cons, ih] <;> grind

@[simp] theorem NameTable.get?_empty {α : Type} (name : String) :
    (NameTable.empty : NameTable α).get? name = none := rfl

theorem NameTable.get?_insert {α : Type} (t : NameTable α) (name other : String) (a : α) :
    (t.insert name a).get? other
      = if foldName other = foldName name then some a else t.get? other := by
  simp only [NameTable.get?, NameTable.insert, lookup_putEntry]

end TurtleLogo
