/-!
Maps that keep their keys in the order in which they were first inserted.
-/

namespace NamedRoutes

/-- Keys with their values, in the order of first insertion. -/
structure OrderedMap (κ : Type) (α : Type) where
  entries : List (κ × α)
  deriving Repr

namespace OrderedMap

variable {κ α : Type} [DecidableEq κ]

def empty : OrderedMap κ α := ⟨[]⟩

def get? (m : OrderedMap κ α) (key : κ) : Option α := m.entries.lookup key

def contains (m : OrderedMap κ α) (key : κ) : Bool := (m.get? key).isSome

def alterEntries (key : κ) (change : Option α → α) : List (κ × α) → List (κ × α)
  | [] => [(key, change none)]
  | (k, a) :: rest =>
      if k = key then (k, change (some a)) :: rest else (k, a) :: alterEntries key change rest

/-- Changes the value of a key, keeping its place. A new key comes last. -/
def alter (m : OrderedMap κ α) (key : κ) (change : Option α → α) : OrderedMap κ α :=
  ⟨alterEntries key change m.entries⟩

/-- Sets the value of a key, keeping its place. A new key comes last. -/
def insert (m : OrderedMap κ α) (key : κ) (value : α) : OrderedMap κ α :=
  m.alter key fun _ => value

def size (m : OrderedMap κ α) : Nat := m.entries.length

/-- The values in the order of their keys. -/
def values (m : OrderedMap κ α) : List α := m.entries.map (·.2)

end OrderedMap

end NamedRoutes
