/-!
# Sorted maps

Finite maps as lists of entries with ascending keys, at most one entry a key. Two maps with the
same entries are the same list, whatever the order of insertion.
-/

namespace ProviderMigration

/-- The entries of a finite map, in ascending order of keys. -/
abbrev SortedMap (κ α : Type) := List (κ × α)

namespace SortedMap

variable {κ α : Type} [Ord κ]

/-- Sets the value of a key. -/
def insert (m : SortedMap κ α) (key : κ) (value : α) : SortedMap κ α :=
  match m with
  | [] => [(key, value)]
  | entry :: rest =>
    match compare key entry.1 with
    | .lt => (key, value) :: entry :: rest
    | .eq => (key, value) :: rest
    | .gt => entry :: insert rest key value

def get? (m : SortedMap κ α) (key : κ) : Option α :=
  (m.find? fun entry => compare key entry.1 == .eq).map (·.2)

/-- The map without a key. -/
def erase (m : SortedMap κ α) (key : κ) : SortedMap κ α :=
  m.filter fun entry => compare key entry.1 != .eq

def has (m : SortedMap κ α) (key : κ) : Bool :=
  (get? m key).isSome

/-- The entries inserted one after the other: the last entry of a key counts. -/
def ofList (entries : List (κ × α)) : SortedMap κ α :=
  entries.foldl (fun m entry => insert m entry.1 entry.2) []

end SortedMap

end ProviderMigration
