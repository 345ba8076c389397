import ProviderMigration.Merge.Rule
import ProviderMigration.Migrator
import ProviderMigration.Text.Quoted

/-!
# Registry

The migrators and merge rules of a run. No two registered migrators claim each other's resource
type, so the order of registration does not matter to a lookup.
-/

namespace ProviderMigration

structure Registry where
  migrators : List Migrator := []
  rules : List MergeRule := []

instance : Inhabited Registry := ⟨{}⟩

namespace Registry

/-- Whether one of two migrators claims the type of the other. -/
def overlap (m n : Migrator) : Bool :=
  m.handles n.type || n.handles m.type

/-- Adds a migrator, unless its claim overlaps that of a registered one. -/
def register (r : Registry) (m : Migrator) : Except MigrationError Registry :=
  match r.migrators.find? (overlap · m) with
  | some other =>
    .error
      { kind := .config
        message := s!"transformer for {m.type} overlaps the one registered for {other.type}"
        operation := some "register" }
  | none => .ok { r with migrators := r.migrators ++ [m] }

def registerAll (r : Registry) (ms : List Migrator) : Except MigrationError Registry :=
  ms.foldlM register r

def addRule (r : Registry) (rule : MergeRule) : Registry :=
  { r with rules := r.rules ++ [rule] }

/-- The migrator that handles a resource type. -/
def find? (r : Registry) (type : String) : Option Migrator :=
  r.migrators.find? (·.handles type)

def isEmpty (r : Registry) : Bool :=
  r.migrators.isEmpty && r.rules.isEmpty

/-- The types in order of registration. -/
def types (r : Registry) : List String :=
  r.migrators.map (·.type)

/-- The registry on one line. -/
def summary (r : Registry) : String :=
  "Registry \x7b transformers: " ++ Text.quotedList r.types ++ ", merge_rules: " ++
    toString r.rules.length ++ " \x7d"

end Registry

end ProviderMigration
