import ProviderMigration.Registry

/-!
# Engine

A registry with the settings of a run.
-/

namespace ProviderMigration

structure Engine where
  registry : Registry
  /-- How many errors of a file are stored. -/
  maxErrors : Nat := 100
  /-- Whether the merge rules apply. -/
  merge : Bool := true

namespace Engine

/-- An engine that stores at least one error of a file. -/
def of (registry : Registry) (maxErrors : Nat) (merge : Bool) : Engine :=
  ⟨registry, max maxErrors 1, merge⟩

/-- The rules that apply. -/
def rules (e : Engine) : List MergeRule :=
  if e.merge then e.registry.rules else []

end Engine

end ProviderMigration
