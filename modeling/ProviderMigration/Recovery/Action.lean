import ProviderMigration.Error.Log

/-!
# Actions

An action changes a state and may fail. What it did to the state before it failed stays done.
-/

namespace ProviderMigration

abbrev Action (σ α : Type) := ExceptT MigrationError (StateM σ) α

namespace Action

variable {σ : Type}

/-- Runs an action and adds its error, if it fails, to a log. -/
def logInto (log : ErrorLog) (a : Action σ Unit) : StateM σ ErrorLog := do
  match ← a.run with
  | .ok () => return log
  | .error e => return log.push e

/-- Runs all actions, whichever of them fail, and adds their errors to a log. -/
def runAll (log : ErrorLog) : List (Action σ Unit) → StateM σ ErrorLog
  | [] => return log
  | a :: rest => do runAll (← logInto log a) rest

/-- The action, with `f` applied to the error. -/
def mapError (f : MigrationError → MigrationError) (a : Action σ Unit) : Action σ Unit :=
  a.adapt f

end Action

end ProviderMigration
