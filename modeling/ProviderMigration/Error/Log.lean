import ProviderMigration.Error

/-!
# Error logs

An `ErrorLog` stores errors up to a limit and counts the rest. `ErrorLog.render` shows how many
there were and the first ten of those stored.
-/

namespace ProviderMigration

structure ErrorLog where
  limit : Nat
  errors : List MigrationError := []
  /-- The number of errors that were not stored. -/
  dropped : Nat := 0
deriving Repr, DecidableEq

namespace ErrorLog

def defaultLimit : Nat := 100

instance : Inhabited ErrorLog := ⟨{ limit := defaultLimit }⟩

/-! ## Adding -/

/-- Stores an error if there is room, else counts it. -/
def push (log : ErrorLog) (e : MigrationError) : ErrorLog :=
  if log.errors.length < log.limit then
    { log with errors := log.errors ++ [e] }
  else
    { log with dropped := log.dropped + 1 }

/-- Pushes the stored errors of another log and adds up the numbers of dropped ones. -/
def extend (log other : ErrorLog) : ErrorLog :=
  other.errors.foldl push { log with dropped := log.dropped + other.dropped }

/-- A log of the default limit with one error. -/
def single (e : MigrationError) : ErrorLog :=
  push default e

/-! ## Reading -/

/-- The number of all errors, stored or dropped. -/
def total (log : ErrorLog) : Nat :=
  log.errors.length + log.dropped

def hasErrors (log : ErrorLog) : Bool :=
  0 < log.total

/-- The value, unless there were errors. -/
def toResult {α : Type} (log : ErrorLog) (value : α) : Except ErrorLog α :=
  if log.hasErrors then .error log else .ok value

/-- How many errors are shown. -/
def shownErrors : Nat := 10

def render (log : ErrorLog) : String :=
  let shown := log.errors.take shownErrors
  let heading :=
    match log.total with
    | 0 => "no errors"
    | 1 => "1 error occurred:"
    | n => s!"{n} errors occurred:"
  let rest := log.total - shown.length
  heading ++ Text.concat (shown.map fun e => "\n  - " ++ e.render) ++
    if rest = 0 then "" else s!"\n  ... and {rest} more"

end ErrorLog

end ProviderMigration
