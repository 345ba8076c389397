import ProviderMigration.Recovery.Backup
import ProviderMigration.Text.Quoted

/-!
# Recovery

A `Recoverer` runs pieces of work, retries them as its strategy says, and keeps checkpoints from
which an earlier state can be restored.

* `Recoverer.checkpoint` — saves something that can be restored;
* `Recoverer.execute` — runs work under the strategy and the time limit;
* `Recoverer.rollback`, `Recoverer.cleanup` — restore or give up the checkpoints.

Times are in milliseconds.
-/

namespace ProviderMigration

/-! ## Strategies -/

/-- How often work is tried, and how long to wait in between. -/
structure RetryPolicy where
  maxAttempts : Nat
  initialDelay : Nat
  /-- What the delay is multiplied with after each attempt; it never shrinks. -/
  multiplier : Rat := 2
  maxDelay : Nat := 10000
deriving Repr, DecidableEq, Inhabited

inductive RecoveryStrategy where
  | failFast
  | continueOnError
  | retry (policy : RetryPolicy)
deriving Repr, DecidableEq, Inhabited

structure RecoverySettings where
  strategy : RecoveryStrategy := .failFast
  /-- How long the work may take, all attempts together. -/
  timeout : Option Nat := none
deriving Repr, DecidableEq, Inhabited

/-! ## Deadlines -/

/-- The time that is left, if it is limited. Work itself takes no time, only waiting does. -/
structure Deadline where
  left : Option Rat := none
deriving Repr, DecidableEq, Inhabited

namespace Deadline

def isExpired (d : Deadline) : Bool :=
  d.left.any (· ≤ 0)

/-- Whether there is no time left after a delay. -/
def endsWithin (d : Deadline) (delay : Rat) : Bool :=
  d.left.any (· ≤ delay)

def after (d : Deadline) (delay : Rat) : Deadline :=
  ⟨d.left.map (· - delay)⟩

/-- Fails if the deadline has expired. -/
def check (d : Deadline) (operation : String) : Except MigrationError Unit :=
  if d.isExpired then
    .error
      { kind := .file, message := "deadline exceeded", operation := some operation
        recoverable := false }
  else .ok ()

end Deadline

/-! ## Attempts -/

namespace RetryPolicy

def nextDelay (p : RetryPolicy) (delay : Rat) : Rat :=
  let next := if p.multiplier ≤ 1 then delay else delay * p.multiplier
  if next ≤ p.maxDelay then next else p.maxDelay

/-- Tries work once, and up to `more` times again while it fails with a recoverable error and the
deadline leaves time for the delay. -/
def attempts {σ : Type} (p : RetryPolicy) (work : Deadline → Action σ Unit) (d : Deadline)
    (delay : Rat) : Nat → Action σ Unit
  | 0 => work d
  | more + 1 =>
    tryCatch (work d) fun e =>
      if !e.recoverable || d.endsWithin delay then throw e
      else p.attempts work (d.after delay) (p.nextDelay delay) more

end RetryPolicy

namespace RecoveryStrategy

/-- Runs work as the strategy says. -/
def run {σ : Type} (work : Deadline → Action σ Unit) (d : Deadline) :
    RecoveryStrategy → Action σ Unit
  | .failFast => work d
  | .continueOnError => tryCatch (work d) fun _ => pure ()
  | .retry policy => policy.attempts work d policy.initialDelay (policy.maxAttempts - 1)

end RecoveryStrategy

/-! ## Checkpoints -/

/-- Something that was saved. Each of its actions may be missing. -/
structure Checkpoint (σ : Type) where
  name : String
  save : Option (Action σ Unit) := none
  restore : Option (Action σ Unit) := none
  cleanup : Option (Action σ Unit) := none

namespace Checkpoint

variable {σ : Type}

/-- The checkpoint on one line. -/
def summary (c : Checkpoint σ) : String :=
  let field (name : String) (action : Option (Action σ Unit)) : String :=
    ", " ++ name ++ ": " ++ toString action.isSome
  "RecoveryPoint \x7b name: " ++ Text.quoted c.name ++ field "save" c.save ++
    field "restore" c.restore ++ field "cleanup" c.cleanup ++ " \x7d"

/-- An action of the checkpoint, whose error tells the name of the checkpoint. -/
def named (c : Checkpoint σ) (a : Action σ Unit) : Action σ Unit :=
  a.mapError (·.withContext "checkpoint" c.name)

/-- Runs the action that saves. -/
def runSave (c : Checkpoint σ) : Action σ Unit :=
  match c.save with
  | some save => save.mapError fun e =>
      { e with operation := e.operation <|> some ("checkpoint " ++ c.name) }
  | none => pure ()

/-- A checkpoint for a file: saving backs it up, and cleaning up discards the backup. -/
def ofFile (p : Path) : Checkpoint Workspace where
  name := "backup " ++ p.text
  save := some do let _ ← Workspace.backup p
  restore := some (Workspace.restore p)
  cleanup := some (Workspace.discard p)

end Checkpoint

/-! ## Recoverers -/

inductive RecoveryStatus where
  | idle
  | succeeded
  | failed
  | rolledBack
deriving Repr, DecidableEq, Inhabited

def RecoveryStatus.text : RecoveryStatus → String
  | .idle => "idle"
  | .succeeded => "succeeded"
  | .failed => "failed"
  | .rolledBack => "rolled_back"

structure Recoverer (σ : Type) where
  settings : RecoverySettings := {}
  checkpoints : List (Checkpoint σ) := []
  status : RecoveryStatus := .idle

namespace Recoverer

variable {σ : Type}

/-- Saves a checkpoint. It is kept if saving succeeds. -/
def checkpoint (r : Recoverer σ) (c : Checkpoint σ) : Action σ (Recoverer σ) := do
  c.runSave
  return { r with checkpoints := r.checkpoints ++ [c] }

def deadline (r : Recoverer σ) : Deadline :=
  ⟨r.settings.timeout.map fun ms => ms⟩

/-- Runs work, which may have a state of its own, and notes how it ended. -/
def execute {τ : Type} (r : Recoverer σ) (work : Deadline → Action τ Unit) :
    StateM τ (Except MigrationError Unit × Recoverer σ) := do
  let result ← (r.settings.strategy.run work r.deadline).run
  return (result, { r with status := if result.isOk then .succeeded else .failed })

/-- Restores all checkpoints, the last one first. -/
def rollback (r : Recoverer σ) : StateM σ (Except ErrorLog Unit × Recoverer σ) := do
  let restores := r.checkpoints.reverse.filterMap fun c => c.restore.map c.named
  let log ← Action.runAll default restores
  return (log.toResult (), { r with status := .rolledBack })

/-- Cleans up all checkpoints and forgets them. -/
def cleanup (r : Recoverer σ) : StateM σ (Except ErrorLog Unit × Recoverer σ) := do
  let cleanups := r.checkpoints.filterMap fun c => c.cleanup.map c.named
  let log ← Action.runAll default cleanups
  return (log.toResult (), { r with checkpoints := [] })

end Recoverer

end ProviderMigration
