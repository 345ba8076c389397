import ProviderMigration.Error.Log
import ProviderMigration.Json.Printer

/-!
# Reports

What became of the files of a run.

* `FileReport`, `RunReport` — the data;
* `RunReport.text`, `RunReport.json` — the two forms in which a report is shown.
-/

namespace ProviderMigration

open Json (Value)

/-! ## Files -/

inductive FileKind where
  | config
  | state
deriving Repr, DecidableEq, Inhabited

def FileKind.text : FileKind → String
  | .config => "config"
  | .state => "state"

inductive FileOutcome where
  /-- The file is written anew, or would be if the run were not dry. -/
  | changed
  | unchanged
  | failed
deriving Repr, DecidableEq, Inhabited

def FileOutcome.text : FileOutcome → String
  | .changed => "changed"
  | .unchanged => "unchanged"
  | .failed => "failed"

structure ErrorEntry where
  kind : ErrorKind
  message : String
deriving Repr, DecidableEq, Inhabited

def ErrorEntry.ofError (e : MigrationError) : ErrorEntry :=
  ⟨e.kind, e.render⟩

structure FileReport where
  path : String
  kind : FileKind
  outcome : FileOutcome := .unchanged
  /-- The path of the backup that was kept. -/
  backup : Option String := none
  transformed : Nat := 0
  retyped : Nat := 0
  merged : Nat := 0
  errors : List ErrorEntry := []
  /-- The number of errors that were not stored. -/
  dropped : Nat := 0
deriving Repr, DecidableEq, Inhabited

namespace FileReport

/-- The report before another attempt. -/
def reset (r : FileReport) : FileReport :=
  { path := r.path, kind := r.kind, backup := r.backup }

/-- Marks a file as failed, with all errors of a log. -/
def fail (r : FileReport) (log : ErrorLog) : FileReport :=
  { r with outcome := .failed, errors := log.errors.map .ofError, dropped := log.dropped }

end FileReport

/-! ## Runs -/

inductive RunStatus where
  | succeeded
  /-- Some files failed and stayed as they were; the others were migrated. -/
  | completedWithErrors
  /-- A file failed, and all files were restored. -/
  | rolledBack
  /-- A file failed, and nothing was restored. -/
  | failed
deriving Repr, DecidableEq, Inhabited

namespace RunStatus

def text : RunStatus → String
  | .succeeded => "succeeded"
  | .completedWithErrors => "completed with errors"
  | .rolledBack => "rolled back"
  | .failed => "failed"

/-- The name of a status: its text with underscores for spaces. -/
def name : RunStatus → String
  | .succeeded => "succeeded"
  | .completedWithErrors => "completed_with_errors"
  | .rolledBack => "rolled_back"
  | .failed => "failed"

def all : List RunStatus :=
  [.succeeded, .completedWithErrors, .rolledBack, .failed]

def ofName? (s : String) : Option RunStatus :=
  all.find? (·.name == s)

end RunStatus

/-- The time in all reports. Times are not measured, so that equal runs have equal reports. -/
def epoch : String := "1970-01-01T00:00:00Z"

structure RunReport where
  sourceVersion : String
  targetVersion : String
  dryRun : Bool
  startedAt : String := epoch
  finishedAt : Option String := none
  status : RunStatus := .succeeded
  files : List FileReport := []
  /-- Failures to restore files or to remove backups. -/
  recoveryErrors : List ErrorEntry := []
deriving Repr, DecidableEq, Inhabited

namespace RunReport

def count (r : RunReport) (outcome : FileOutcome) : Nat :=
  r.files.countP (·.outcome == outcome)

def isSuccess (r : RunReport) : Bool :=
  r.status == .succeeded

/-- Adds the errors of a log to those of recovery. -/
def withRecoveryErrors (r : RunReport) (log : ErrorLog) : RunReport :=
  { r with recoveryErrors := r.recoveryErrors ++ log.errors.map .ofError }

/-- The report of a run that ended. -/
def finish (r : RunReport) (status : RunStatus) : RunReport :=
  { r with status := status, finishedAt := some epoch }

end RunReport

/-! ## Text -/

namespace FileReport

/-- The counters that are not zero. -/
def counters (r : FileReport) : List String :=
  [(r.transformed, "transformed"), (r.retyped, "retyped"), (r.merged, "merged")].filterMap
    fun (n, what) => if n = 0 then none else some s!"{n} {what}"

/-- The file on one line, and a line for each error. -/
def lines (r : FileReport) : List String :=
  let counters :=
    if r.counters.isEmpty then "" else " (" ++ Text.joinWith ", " r.counters ++ ")"
  let backup := (r.backup.map fun path => s!" [backup: {path}]").getD ""
  ["  " ++ Text.padRight r.outcome.text 10 ++ " " ++ r.path ++ counters ++ backup] ++
    r.errors.map (fun e => "      - " ++ e.message) ++
    if r.dropped = 0 then [] else [s!"      ... and {r.dropped} more"]

end FileReport

namespace RunReport

def heading (r : RunReport) : String :=
  s!"tfmigrate {r.sourceVersion} -> {r.targetVersion}" ++ if r.dryRun then " (dry run)" else ""

def conclusion (r : RunReport) : String :=
  r.status.text ++ s!": {r.count .changed} changed, {r.count .unchanged} unchanged, " ++
    s!"{r.count .failed} failed"

/-- The report for a reader. -/
def text (r : RunReport) : String :=
  Text.joinWith "\n" <|
    [r.heading] ++ r.files.flatMap FileReport.lines ++
      r.recoveryErrors.map (fun e => "  recovery: " ++ e.message) ++ [r.conclusion]

end RunReport

/-! ## JSON -/

def ErrorEntry.value (e : ErrorEntry) : Value :=
  .object [("kind", .string e.kind.text), ("message", .string e.message)]

/-- A member with a list of errors, unless there are none. -/
def errorMember (key : String) (errors : List ErrorEntry) : Json.Members :=
  if errors.isEmpty then [] else [(key, .array (errors.map ErrorEntry.value))]

def FileReport.value (r : FileReport) : Value :=
  .object <|
    [("path", .string r.path), ("kind", .string r.kind.text),
      ("outcome", .string r.outcome.text)] ++
    r.backup.toList.map (fun path => ("backup", .string path)) ++
    [("transformed", .int r.transformed), ("retyped", .int r.retyped), ("merged", .int r.merged)] ++
    errorMember "errors" r.errors ++
    if r.dropped = 0 then [] else [("dropped_errors", .int r.dropped)]

namespace RunReport

def value (r : RunReport) : Value :=
  .object <|
    [("source_version", .string r.sourceVersion), ("target_version", .string r.targetVersion),
      ("dry_run", .bool r.dryRun), ("started_at", .string r.startedAt),
      ("finished_at", (r.finishedAt.map Value.string).getD .null),
      ("status", .string r.status.name), ("files", .array (r.files.map FileReport.value))] ++
    errorMember "recovery_errors" r.recoveryErrors

/-- The report as a JSON document. -/
def json (r : RunReport) : String :=
  r.value.pretty

end RunReport

end ProviderMigration
