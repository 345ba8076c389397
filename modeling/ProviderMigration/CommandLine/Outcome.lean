import ProviderMigration.CommandLine.Invocation
import ProviderMigration.Run.Outcome

/-!
# Outcomes

What comes of a command: a listing, a report with a changed file tree, or an error that stopped it
before any file was read.
-/

namespace ProviderMigration

inductive CommandOutcome where
  | listed (lines : List String)
  | migrated (report : RunReport) (format : OutputFormat) (tree : FileTree)
  | stopped (e : MigrationError)
deriving Repr, DecidableEq

namespace CommandOutcome

/-- Zero after success, one after a run with failures, two if the run did not start. -/
def exitCode : CommandOutcome → Nat
  | .listed _ => 0
  | .migrated report _ _ => if report.isSuccess then 0 else 1
  | .stopped _ => 2

/-- What is printed: a listing or a report. -/
def output : CommandOutcome → String
  | .listed lines => Text.concat (lines.map (· ++ "\n"))
  | .migrated report .text _ => report.text
  | .migrated report .json _ => report.json
  | .stopped _ => ""

/-- What is printed as an error. -/
def errorOutput : CommandOutcome → String
  | .stopped e => "Error: " ++ e.render
  | _ => ""

/-- The file tree afterwards. -/
def treeAfter (t : FileTree) : CommandOutcome → FileTree
  | .migrated _ _ tree => tree
  | _ => t

end CommandOutcome

/-- Runs a command with the migrators of a table. -/
def Command.run (table : MigratorTable) (t : FileTree) : Command → CommandOutcome
  | .list source target => .listed (table.listing source target)
  | .migrate config =>
    match config.run table t with
    | .ok (report, tree) => .migrated report config.format tree
    | .error e => .stopped e

end ProviderMigration
