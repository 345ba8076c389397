import ProviderMigration.Recovery.Recoverer

/-!
# Run configurations

Everything that is chosen for a run: which files, between which versions, and what to do about
backups and failures.
-/

namespace ProviderMigration

/-- The form in which a report is shown. -/
inductive OutputFormat where
  | text
  | json
deriving Repr, DecidableEq, Inhabited

def OutputFormat.name : OutputFormat → String
  | .text => "text"
  | .json => "json"

structure RunConfig where
  /-- The directory of the configuration files. -/
  dir : Path := ⟨"."⟩
  stateFile : Option Path := none
  sourceVersion : String := "v4"
  targetVersion : String := "v5"
  /-- The resource types to migrate; if there are none, all types. -/
  resources : List String := []
  /-- Whether files stay as they are. -/
  dryRun : Bool := false
  /-- The backups to make, if any. -/
  backup : Option BackupSettings := some {}
  /-- Whether backups stay after a run that was not aborted. -/
  keepBackups : Bool := false
  maxErrors : Nat := 100
  merge : Bool := true
  movedBlocks : Bool := false
  recovery : RecoverySettings := {}
  format : OutputFormat := .text
deriving Repr, DecidableEq, Inhabited

namespace RunConfig

/-- The settings of the backups that the run makes. A dry run makes none. -/
def backups? (c : RunConfig) : Option BackupSettings :=
  if c.dryRun then none else c.backup

end RunConfig

end ProviderMigration
