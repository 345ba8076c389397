import ProviderMigration.Run.Job

/-!
# Runs

A run does its jobs one after the other. Every file is backed up before its job. If a job fails
under a strategy that gives up, everything that was backed up is restored.

* `Plan.runJobs` — the jobs up to the first that aborts the run;
* `Plan.conclude` — restoring, and removing backups;
* `RunConfig.run` — a whole run.
-/

namespace ProviderMigration

/-- A run under way. -/
structure Progress where
  workspace : Workspace
  recoverer : Recoverer Workspace
  /-- The reports of the files so far. -/
  files : List FileReport := []
  aborted : Bool := false

namespace Plan

/-! ## Jobs -/

/-- Saves a checkpoint for a file, if the run makes backups. -/
def checkpoint (p : Plan) (job : Job) (s : Progress) : Except MigrationError Unit × Progress :=
  if p.config.backups?.isNone then (.ok (), s)
  else
    let (result, w) := (s.recoverer.checkpoint (.ofFile job.path)).run s.workspace
    match result with
    | .ok r => (.ok (), { s with workspace := w, recoverer := r })
    | .error e => (.error e, { s with workspace := w })

/-- The backup of a file that the report shows: if backups are kept and the file changed. -/
def shownBackup (p : Plan) (job : Job) (s : JobState) : Option String :=
  if p.config.backups?.isSome && p.config.keepBackups && s.file.outcome == .changed then
    ((s.workspace.backups.entry? job.path).bind BackupEntry.backup?).map (·.text)
  else none

/-- Does a job whose file was backed up. -/
def execute (p : Plan) (job : Job) (s : Progress) (file : FileReport) : Progress :=
  let ((result, r), state) := (s.recoverer.execute (p.attempt job)).run ⟨s.workspace, file⟩
  { workspace := state.workspace
    recoverer := r
    files := s.files ++ [{ state.file with backup := p.shownBackup job state }]
    aborted := !result.isOk }

/-- Backs up a file and does its job. -/
def runJob (p : Plan) (job : Job) (s : Progress) : Progress :=
  let file : FileReport := { path := nameIn p.config.dir job.path, kind := job.kind }
  match p.checkpoint job s with
  | (.ok (), s) => p.execute job s file
  | (.error e, s) => { s with files := s.files ++ [file.fail (.single e)], aborted := true }

/-- Does jobs up to the first that aborts the run. -/
def runJobs (p : Plan) : List Job → Progress → Progress
  | [], s => s
  | job :: rest, s =>
    let s := p.runJob job s
    if s.aborted then s else p.runJobs rest s

/-! ## Conclusion -/

def start (p : Plan) (t : FileTree) : Progress where
  workspace := { tree := t, backups := { settings := p.config.backups?.getD {} } }
  recoverer := { settings := p.config.recovery }

def report (p : Plan) (files : List FileReport) : RunReport where
  sourceVersion := p.config.sourceVersion
  targetVersion := p.config.targetVersion
  dryRun := p.config.dryRun
  files := files

/-- How a run ended. -/
def statusOf (p : Plan) (s : Progress) : RunStatus :=
  if s.aborted then if p.config.backups?.isSome then .rolledBack else .failed
  else if s.files.any (·.outcome == .failed) then .completedWithErrors
  else .succeeded

/-- Restores all checkpoints of an aborted run that made backups. -/
def restore (p : Plan) (s : Progress) : Except ErrorLog Unit × Progress :=
  if s.aborted && p.config.backups?.isSome then
    let ((result, r), w) := s.recoverer.rollback.run s.workspace
    (result, { s with workspace := w, recoverer := r })
  else (.ok (), s)

/-- Removes the backups, unless they are kept. An aborted run keeps none. -/
def removeBackups (p : Plan) (s : Progress) : Except ErrorLog Unit × Progress :=
  if s.aborted || !p.config.keepBackups then
    let ((result, r), w) := s.recoverer.cleanup.run s.workspace
    (result, { s with workspace := w, recoverer := r })
  else (.ok (), s)

/-- The report with the errors of a step of recovery. -/
def recordErrors (r : RunReport) : Except ErrorLog Unit → RunReport
  | .ok () => r
  | .error log => r.withRecoveryErrors log

/-- Ends a run: the report and the file tree. -/
def conclude (p : Plan) (s : Progress) : RunReport × FileTree :=
  let (restored, t) := p.restore s
  let (removed, u) := p.removeBackups t
  let r := recordErrors (recordErrors (p.report s.files) restored) removed
  (r.finish (p.statusOf s), u.workspace.tree)

end Plan

/-! ## Runs -/

/-- Migrates the files below a directory and the state. A run that cannot start changes nothing. -/
def RunConfig.run (c : RunConfig) (table : MigratorTable) (t : FileTree) :
    Except MigrationError (RunReport × FileTree) := do
  let p ← Plan.of c table t
  return p.conclude (p.runJobs p.jobs (p.start t))

end ProviderMigration
