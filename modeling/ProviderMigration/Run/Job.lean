import ProviderMigration.File.Discovery
import ProviderMigration.Hcl.Parser.Body
import ProviderMigration.Migration.Config
import ProviderMigration.Migration.State
import ProviderMigration.Run.Config
import ProviderMigration.Run.Report
import ProviderMigration.Table

/-!
# Jobs

A job is one file of a run: it is read, migrated, and written if it changed.

* `Plan` — what is fixed before the first job starts;
* `Plan.attempt` — one attempt at a job;
* `summarize` — one error for all errors of a file.
-/

namespace ProviderMigration

structure Job where
  path : Path
  kind : FileKind
deriving Repr, DecidableEq, Inhabited

/-! ## Plans -/

structure Plan where
  config : RunConfig
  engine : Engine
  context : Context
  jobs : List Job

namespace Plan

/-- The name of a file in reports and in the context: its path inside the directory of the run. -/
def nameIn (dir : Path) (p : Path) : String :=
  (p.relativeTo dir).text

/-- The body of a configuration file that can be read and parsed. -/
def body? (t : FileTree) (p : Path) : Option Hcl.Body := do
  let source ← (Text.decode (← (t.read p).toOption)).toOption
  (Hcl.parseBody source).toOption

/-- The state before the run, if it can be read and parsed. -/
def state? (t : FileTree) (p : Path) : Option Json.Value := do
  (Json.Value.parse (← (t.read p).toOption)).toOption

/-- What the migrators may consult: the state and the configuration files before the run. -/
def contextOf (c : RunConfig) (t : FileTree) (files : List Path) : Context where
  sourceVersion := c.sourceVersion
  targetVersion := c.targetVersion
  movedBlocks := c.movedBlocks
  state := c.stateFile.bind (state? t)
  files := .ofList (files.filterMap fun p => (body? t p).map fun body => (nameIn c.dir p, body))

/-- The configuration files in order, then the state. -/
def jobsOf (c : RunConfig) (files : List Path) : List Job :=
  files.map (⟨·, .config⟩) ++ c.stateFile.toList.map (⟨·, .state⟩)

/-- The plan of a run. There is none if no migrators are registered for its versions, or if its
directory cannot be searched. -/
def of (c : RunConfig) (table : MigratorTable) (t : FileTree) : Except MigrationError Plan := do
  let registry ← table.registry? c.sourceVersion c.targetVersion c.resources
  let files ← t.discover c.dir
  return {
    config := c
    engine := Engine.of registry c.maxErrors c.merge
    context := contextOf c t files
    jobs := jobsOf c files }

end Plan

/-! ## Attempts -/

/-- A workspace with the report of the file that is being migrated. -/
structure JobState where
  workspace : Workspace
  file : FileReport
deriving Repr, DecidableEq, Inhabited

/-- One error for all errors of a file. Another attempt may succeed only if that holds of each. -/
def summarize (file : String) (log : ErrorLog) : MigrationError where
  kind := (log.errors.head?.map (·.kind)).getD .transform
  message := log.render
  file := some file
  recoverable := !log.errors.isEmpty && log.errors.all (·.recoverable)

namespace Plan

/-- A failure to read or write a file of the run. -/
def fileFailure (operation name : String) (e : FileError) : ErrorLog :=
  .single
    { MigrationError.ofFileError e.message with operation := operation, file := name }

/-- Migrates the content of a file. The counters go to its report. -/
def migrate (p : Plan) (kind : FileKind) (file : FileReport) (bytes : Text.Bytes) :
    Except ErrorLog (Text.Bytes × FileReport) := do
  match kind with
  | .config => do
    let (text, stats) ← p.engine.migrateConfig p.context file.path bytes
    return (Text.encode text,
      { file with transformed := stats.transformed, merged := stats.merged })
  | .state => do
    let (output, stats) ← p.engine.migrateState p.context file.path bytes
    return (output,
      { file with
        transformed := stats.transformed, retyped := stats.retyped, merged := stats.merged })

/-- The state after a file was migrated to `output`: it is written if it changed, unless the run is
dry. -/
def store (p : Plan) (job : Job) (s : JobState) (bytes output : Text.Bytes) :
    Except ErrorLog Unit × JobState :=
  if output = bytes then (.ok (), s)
  else
    let s := { s with file := { s.file with outcome := .changed } }
    if p.config.dryRun then (.ok (), s)
    else
      match s.workspace.tree.write job.path output with
      | .ok tree => (.ok (), { s with workspace := { s.workspace with tree := tree } })
      | .error e => (.error (fileFailure "write" s.file.path e), s)

/-- Reads, migrates and writes a file. -/
def migrateFile (p : Plan) (job : Job) (s : JobState) : Except ErrorLog Unit × JobState :=
  match s.workspace.tree.read job.path with
  | .error e => (.error (fileFailure "read" s.file.path e), s)
  | .ok bytes =>
    match p.migrate job.kind s.file bytes with
    | .error log => (.error log, s)
    | .ok (output, file) => p.store job { s with file := file } bytes output

/-- Migrates a file, unless the deadline has expired. -/
def tryFile (p : Plan) (job : Job) (deadline : Deadline) (s : JobState) :
    Except ErrorLog Unit × JobState :=
  match deadline.check "migrate" with
  | .error e => (.error (.single e), s)
  | .ok () => p.migrateFile job s

/-- One attempt at a job. Its report starts anew, and tells of the errors. -/
def attempt (p : Plan) (job : Job) (deadline : Deadline) : Action JobState Unit := do
  modify fun s => { s with file := s.file.reset }
  match p.tryFile job deadline (← get) with
  | (.ok (), s) => set s
  | (.error log, s) => do
    set { s with file := s.file.fail log }
    throw (summarize s.file.path log)

end Plan

end ProviderMigration
