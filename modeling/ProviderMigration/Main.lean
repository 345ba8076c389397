import ProviderMigration.Builtin.Table
import ProviderMigration.CommandLine.Outcome

/-!
# Command line

The program: it takes a snapshot of the files that a run may touch, does the jobs on it, and after
each job writes to disk what changed.
-/

namespace ProviderMigration
namespace Main

/-! ## Snapshots -/

/-- The absolute path of a location. -/
def textOf (loc : Location) : String :=
  "/" ++ Text.joinWith "/" loc

/-- The location of a path, without a look at the disk. -/
def locationOf (here : Location) (p : Path) : Location :=
  p.parts.foldl (fun loc part =>
    match part with
    | .root => []
    | .current => loc
    | .parent => loc.dropLast
    | .name s => loc ++ [s]) here

/-- The locations of the directories above a location. -/
def above (loc : Location) : List Location :=
  (List.range loc.length).map loc.take

/-- Whether the content of a file may be asked for. Of other files only the names are. -/
def isRead (stateFile : Option Location) (loc : Location) : Bool :=
  (Path.mk (textOf loc)).hasExtension "tf" || stateFile == some loc

/-- What there is on disk at a location, and the names of what is in it. -/
def look (stateFile : Option Location) (loc : Location) :
    IO (List (Location × FileNode) × List String) := do
  let path := (← IO.currentDir) / textOf loc
  if ← path.isDir then
    return ([(loc, .directory)], (← path.readDir).toList.map (·.fileName))
  else if ← path.pathExists then
    let bytes ← if isRead stateFile loc then IO.FS.readBinFile path else pure .empty
    return ([(loc, .file bytes.toList)], [])
  else
    return ([], [])

/-- What there is at a location and directly in it. -/
def lookInto (stateFile : Option Location) (loc : Location) : IO (List (Location × FileNode)) := do
  let (entries, names) ← look stateFile loc
  let inside ← names.mapM fun name => look stateFile (loc ++ [name])
  return entries ++ inside.flatMap (·.1)

/-- What there is from a location down. Directories that a search passes over are not entered. -/
partial def scan (stateFile : Option Location) (loc : Location) :
    IO (List (Location × FileNode)) := do
  let (entries, names) ← look stateFile loc
  let inside ← names.mapM fun name =>
    if name.startsWith "." then lookInto stateFile (loc ++ [name])
    else scan stateFile (loc ++ [name])
  return entries ++ inside.flatten

/-- What a run may touch: the files below its directory, and the directories of its state file and
of its backups. -/
def snapshot (c : RunConfig) : IO FileTree := do
  let here := (Path.mk (← IO.currentDir).toString).segments.filter (!Path.isIdle ·)
  let state := c.stateFile.map (locationOf here)
  let dir := locationOf here c.dir
  let others := (state.map List.dropLast).toList ++
    ((c.backup.bind (·.directory)).map (locationOf here)).toList
  let outer ← ((dir :: others).flatMap above).mapM fun loc => return (← look none loc).1
  let listed ← others.mapM (lookInto state)
  let entries := outer.flatten ++ listed.flatten ++ (← scan state dir)
  return (entries.filter (·.1 != [])).foldl (fun t (loc, node) => t.set loc node)
    { workingDirectory := here }

/-! ## Changes -/

/-- Whether an entry is not in a tree as it is. -/
def differs (t : FileTree) (entry : Location × FileNode) : Bool :=
  t.node? entry.1 != some entry.2

def writeEntry : Location × FileNode → IO Unit
  | (loc, .directory) => IO.FS.createDirAll (textOf loc)
  | (loc, .file bytes) => IO.FS.writeBinFile (textOf loc) ⟨bytes.toArray⟩

/-- Writes what changed: new entries first, then other content, and removals last. -/
def flush (before after : FileTree) : IO Unit := do
  let changes := after.entries.reverse.filter (differs before)
  for entry in changes.filter (fun entry => (before.node? entry.1).isNone) do
    writeEntry entry
  for entry in changes.filter (fun entry => (before.node? entry.1).isSome) do
    writeEntry entry
  for (loc, _) in before.entries.filter (fun entry => (after.node? entry.1).isNone) do
    IO.FS.removeFile (textOf loc)

/-! ## Runs -/

/-- Does jobs as `Plan.runJobs` does, and writes after each of them. -/
def runJobs (p : Plan) : List Job → Progress → IO Progress
  | [], s => return s
  | job :: rest, s => do
    let next := p.runJob job s
    flush s.workspace.tree next.workspace.tree
    if next.aborted then return next else runJobs p rest next

def migrate (c : RunConfig) : IO CommandOutcome := do
  let t ← snapshot c
  match Plan.of c builtinTable t with
  | .error e => return .stopped e
  | .ok p => do
    let s ← runJobs p p.jobs (p.start t)
    let (report, tree) := p.conclude s
    flush s.workspace.tree tree
    return .migrated report c.format tree

def run : Command → IO CommandOutcome
  | .migrate config => migrate config
  | command => return command.run builtinTable {}

def usage : String :=
  "usage: tfmigrate [--verbose] migrate [--dir DIR] [--state FILE] [--from VERSION] [--to VERSION]\n" ++
  "         [--resources TYPES] [--dry-run] [--no-backup] [--keep-backups] [--backup-dir DIR]\n" ++
  "         [--moved-blocks] [--no-merge] [--max-errors N] [--retries N] [--retry-delay-ms N]\n" ++
  "         [--continue-on-error] [--timeout SECONDS] [--format text|json]\n" ++
  "       tfmigrate [--verbose] list [--from VERSION] [--to VERSION]"

/-- Shows why a command line is not run. -/
def explain : UsageError → IO UInt32
  | .helpRequested | .versionRequested => do
    IO.println usage
    return 0
  | e => do
    IO.eprintln s!"error: {e.message}"
    IO.eprintln usage
    return 2

end Main
end ProviderMigration

open ProviderMigration in
def main (args : List String) : IO UInt32 := do
  match Invocation.read ("tfmigrate" :: args) with
  | .error e => Main.explain e
  | .ok invocation => do
    let outcome ← Main.run invocation.command
    match outcome with
    | .listed _ => IO.print outcome.output
    | .migrated .. => IO.println outcome.output
    | .stopped _ => IO.eprintln outcome.errorOutput
    return UInt32.ofNat outcome.exitCode
