import ProviderMigration.CommandLine.Parameter
import ProviderMigration.Run.Config

/-!
# Invocations

What a command line asks for: to migrate files, or to list the migrators.

* `Invocation.read` — reads the words of a command line;
* `RunConfig.ofMatches` — the run that parameters describe.
-/

namespace ProviderMigration

inductive Command where
  | migrate (config : RunConfig)
  | list (source target : Option String)
deriving Repr, DecidableEq, Inhabited

structure Invocation where
  verbose : Bool
  command : Command
deriving Repr, DecidableEq, Inhabited

/-! ## Parameters -/

namespace Parameter

def verbose : Parameter := ⟨"verbose", some 'v', .flag⟩

def help : Parameter := ⟨"help", some 'h', .help⟩

/-- The parameters before the command. -/
def common : List Parameter :=
  [verbose, help, ⟨"version", some 'V', .version⟩]

def ofMigrate : List Parameter :=
  [⟨"dir", some 'd', .value .path⟩, ⟨"state", some 's', .value .path⟩,
    ⟨"from", none, .value .text⟩, ⟨"to", none, .value .text⟩,
    ⟨"resources", some 'r', .value .texts⟩, ⟨"dry-run", none, .flag⟩,
    ⟨"no-backup", none, .flag⟩, ⟨"keep-backups", none, .flag⟩,
    ⟨"backup-dir", none, .value .path⟩, ⟨"moved-blocks", none, .flag⟩,
    ⟨"no-merge", none, .flag⟩, ⟨"max-errors", none, .value .natural⟩,
    ⟨"retries", none, .value (.integer (Nat.pow 2 32 - 1))⟩,
    ⟨"retry-delay-ms", none, .value .natural⟩,
    ⟨"continue-on-error", none, .flag⟩, ⟨"timeout", none, .value .natural⟩,
    ⟨"format", none, .value (.choice ["text", "json"])⟩, verbose, help]

def ofList : List Parameter :=
  [⟨"from", none, .value .text⟩, ⟨"to", none, .value .text⟩, verbose, help]

end Parameter

/-! ## Runs -/

/-- How long to wait before the first retry, in milliseconds. -/
def defaultRetryDelay : Nat := 200

namespace RunConfig

/-- The strategy that parameters describe. As many retries make one attempt more. -/
def strategyOf (m : Matches) : RecoveryStrategy :=
  if m.has "continue-on-error" then .continueOnError
  else
    match (m.number? "retries").getD 0 with
    | 0 => .failFast
    | retries =>
      .retry
        { maxAttempts := retries + 1
          initialDelay := (m.number? "retry-delay-ms").getD defaultRetryDelay }

/-- The run that parameters describe. -/
def ofMatches (m : Matches) : RunConfig where
  dir := ⟨(m.value? "dir").getD "."⟩
  stateFile := (m.value? "state").map Path.mk
  sourceVersion := (m.value? "from").getD "v4"
  targetVersion := (m.value? "to").getD "v5"
  resources := m.values "resources"
  dryRun := m.has "dry-run"
  backup :=
    if m.has "no-backup" then none else some { directory := (m.value? "backup-dir").map Path.mk }
  keepBackups := m.has "keep-backups"
  maxErrors := max ((m.number? "max-errors").getD 100) 1
  merge := !m.has "no-merge"
  movedBlocks := m.has "moved-blocks"
  recovery :=
    { strategy := strategyOf m, timeout := (m.number? "timeout").map (1000 * ·) }
  format := if m.value? "format" == some "json" then .json else .text

end RunConfig

/-! ## Command lines -/

namespace Invocation

def commands : List String :=
  ["migrate", "list", "help"]

/-- The parameters of a command, read from the words after it. -/
def readCommand (verbose : Bool) (command : String) (words : List String) :
    Except UsageError Invocation := do
  match command, words with
  | "migrate", words => do
    let m ← Matches.read Parameter.ofMigrate {} words
    if m.has "continue-on-error" && m.has "retries" then throw .conflict
    return ⟨verbose || m.has "verbose", .migrate (.ofMatches m)⟩
  | "list", words => do
    let m ← Matches.read Parameter.ofList {} words
    return ⟨verbose || m.has "verbose", .list (m.value? "from") (m.value? "to")⟩
  | "help", [] => throw .helpRequested
  | "help", [topic] => throw (if commands.contains topic then .helpRequested else .unknownCommand)
  | _, _ => throw .unknownCommand

/-- Reads words up to the command. -/
def readFrom (m : Matches) : List String → Except UsageError Invocation
  | [] => .error (if m.given.isEmpty then .nothingGiven else .noCommand)
  | "--" :: [] => .error (if m.given.isEmpty then .nothingGiven else .noCommand)
  | "--" :: word :: _ =>
    .error (if commands.contains word then .unknownArgument else .unknownCommand)
  | word :: rest =>
    if Matches.isNamed word then do readFrom (← m.readWord Parameter.common word) rest
    else readCommand (m.has "verbose") word rest

/-- Reads the words of a command line. The first one names the program. -/
def read (words : List String) : Except UsageError Invocation :=
  readFrom {} (words.drop 1)

end Invocation

end ProviderMigration
