import ProviderMigration.Data.SortedMap
import ProviderMigration.Hcl.SyntaxError
import ProviderMigration.Json.Reader
import ProviderMigration.Text.Join

/-!
# Errors

What can go wrong in a migration: an `ErrorKind`, a message, and what was being done to which
resource in which file.

* `MigrationError.render` — the error on one line;
* `MigrationError.ofDiagnostic`, `ofReadError`, `ofFileError` — errors of the layers below.
-/

namespace ProviderMigration

inductive ErrorKind where
  | parse
  | transform
  | validation
  | state
  | file
  | config
  | resourceNotFound
  | version
  | backup
deriving Repr, DecidableEq, Inhabited

namespace ErrorKind

def text : ErrorKind → String
  | .parse => "parse"
  | .transform => "transform"
  | .validation => "validation"
  | .state => "state"
  | .file => "file"
  | .config => "config"
  | .resourceNotFound => "resource_not_found"
  | .version => "version"
  | .backup => "backup"

def all : List ErrorKind :=
  [.parse, .transform, .validation, .state, .file, .config, .resourceNotFound, .version, .backup]

def ofText? (s : String) : Option ErrorKind :=
  all.find? (·.text == s)

/-- Errors of files and backups may go away by themselves. -/
def isTransient : ErrorKind → Bool
  | .file | .backup => true
  | _ => false

end ErrorKind

structure MigrationError where
  kind : ErrorKind
  message : String
  operation : Option String := none
  resource : Option String := none
  file : Option String := none
  line : Option Nat := none
  /-- The versions between which the migration runs. -/
  version : Option String := none
  /-- Further details by name. -/
  context : SortedMap String String := []
  /-- The text of the error that caused this one. -/
  source : Option String := none
  /-- Whether another attempt may succeed. -/
  recoverable : Bool := kind.isTransient
deriving Repr, DecidableEq, Inhabited

namespace MigrationError

/-! ## Construction -/

/-- Adds a detail, or replaces the one of that name. -/
def withContext (e : MigrationError) (name value : String) : MigrationError :=
  { e with context := e.context.insert name value }

/-- Fills in what is not set: the operation, the resource and the versions. -/
def inOperation (e : MigrationError) (operation resource version : String) : MigrationError :=
  { e with
    operation := e.operation <|> some operation
    resource := e.resource <|> some resource
    version := e.version <|> some version }

/-- A diagnostic about the text of a file. -/
def ofDiagnostic (d : Hcl.Diagnostic) (source file : String) : MigrationError :=
  { kind := .parse
    message := d.message
    file := some file
    line := some (d.line source)
    context := d.hint.toList.map fun hint => ("hint", hint)
    source := some d.message }

def ofReadError (e : Json.ReadError) : MigrationError :=
  { kind := .parse, message := e.message, line := some e.line, source := some e.message }

/-- A failure of the file system. -/
def ofFileError (message : String) : MigrationError :=
  { kind := .file, message := message, source := some message }

/-! ## Text -/

/-- The file and line of an error; a line without a file says nothing. -/
def place (e : MigrationError) : String :=
  match e.file, e.line with
  | some file, some line => s!" in {file}:{line}"
  | some file, none => s!" in {file}"
  | none, _ => ""

/-- The details as `name=value`. -/
def details (e : MigrationError) : String :=
  if e.context.isEmpty then ""
  else " [" ++ Text.joinWith ", " (e.context.map fun (name, value) => s!"{name}={value}") ++ "]"

/-- The error on one line. -/
def render (e : MigrationError) : String :=
  let part (before after : String) : Option String → String
    | some text => before ++ text ++ after
    | none => ""
  e.kind.text ++ " error" ++ part " during " "" e.operation ++ part " for " "" e.resource ++
    e.place ++ part " (" ")" e.version ++ ": " ++ e.message ++ e.details

end MigrationError

end ProviderMigration
