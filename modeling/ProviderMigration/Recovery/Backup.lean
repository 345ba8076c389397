import ProviderMigration.Data.Sha256
import ProviderMigration.Data.SortedMap
import ProviderMigration.File.Tree
import ProviderMigration.Recovery.Action

/-!
# Backups

Copies of files that are made before the files change. A workspace is a file tree with its backups.

* `Workspace.backup` — copies a file, or notes that there is none;
* `Workspace.restore`, `rollback` — put one file or all files back;
* `Workspace.discard`, `cleanup` — remove one backup or all backups;
* `Backups.freshPath` — the first path for a backup that is not taken.
-/

namespace ProviderMigration

structure BackupSettings where
  /-- What the name of a backup has after the name of the file. -/
  suffix : String := ".backup"
  /-- Where backups go, if not next to the file. -/
  directory : Option Path := none
deriving Repr, DecidableEq, Inhabited

/-- What there was at a path when it was backed up. -/
inductive BackupEntry where
  | copied (backup : Path) (sha256 : String)
  | absent
deriving Repr, DecidableEq, Inhabited

structure Backups where
  settings : BackupSettings := {}
  /-- The paths that were backed up, by their parts. -/
  entries : SortedMap (List PathPart) (Path × BackupEntry) := []
  /-- The backups in order of their making. -/
  created : List Path := []
deriving Repr, DecidableEq, Inhabited

def BackupEntry.backup? : BackupEntry → Option Path
  | .copied backup _ => some backup
  | .absent => none

namespace Backups

def entry? (b : Backups) (p : Path) : Option BackupEntry :=
  (SortedMap.get? b.entries p.parts).map (·.2)

/-- Notes what there was at a path. -/
def track (b : Backups) (p : Path) (entry : BackupEntry) : Backups :=
  { b with
    entries := SortedMap.insert b.entries p.parts (p, entry)
    created := b.created ++ entry.backup?.toList }

/-- Forgets a path together with its backup. -/
def forget (b : Backups) (p : Path) : Backups :=
  { b with
    entries := SortedMap.erase b.entries p.parts
    created := b.created.filter fun q =>
      ((b.entry? p).bind BackupEntry.backup?).all (·.parts != q.parts) }

/-! ## Fresh paths -/

/-- The candidates for a backup: the name with the suffix, then the same with numbers from one. -/
def candidate (dir : Path) (base : String) : Nat → Path
  | 0 => dir.join base
  | n => dir.join s!"{base}.{n}"

/-- Whether a candidate is a file or directory, or a backup made earlier. -/
def isTaken (b : Backups) (t : FileTree) (p : Path) : Bool :=
  t.has p || b.created.any (·.parts == p.parts)

/-- The first candidate from the `n`th on that is not taken, after at most `steps` that are. -/
def freeFrom (b : Backups) (t : FileTree) (dir : Path) (base : String) : Nat → Nat → Path
  | 0, n => candidate dir base n
  | steps + 1, n =>
    let p := candidate dir base n
    if b.isTaken t p then b.freeFrom t dir base steps (n + 1) else p

/-- The first candidate that is not taken. Every taken one is in the tree or among the backups, so
that their number bounds the search. -/
def freshPath (b : Backups) (t : FileTree) (dir : Path) (base : String) : Path :=
  b.freeFrom t dir base (t.entries.length + b.created.length + 1) 0

end Backups

/-! ## Workspaces -/

structure Workspace where
  tree : FileTree := {}
  backups : Backups := {}
deriving Repr, DecidableEq, Inhabited

/-- An error in the handling of backups. -/
def backupError (operation : String) (p : Path) (e : FileError) : MigrationError :=
  { kind := .backup, message := e.message, operation := some operation, file := some p.text
    source := some e.message }

namespace Workspace

/-- The result of an operation on the file tree, as part of an operation on backups. -/
def attempt {α : Type} (operation : String) (p : Path) (result : Except FileError α) :
    Action Workspace α :=
  match result with
  | .ok a => pure a
  | .error e => throw (backupError operation p e)

/-- Replaces the file tree by the result of an operation on it. -/
def change (operation : String) (p : Path) (f : FileTree → Except FileError FileTree) :
    Action Workspace Unit := do
  let w ← get
  let tree ← attempt operation p (f w.tree)
  set { w with tree := tree }

/-! ## Backing up -/

/-- The directory for the backup of a file. It is created if it is missing. -/
def backupDirectory (p : Path) : Action Workspace Path := do
  match (← get).backups.settings.directory with
  | none => return p.parent
  | some dir => do
    change "backup" dir (·.createDirectories dir)
    return dir

/-- A path for the backup of a file, at which there is nothing. -/
def backupPath (p : Path) : Action Workspace Path := do
  match p.fileName? with
  | none =>
    throw
      { kind := .backup, message := "path has no file name", file := some p.text
        recoverable := false }
  | some name => do
    let dir ← backupDirectory p
    let w ← get
    return w.backups.freshPath w.tree dir (name ++ w.backups.settings.suffix)

/-- Copies the content of a file to a fresh path. -/
def copy (p : Path) (bytes : Text.Bytes) : Action Workspace Path := do
  let backup ← backupPath p
  change "backup" backup (·.write backup bytes)
  modify fun w =>
    { w with backups := w.backups.track p (.copied backup (Sha256.digest bytes)) }
  return backup

/-- Backs up what is at a path, unless that was done before. The result is the path of the backup,
if there was a file to copy. -/
def backup (p : Path) : Action Workspace (Option Path) := do
  let w ← get
  match w.backups.entry? p with
  | some entry => return entry.backup?
  | none =>
    match w.tree.read p with
    | .error .notFound => do
      set { w with backups := w.backups.track p .absent }
      return none
    | .error e => throw (backupError "backup" p e)
    | .ok bytes => some <$> copy p bytes

/-! ## Restoring -/

/-- Puts a file back from its backup, whose content must have the digest it was made with. -/
def restoreFrom (p backup : Path) (sha256 : String) : Action Workspace Unit := do
  let bytes ← attempt "rollback" backup ((← get).tree.read backup)
  let actual := Sha256.digest bytes
  if actual != sha256 then
    throw
      { kind := .backup, message := "backup content does not match its checksum"
        operation := some "rollback", file := some backup.text
        context := .ofList [("expected", sha256), ("actual", actual)], recoverable := false }
  change "rollback" p (·.write p bytes)

/-- Puts back what there was at a path when it was backed up. -/
def restoreEntry (p : Path) : BackupEntry → Action Workspace Unit
  | .copied backup sha256 => restoreFrom p backup sha256
  | .absent => change "rollback" p (·.removeIfThere p)

/-- Puts back what there was at a path. A path that was not backed up is left alone. -/
def restore (p : Path) : Action Workspace Unit := do
  match (← get).backups.entry? p with
  | some entry => restoreEntry p entry
  | none => return ()

/-- Puts back everything that was backed up, in order of paths. -/
def rollback : StateM Workspace (Except ErrorLog Unit) := do
  let entries := (← get).backups.entries
  let log ← Action.runAll default (entries.map fun (_, p, entry) => restoreEntry p entry)
  return log.toResult ()

/-! ## Removing backups -/

/-- Forgets a path and removes its backup. -/
def discard (p : Path) : Action Workspace Unit := do
  let w ← get
  -- The path is forgotten even if its backup cannot be removed.
  set { w with backups := w.backups.forget p }
  match (w.backups.entry? p).bind BackupEntry.backup? with
  | some backup => change "cleanup" backup (·.removeIfThere backup)
  | none => return ()

/-- Removes all backups and forgets all paths. -/
def cleanup : StateM Workspace (Except ErrorLog Unit) := do
  let created := (← get).backups.created
  modify fun w => { w with backups := { w.backups with entries := [], created := [] } }
  let log ← Action.runAll default
    (created.map fun backup => change "cleanup" backup (·.removeIfThere backup))
  return log.toResult ()

end Workspace

end ProviderMigration
