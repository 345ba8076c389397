import ProviderMigration.File.Path
import ProviderMigration.Text.Utf8

/-!
# File trees

A file tree holds the files and directories of a file system, each at its location: the names on
the way from the root. The operations give the errors that an operating system gives.

* `FileTree.locate` — the location that a path leads to;
* `read`, `write`, `remove`, `createDirectories` — operations on paths;
* `children` — the names in a directory.
-/

namespace ProviderMigration

/-! ## Errors -/

inductive FileError where
  | notFound
  | exists
  | notDirectory
  | isDirectory
deriving Repr, DecidableEq, Inhabited

def FileError.message : FileError → String
  | .notFound => "No such file or directory (os error 2)"
  | .exists => "File exists (os error 17)"
  | .notDirectory => "Not a directory (os error 20)"
  | .isDirectory => "Is a directory (os error 21)"

/-! ## Trees -/

/-- The names on the way from the root. -/
abbrev Location := List String

inductive FileNode where
  | file (bytes : Text.Bytes)
  | directory
deriving Repr, DecidableEq, Inhabited

structure FileTree where
  /-- What there is below the root, in any order. The directory of an entry is an entry too. -/
  entries : List (Location × FileNode) := []
  /-- The directory at which relative paths start. -/
  workingDirectory : Location := []
deriving Repr, DecidableEq, Inhabited

namespace FileTree

/-- What there is at a location. The root is a directory. -/
def node? (t : FileTree) (loc : Location) : Option FileNode :=
  if loc.isEmpty then some .directory else t.entries.lookup loc

/-- The tree with a node in place of what is at a location. -/
def set (t : FileTree) (loc : Location) (node : FileNode) : FileTree :=
  { t with entries := (loc, node) :: t.entries.filter (·.1 != loc) }

/-- The tree without what is at a location. -/
def erase (t : FileTree) (loc : Location) : FileTree :=
  { t with entries := t.entries.filter (·.1 != loc) }

/-! ## Paths -/

/-- Follows segments from a location. Every step leaves a directory that there is. -/
def walk (t : FileTree) (loc : Location) : List String → Except FileError Location
  | [] => .ok loc
  | segment :: rest =>
    match t.node? loc with
    | none => .error .notFound
    | some (.file _) => .error .notDirectory
    | some .directory =>
      if Path.isIdle segment then t.walk loc rest
      else if segment == ".." then t.walk loc.dropLast rest
      else t.walk (loc ++ [segment]) rest

/-- Where a path starts. -/
def origin (t : FileTree) (p : Path) : Location :=
  if p.isAbsolute then [] else t.workingDirectory

/-- The location that a path leads to. There need not be anything. -/
def locate (t : FileTree) (p : Path) : Except FileError Location :=
  if p.text.isEmpty then .error .notFound else t.walk (t.origin p) p.segments

/-- What a path leads to. -/
def at? (t : FileTree) (p : Path) : Option FileNode :=
  (t.locate p).toOption.bind t.node?

def has (t : FileTree) (p : Path) : Bool :=
  (t.at? p).isSome

def isDirectory (t : FileTree) (p : Path) : Bool :=
  t.at? p == some .directory

/-! ## Files -/

def read (t : FileTree) (p : Path) : Except FileError Text.Bytes := do
  match t.node? (← t.locate p) with
  | some (.file bytes) => return bytes
  | some .directory => throw .isDirectory
  | none => throw .notFound

/-- Writes a file, in place of another one if there is one. -/
def write (t : FileTree) (p : Path) (bytes : Text.Bytes) : Except FileError FileTree := do
  let loc ← t.locate p
  match t.node? loc with
  | some .directory => throw .isDirectory
  | _ => return t.set loc (.file bytes)

def remove (t : FileTree) (p : Path) : Except FileError FileTree := do
  let loc ← t.locate p
  match t.node? loc with
  | some (.file _) => return t.erase loc
  | some .directory => throw .isDirectory
  | none => throw .notFound

/-- Removes a file if there is one. -/
def removeIfThere (t : FileTree) (p : Path) : Except FileError FileTree :=
  match t.remove p with
  | .error .notFound => .ok t
  | result => result

/-! ## Directories -/

/-- The names in a directory. -/
def children (t : FileTree) (p : Path) : Except FileError (List String) := do
  let loc ← t.locate p
  match t.node? loc with
  | some .directory =>
    return t.entries.filterMap fun entry =>
      if entry.1.dropLast = loc then entry.1.getLast? else none
  | some (.file _) => throw .notDirectory
  | none => throw .notFound

/-- Follows segments from a location and creates the directories that are missing. -/
def createAlong (t : FileTree) (loc : Location) : List String → Except FileError FileTree
  | [] =>
    match t.node? loc with
    | none => .ok (t.set loc .directory)
    | some .directory => .ok t
    | some (.file _) => .error .exists
  | segment :: rest =>
    match t.node? loc with
    | some (.file _) => .error .notDirectory
    | found =>
      let t := if found.isNone then t.set loc .directory else t
      if Path.isIdle segment then t.createAlong loc rest
      else if segment == ".." then t.createAlong loc.dropLast rest
      else t.createAlong (loc ++ [segment]) rest

/-- Creates a directory together with those above it. -/
def createDirectories (t : FileTree) (p : Path) : Except FileError FileTree :=
  if p.text.isEmpty then .ok t
  else t.createAlong (t.origin p) (Path.dropIdleEnd p.segments)

end FileTree

end ProviderMigration
