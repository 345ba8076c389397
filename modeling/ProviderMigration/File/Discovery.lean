import ProviderMigration.Error
import ProviderMigration.File.Tree

/-!
# Discovery

The configuration files below a directory. Directories whose names start with a dot are passed
over; the directory where the search starts may have any name.
-/

namespace ProviderMigration
namespace FileTree

/-! ## One directory -/

/-- Whether a path leads to a configuration file. -/
def isConfigFile (t : FileTree) (p : Path) : Bool :=
  !t.isDirectory p && p.hasExtension "tf"

/-- Whether a path leads to a directory that is searched. -/
def isSearched (t : FileTree) (p : Path) : Bool :=
  t.isDirectory p && !p.isHidden

/-- The paths of what is in a directory. -/
def listing (t : FileTree) (dir : Path) : Except MigrationError (List Path) :=
  match t.children dir with
  | .ok names => .ok (names.map dir.join)
  | .error e =>
    .error
      { MigrationError.ofFileError e.message with
        operation := some "discover", file := some dir.text }

/-! ## Search -/

/-- Searches the pending directories and those below them, at most `steps` of them. -/
def search (t : FileTree) : Nat → List Path → List Path → Except MigrationError (List Path)
  | _, [], found => .ok found
  | 0, _ :: _, found => .ok found
  | steps + 1, dir :: pending, found => do
    let paths ← t.listing dir
    t.search steps (paths.filter t.isSearched ++ pending) (found ++ paths.filter t.isConfigFile)

/-- The configuration files below a directory, in order of paths. Every directory is searched once,
so that the number of entries bounds the search. -/
def discover (t : FileTree) (dir : Path) : Except MigrationError (List Path) := do
  let found ← t.search (t.entries.length + 1) [dir] []
  return found.mergeSort Path.precedes

end FileTree
end ProviderMigration
