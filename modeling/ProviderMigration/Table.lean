import ProviderMigration.Registry

/-!
# Table of migrators

All migrators and merge rules there are, by resource type and versions. `MigratorTable.registry?`
picks those of one step between versions.
-/

namespace ProviderMigration

/-! ## Keys -/

structure MigrationKey where
  type : String
  sourceVersion : String
  targetVersion : String
deriving Repr, DecidableEq, Inhabited, Ord

namespace MigrationKey

def isFor (k : MigrationKey) (source target : String) : Bool :=
  k.sourceVersion == source && k.targetVersion == target

def text (k : MigrationKey) : String :=
  s!"{k.type} ({k.sourceVersion} -> {k.targetVersion})"

/-- The key with the names of its parts. -/
def summary (k : MigrationKey) : String :=
  "MigrationKey \x7b resource_type: " ++ Text.quoted k.type ++ ", source_version: " ++
    Text.quoted k.sourceVersion ++ ", target_version: " ++ Text.quoted k.targetVersion ++ " \x7d"

end MigrationKey

/-! ## Tables -/

structure MigratorTable where
  migrators : SortedMap MigrationKey Migrator := []
  /-- The merge rules by item type, in order of their last registration. -/
  rules : List (MigrationKey × MergeRule) := []

instance : Inhabited MigratorTable := ⟨{}⟩

namespace MigratorTable

/-- Registers a migrator in place of any other with the same key. -/
def addMigrator (t : MigratorTable) (key : MigrationKey) (m : Migrator) : MigratorTable :=
  { t with migrators := t.migrators.insert key m }

/-- Registers a merge rule in place of any other for the same item type and versions. -/
def addRule (t : MigratorTable) (source target : String) (rule : MergeRule) : MigratorTable :=
  let key : MigrationKey := ⟨rule.itemType, source, target⟩
  { t with rules := t.rules.filter (·.1 != key) ++ [(key, rule)] }

def migrator? (t : MigratorTable) (key : MigrationKey) : Option Migrator :=
  t.migrators.get? key

/-- Whether a list of resource types admits a type. The empty list admits all. -/
def admits (filter : List String) (type : String) : Bool :=
  filter.isEmpty || filter.contains type

/-- The migrators for a step between versions whose types the filter admits, by type. -/
def migratorsFor (t : MigratorTable) (source target : String) (filter : List String) :
    List Migrator :=
  (t.migrators.filter fun entry =>
    entry.1.isFor source target && admits filter entry.1.type).map (·.2)

/-- The rules for a step between versions of which the filter admits the items or the parents. -/
def rulesFor (t : MigratorTable) (source target : String) (filter : List String) :
    List MergeRule :=
  (t.rules.filter fun entry =>
    entry.1.isFor source target &&
      (admits filter entry.2.itemType || admits filter entry.2.parentType)).map (·.2)

/-- The keys of all migrators and rules, in ascending order. -/
def keys (t : MigratorTable) : List MigrationKey :=
  (t.migrators.map (·.1) ++ t.rules.map (·.1)).mergeSort fun a b => (compare a b).isLE

/-- Whether there is anything for a step between versions. -/
def supports (t : MigratorTable) (source target : String) : Bool :=
  t.keys.any (·.isFor source target)

/-- The registry for a step between versions, of the types that the filter admits. -/
def registry? (t : MigratorTable) (source target : String) (filter : List String) :
    Except MigrationError Registry :=
  if t.supports source target then do
    let r ← Registry.registerAll {} (t.migratorsFor source target filter)
    return (t.rulesFor source target filter).foldl Registry.addRule r
  else
    .error
      { kind := .version
        message := s!"no migrations registered from {source} to {target}"
        version := some s!"{source} -> {target}" }

/-- The texts of the keys of the given versions; a version that is not given may be any. -/
def listing (t : MigratorTable) (source target : Option String) : List String :=
  let agrees (wanted : Option String) (version : String) := wanted.all (· == version)
  (t.keys.filter fun k =>
    agrees source k.sourceVersion && agrees target k.targetVersion).map MigrationKey.text

/-- The table on one line. -/
def summary (t : MigratorTable) : String :=
  "MigratorTable \x7b keys: [" ++ Text.joinWith ", " (t.keys.map MigrationKey.summary) ++ "] \x7d"

end MigratorTable

end ProviderMigration
