import ProviderMigration.Builtin.DnsRecord
import ProviderMigration.Builtin.List
import ProviderMigration.Builtin.TieredCache
import ProviderMigration.Table

/-!
# Builtin migrators

The table of all migrators of this library, for the step from version 4 to version 5.
-/

namespace ProviderMigration

def builtinMigrators : List Migrator :=
  [DnsRecord.migrator, TieredCache.migrator, CloudflareList.migrator]

def builtinTable : MigratorTable :=
  let add (t : MigratorTable) (m : Migrator) := t.addMigrator ⟨m.type, "v4", "v5"⟩ m
  (builtinMigrators.foldl add {}).addRule "v4" "v5" CloudflareList.itemRule

end ProviderMigration
