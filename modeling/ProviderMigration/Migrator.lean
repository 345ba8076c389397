import ProviderMigration.Context
import ProviderMigration.Error

/-!
# Migrators

A `Migrator` changes the resources of one type for one step between versions: the text before it
is parsed, the blocks of the configuration, and the instances of the state.
-/

namespace ProviderMigration

open Hcl (Block)
open Json (Value)

/-- What becomes of a resource block. -/
structure BlockChange where
  blocks : List Block
  /-- Whether the blocks take the place of the old one. Otherwise there is exactly one, which is the
  old one with changes. -/
  replaces : Bool

namespace BlockChange

/-- The block was changed in place. -/
def inPlace (b : Block) : BlockChange :=
  ⟨[b], false⟩

/-- The block gives way to others. -/
def replace (blocks : List Block) : BlockChange :=
  ⟨blocks, true⟩

/-- The block goes. -/
def delete : BlockChange :=
  ⟨[], true⟩

end BlockChange

structure Migrator where
  /-- The resource type for which the migrator is registered. -/
  type : String
  /-- The resource types that it handles. -/
  handles : String → Bool
  /-- The new name of the type, if it is renamed. -/
  targetType : Option String := none
  /-- The new type of an entry of the state. -/
  targetTypeOf : Value → Option String := fun _ => targetType
  preprocess : String → String := id
  migrateBlock : Context → Block → Except MigrationError BlockChange
  /-- Migrates an instance; the text is the path to it in the state. -/
  migrateInstance : Context → Value → String → Except MigrationError Value

end ProviderMigration
