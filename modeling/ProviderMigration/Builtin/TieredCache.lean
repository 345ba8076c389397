import ProviderMigration.Hcl.Block.Derive
import ProviderMigration.Hcl.Body.Edit
import ProviderMigration.Json.Printer
import ProviderMigration.Migrator
import ProviderMigration.Text.Quoted

/-!
# Tiered caches

The attribute `cache_type` becomes `value`, and generic tiered caching becomes a resource of its
own, `cloudflare_argo_tiered_caching`.
-/

namespace ProviderMigration
namespace TieredCache

open Hcl (Body Block Expr)
open Json (Value)

def type : String := "cloudflare_tiered_cache"

def argoType : String := "cloudflare_argo_tiered_caching"

/-! ## Cache types -/

/-- What becomes of a cache type. -/
inductive Target where
  /-- A tiered cache with this value. -/
  | tieredCache (value : String)
  /-- Argo tiered caching that is on. -/
  | argo
deriving Repr, DecidableEq, Inhabited

namespace Target

def ofCacheType? : String → Option Target
  | "generic" => some .argo
  | "smart" => some (.tieredCache "on")
  | "off" => some (.tieredCache "off")
  | _ => none

def value : Target → String
  | .tieredCache value => value
  | .argo => "on"

end Target

/-! ## Configuration -/

/-- The body with `cache_type` turned into `value`. -/
def setValue (b : Body) (value : Expr) : Body :=
  ((b.renameAttribute? "cache_type" "value").getD b).setAttribute "value" value

/-- The value for a cache type that is not known: `off` if it is that, else `on`. -/
def conditionalValue (cacheType : Expr) : Expr :=
  .conditional (.binary cacheType .eq (.string "off")) (.string "off") (.string "on")

/-- The block as argo tiered caching. -/
def toArgo (ctx : Context) (b : Block) (name : String) : BlockChange :=
  let argo := (b.setLabel 0 argoType).withBody (setValue b.body (.string "on"))
  .replace (argo :: if ctx.movedBlocks then [Block.moved [type, name] [argoType, name]] else [])

def migrateBlock (ctx : Context) (b : Block) : Except MigrationError BlockChange :=
  let name := b.resourceName?.getD ""
  match b.body.get? "cache_type" with
  | none => .ok (.inPlace b)
  | some cacheType =>
    match (ctx.resolve? cacheType).bind Value.string? with
    | none => .ok (.inPlace (b.withBody (setValue b.body (conditionalValue cacheType))))
    | some known =>
      match Target.ofCacheType? known with
      | some .argo => .ok (toArgo ctx b name)
      | some (.tieredCache value) =>
        .ok (.inPlace (b.withBody (setValue b.body (.string value))))
      | none =>
        .error
          { kind := .transform, message := s!"unknown cache_type {Text.quoted known}"
            operation := some "transform_config", resource := some s!"{type}.{name}" }

/-! ## State -/

/-- The new type of an entry: only generic tiered caching changes. -/
def targetTypeOf (entry : Value) : Option String := do
  let inst ← (StateEntry.instances entry).head?
  let cacheType ← (← (← inst.get? "attributes").get? "cache_type").string?
  if Target.ofCacheType? cacheType = some .argo then some argoType else none

def migrateAttributes (a : Value) (path : String) : Except MigrationError Value :=
  match a.get? "cache_type" with
  | none => .ok a
  | some cacheType =>
    match cacheType.string?.bind Target.ofCacheType? with
    | some target => .ok ((a.eraseField "cache_type").setField "value" (.string target.value))
    | none =>
      .error
        { kind := .state, message := s!"unknown cache_type {cacheType.compact}"
          operation := some "transform_state", context := [("path", path)] }

def migrateInstance (inst : Value) (path : String) : Except MigrationError Value := do
  let inst ←
    match inst.get? "attributes" with
    | some a => pure (inst.setField "attributes" (← migrateAttributes a path))
    | none => pure inst
  return inst.setSchemaVersion 0

def migrator : Migrator where
  type := type
  handles := (· == type)
  targetTypeOf := targetTypeOf
  migrateBlock := migrateBlock
  migrateInstance _ := migrateInstance

end TieredCache
end ProviderMigration
