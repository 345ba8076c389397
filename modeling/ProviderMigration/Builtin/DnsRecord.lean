import ProviderMigration.Hcl.Body.Edit
import ProviderMigration.Json.Coerce
import ProviderMigration.Migrator
import ProviderMigration.Text.Word

/-!
# DNS records

`cloudflare_record` becomes `cloudflare_dns_record`, everywhere in the text. The attribute `value`
becomes `content`, the block `data` an attribute, and `ttl` is required.
-/

namespace ProviderMigration
namespace DnsRecord

open Hcl (Body Block Expr)
open Json (Value)

def oldType : String := "cloudflare_record"

def newType : String := "cloudflare_dns_record"

/-- The attributes that are gone. -/
def removedKeys : List String := ["hostname", "allow_overwrite"]

/-- The time to live that means "automatic". -/
def defaultTtl : Int := 1

def migrateBody (b : Body) : Body :=
  let b := (b.renameAttribute? "value" "content").getD (b.eraseAttribute "value")
  let b := (b.ensureAttribute? "ttl" (.int defaultTtl)).getD b
  let b := (b.blockToAttribute? "data").getD b
  (b.eraseAttributes removedKeys).value

def migrateAttributes (a : Value) : Value :=
  let a := (a.renameField? "value" "content").getD a
  let a := a.eraseField "value"
  let a := (a.flattenField {} "data").value
  let a := a.modifyField "data" Value.dropNulls
  let a := (a.coerceField? "ttl" Value.toNumber).getD a
  let a := (a.coerceField? "priority" Value.toNumber).getD a
  let a := (a.ensureField? "ttl" (.int defaultTtl)).getD a
  (a.eraseFields removedKeys).value

/-- The text with the old type renamed where it stands alone. -/
def renameType (source : String) : String :=
  String.ofList (Text.replaceWord oldType.toList newType.toList false source.toList)

def migrator : Migrator where
  type := oldType
  handles type := type == oldType || type == newType
  targetType := some newType
  preprocess := renameType
  migrateBlock _ b := .ok (.inPlace ((b.setLabel 0 newType).withBody (migrateBody b.body)))
  migrateInstance _ inst _ :=
    .ok ((inst.modifyField "attributes" migrateAttributes).setSchemaVersion 0)

end DnsRecord
end ProviderMigration
