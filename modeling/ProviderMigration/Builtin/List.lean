import ProviderMigration.Hcl.Body.Edit
import ProviderMigration.Json.Coerce
import ProviderMigration.Merge.Collection
import ProviderMigration.Merge.Rule
import ProviderMigration.Migrator

/-!
# Lists

The `item` blocks of a `cloudflare_list` become its attribute `items`, and
`cloudflare_list_item` resources are folded in there too (`itemRule`).
-/

namespace ProviderMigration
namespace CloudflareList

open Hcl (Body Block Item Expr ObjectItem)
open Json (Value Members)

def type : String := "cloudflare_list"

def itemType : String := "cloudflare_list_item"

/-- The fields of a redirect that are booleans. -/
def redirectFlags : List String :=
  ["include_subdomains", "subpath_matching", "preserve_query_string", "preserve_path_suffix"]

/-- What the value of an item can be. -/
def valueKinds : List String := ["ip", "asn", "hostname", "redirect"]

/-! ## Items in the configuration -/

/-- A block that repeats `item`. -/
def isDynamicItem (b : Block) : Bool :=
  b.type == "dynamic" && b.label? 0 == some "item"

def isItemBlock (item : Item) : Bool :=
  item.block?.any fun b => b.type == "item" || isDynamicItem b

/-- The item with the flags of a redirect as booleans. -/
def flagsToBool (item : ObjectItem) : ObjectItem :=
  let change (field : ObjectItem) : ObjectItem :=
    if field.key.name?.any redirectFlags.contains then
      { field with value := field.value.flagToBool }
    else field
  match item.key.name?, item.value with
  | some "redirect", .object fields => { item with value := .object (fields.map change) }
  | _, _ => item

/-- The fields in the value of an item. -/
def valueFields (b : Body) : List ObjectItem :=
  let value :=
    match (b.blocksOf "value").head? with
    | some block => some block.body.toObject
    | none => b.get? "value"
  match value with
  | some (.object fields) => fields.map flagsToBool
  | _ => []

/-- An item as one object: the fields of its value, then its other attributes. -/
def itemObject (b : Body) : Expr :=
  let others := b.attributes.filter (·.key != "value")
  .object (valueFields b ++ others.map fun a => ObjectItem.named a.key a.value)

/-- The name by which the content of a dynamic block refers to the entry. -/
def iteratorName (b : Body) : String :=
  match (b.get? "iterator").bind Expr.staticPath? with
  | some [name] => name
  | _ => "item"

/-- The items that a dynamic block generates. -/
def dynamicItems (b : Body) : Expr :=
  let object :=
    match (b.blocksOf "content").head? with
    | some content => itemObject content.body
    | none => .object []
  repeatForEach (iteratorName b) ((b.get? "for_each").getD (Expr.tupleOf [])) object

def partOf? (b : Block) : Option Part :=
  if b.type == "item" then some (.listed [itemObject b.body])
  else if isDynamicItem b then some (.repeated (dynamicItems b.body))
  else none

def itemsExpr (b : Body) : Expr :=
  collection (b.blocks.filterMap partOf?)

/-- The body with its item blocks turned into `items`, unless there is such an attribute. -/
def migrateBody (b : Body) : Body :=
  if b.has "items" || !b.items.any isItemBlock then b
  else { b with items := Body.replaceByAttribute isItemBlock "items" (itemsExpr b) b.items }

/-! ## Items in the state -/

/-- The value of an item field: of an array the first one, without nulls. -/
def migrateField? (key : String) (value : Value) : Option Value :=
  let normalize (v : Value) : Value :=
    let v := v.dropNulls
    if key = "redirect" then
      redirectFlags.foldl (fun v flag => (v.coerceField? flag Value.flagToBool).getD v) v
    else v
  match value with
  | .null => none
  | .array items => items.head?.map normalize
  | v => some (normalize v)

/-- The members of an item's value. -/
def valueMembers (value : Option Value) : Members :=
  let first :=
    match value with
    | some (.array items) => items.head?
    | other => other
  match first with
  | some (.object members) =>
    members.filterMap fun (key, v) =>
      if valueKinds.contains key then (migrateField? key v).map (key, ·) else none
  | _ => []

/-- An item as one object: the fields of its value, then its other fields. -/
def migrateItem : Value → Value
  | .object members =>
    let others := (Members.erase members "value").filter fun m => !m.2.isNull
    .object (others.foldl (fun ms m => Members.insert ms m.1 m.2)
      (valueMembers (Members.get? members "value")))
  | v => v

def migrateAttributes (a : Value) : Value :=
  match a.get? "item" with
  | none => a
  | some item =>
    let rest := a.eraseField "item"
    match item with
    | .array (first :: others) =>
      let items := (first :: others).map migrateItem
      (rest.setField "num_items" (.int items.length)).setField "items" (.array items)
    | _ => rest

def migrator : Migrator where
  type := type
  handles := (· == type)
  migrateBlock _ b := .ok (.inPlace (b.withBody (migrateBody b.body)))
  migrateInstance _ inst _ :=
    .ok ((inst.modifyField "attributes" migrateAttributes).setSchemaVersion 0)

/-! ## Items as resources -/

/-- How `cloudflare_list_item` resources are folded into their lists. -/
def itemRule : MergeRule where
  itemType := itemType
  parentType := type
  target := "items"
  parentRef := "list_id"
  parentId := "id"
  count := some "num_items"
  kind := some "kind"
  fields :=
    [(MergeField.scalar "ip").forKind "ip",
     (MergeField.scalar "asn").forKind "asn",
     (MergeField.object "hostname" [.scalar "url_hostname"]).forKind "hostname",
     (MergeField.object "redirect"
        ([.scalar "source_url", .scalar "target_url"] ++ redirectFlags.map MergeField.boolean ++
          [.scalar "status_code"])).forKind "redirect",
     MergeField.scalar "comment"]

end CloudflareList
end ProviderMigration
