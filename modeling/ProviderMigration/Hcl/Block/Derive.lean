import ProviderMigration.Hcl.Body

/-!
# Derived blocks

* `Derivation.apply` — a resource block built from the attributes of another one;
* `Block.moved` — the block that records that a resource has a new address.
-/

namespace ProviderMigration
namespace Hcl

/-- How a resource block is made from another one. Where two rules set the same attribute, the
later of these fields wins. -/
structure Derivation where
  type : String
  name : String
  /-- The attributes taken over as they are. -/
  copy : List String := []
  /-- The attributes taken over under a new name, each as the old and the new name. -/
  rename : List (String × String) := []
  /-- The attributes with a value of their own. -/
  set : List (String × Expr) := []
  /-- Whether the arguments that every resource has are taken over too. -/
  keepMeta : Bool := false

namespace Derivation

/-- The arguments of every resource that come before its own. -/
def leadingMeta : List String := ["count", "for_each", "provider"]

/-- Sets `key` to the value of the attribute `old` of the source, if there is one. -/
def take (source : Body) (b : Body) (old key : String) : Body :=
  match source.get? old with
  | some value => b.setAttribute key value
  | none => b

def apply (d : Derivation) (source : Block) : Block :=
  let keepMeta (keys : List String) := if d.keepMeta then keys else []
  let copyAll (b : Body) (keys : List String) := keys.foldl (fun b key => take source.body b key key) b
  let b := copyAll .empty (keepMeta leadingMeta)
  let b := copyAll b d.copy
  let b := d.rename.foldl (fun b (old, new) => take source.body b old new) b
  let b := d.set.foldl (fun b (key, value) => b.setAttribute key value) b
  let b := copyAll b (keepMeta ["depends_on"])
  let nested := (keepMeta ["lifecycle"]).flatMap source.body.blocksOf
  (Block.resource d.type d.name).withBody (nested.foldl Body.pushBlock b)

end Derivation

/-- The block that records a move from one address to another. -/
def Block.moved (old new : List String) : Block :=
  (Block.ofType "moved").withBody
    ((Body.empty.setAttribute "from" (Expr.reference old)).setAttribute "to" (Expr.reference new))

end Hcl
end ProviderMigration
