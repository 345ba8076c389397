import ProviderMigration.Data.Counted
import ProviderMigration.Hcl.Body

/-!
# Editing bodies

Renaming, removal and defaults of attributes, and the conversions between nested blocks and
object attributes. Operations that may not apply return an `Option`.

* `Body.renameAttribute?`, `Body.ensureAttribute?`, `Body.eraseAttributes`;
* `Body.toObject` — a body as an object expression;
* `Body.blockToAttribute?`, `Body.blocksToAttribute?`, `Body.attributeToBlock?`.
-/

namespace ProviderMigration
namespace Hcl

/-! ## Attributes -/

namespace Body

/-- Renames an attribute, unless there is one of the new name. -/
def renameAttribute? (b : Body) (old new : String) : Option Body :=
  if b.has new || !b.has old then none
  else some (b.modifyAttribute old fun a => { a with key := new })

/-- Sets an attribute that is absent. -/
def ensureAttribute? (b : Body) (key : String) (value : Expr) : Option Body :=
  if b.has key then none else some (b.setAttribute key value)

/-- Removes an attribute of each of the names, and counts those that were there. -/
def eraseAttributes (keys : List String) (b : Body) : Counted Body :=
  keys.foldlM (fun b key => if b.has key then Counted.one (b.eraseAttribute key) else pure b) b

end Body

/-! ## Bodies as objects -/

/-- An item of a body on the way to an object: an attribute, or a block of some type as an
object. -/
inductive Member where
  | attr (item : ObjectItem)
  | block (type : String) (object : Expr)

namespace Member

/-- The objects of all blocks of a type. -/
def objectsOf (type : String) (members : List Member) : List Expr :=
  members.filterMap fun
    | .block other object => if other = type then some object else none
    | .attr _ => none

/-- The value that stands for blocks of one type: one object, or a tuple of several. -/
def blockValue : List Expr → Expr
  | [object] => object
  | objects => Expr.tupleOf objects

/-- Adds one member to the object items before it. The blocks of a type are added together where
the first of them stands, unless their name is taken. -/
def add (all : List Member) (items : List ObjectItem) : Member → List ObjectItem
  | .attr item =>
      let blank := item.decor.blankBefore && !items.isEmpty
      items ++ [{ item with decor := { item.decor with blankBefore := blank } }]
  | .block type _ =>
      if items.any fun item => item.key.name? == some type then items
      else items ++ [ObjectItem.named type (blockValue (objectsOf type all))]

end Member

mutual

/-- A body as an object: attributes keep their comments, a block becomes an object, and several
blocks of one type a tuple of objects. -/
def Body.toObject : Body → Expr
  | ⟨items, _⟩ =>
    let members := memberList items
    .object (members.foldl (Member.add members) [])

def memberList : List Item → List Member
  | [] => []
  | item :: items => item.toMember :: memberList items

def Item.toMember : Item → Member
  | .attr a => .attr ⟨.name a.key, a.value, a.decor⟩
  | .block b => .block b.type b.toObject

def Block.toObject : Block → Expr
  | ⟨_, _, body, _, _⟩ => body.toObject

end

/-! ## Blocks as attributes -/

namespace Body

/-- Replaces the first item of class `p` by an attribute with its comments, and removes the other
items of the class. -/
def replaceByAttribute (p : Item → Bool) (key : String) (value : Expr) : List Item → List Item
  | [] => []
  | item :: items =>
    if p item then
      .attr { key := key, value := value, decor := item.decor } :: items.filter (!p ·)
    else
      item :: replaceByAttribute p key value items

/-- Turns the first block of a type into an attribute of that name, unless there is one. -/
def blockToAttribute? (b : Body) (name : String) : Option Body :=
  if b.has name || !b.items.any (Item.isBlockOf name) then none
  else
    let change : Item → Item
      | .block c => .attr { key := name, value := c.body.toObject, decor := c.decor }
      | .attr a => .attr a
    some { b with items := modifyFirst (Item.isBlockOf name) change b.items }

/-- Turns all blocks of a type into one attribute that holds the tuple of their objects. -/
def blocksToAttribute? (b : Body) (name key : String) : Option Body :=
  if b.items.any (Item.isBlockOf name) then
    let objects := (b.blocksOf name).map fun c => c.body.toObject
    some { b with
      items := replaceByAttribute (Item.isBlockOf name) key (Expr.tupleOf objects) b.items }
  else
    none

/-! ## Attributes as blocks -/

/-- The body with one attribute for each item of an object, if every key has a name. -/
def ofObject? (items : List ObjectItem) : Option Body :=
  items.foldlM (fun b item => item.key.name?.map (b.setAttribute · item.value)) empty

/-- Turns an attribute that is an object into a block. -/
def attributeToBlock? (b : Body) (name : String) : Option Body := do
  let a ← b.attribute? name
  let body ← ofObject? (← a.value.object?)
  let block : Item := .block { Block.ofType name with body := body, decor := a.decor }
  return { b with items := modifyFirst (Item.isAttribute name) (fun _ => block) b.items }

end Body

end Hcl
end ProviderMigration
