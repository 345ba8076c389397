import ProviderMigration.Hcl.Expr
import ProviderMigration.Hcl.Span

/-!
# Bodies

The content of a file or block: attributes and blocks in order, and the comments after the last
of them.

* `Body`, `Item`, `Block`, `Attribute`, `Label`;
* attribute access (`Body.get?`, `Body.setAttribute`, …), where the first attribute of a name
  counts;
* `Block.resourceType?`, `Block.resourceName?` for `resource` blocks.
-/

namespace ProviderMigration
namespace Hcl

/-! ## Trees -/

structure Attribute where
  key : String
  value : Expr
  decor : Decor := {}
  span : Span := ⟨0, 0⟩

inductive Label where
  | quoted (text : String)
  | bare (name : String)
deriving Repr, DecidableEq, Inhabited

namespace Label

def text : Label → String
  | .quoted text => text
  | .bare name => name

/-- The same kind of label with another text. -/
def withText (text : String) : Label → Label
  | .quoted _ => .quoted text
  | .bare _ => .bare text

end Label

mutual

structure Body where
  items : List Item
  /-- The comments after the last item. -/
  trailing : List String

inductive Item where
  | attr (a : Attribute)
  | block (b : Block)

structure Block where
  type : String
  labels : List Label
  body : Body
  decor : Decor
  span : Span

end

instance : Inhabited Body := ⟨⟨[], []⟩⟩
instance : Inhabited Block := ⟨⟨"", [], default, {}, ⟨0, 0⟩⟩⟩

/-! ## Items -/

namespace Item

def attribute? : Item → Option Attribute
  | .attr a => some a
  | .block _ => none

def block? : Item → Option Block
  | .block b => some b
  | .attr _ => none

def isBlock : Item → Bool
  | .block _ => true
  | .attr _ => false

def decor : Item → Decor
  | .attr a => a.decor
  | .block b => b.decor

def withDecor (d : Decor) : Item → Item
  | .attr a => .attr { a with decor := d }
  | .block b => .block { b with decor := d }

/-- The attribute of that name. -/
def isAttribute (key : String) : Item → Bool
  | .attr a => a.key == key
  | .block _ => false

/-- A block of that type. -/
def isBlockOf (type : String) : Item → Bool
  | .block b => b.type == type
  | .attr _ => false

end Item

/-! ## Bodies -/

namespace Body

def empty : Body := ⟨[], []⟩

/-- No items and no comments. -/
def isEmpty (b : Body) : Bool :=
  b.items.isEmpty && b.trailing.isEmpty

def attributes (b : Body) : List Attribute :=
  b.items.filterMap Item.attribute?

def blocks (b : Body) : List Block :=
  b.items.filterMap Item.block?

def blocksOf (b : Body) (type : String) : List Block :=
  b.blocks.filter (·.type == type)

def attribute? (b : Body) (key : String) : Option Attribute :=
  b.attributes.find? (·.key == key)

def get? (b : Body) (key : String) : Option Expr :=
  (b.attribute? key).map (·.value)

def has (b : Body) (key : String) : Bool :=
  (b.attribute? key).isSome

/-- Applies `f` to the first item of class `p`. -/
def modifyFirst (p : Item → Bool) (f : Item → Item) : List Item → List Item
  | [] => []
  | item :: items => if p item then f item :: items else item :: modifyFirst p f items

/-- Applies `f` to the first attribute of that name. -/
def modifyAttribute (b : Body) (key : String) (f : Attribute → Attribute) : Body :=
  let change : Item → Item
    | .attr a => .attr (f a)
    | .block c => .block c
  { b with items := modifyFirst (Item.isAttribute key) change b.items }

/-- Where a new attribute goes: after the last attribute, else before the first block, else at
the end. -/
def insertionIndex (items : List Item) : Nat :=
  match items.reverse.findIdx? (!·.isBlock) with
  | some fromEnd => items.length - fromEnd
  | none => (items.findIdx? Item.isBlock).getD items.length

def insertAttribute (b : Body) (a : Attribute) : Body :=
  { b with items := b.items.insertIdx (insertionIndex b.items) (.attr a) }

/-- Sets the value of an attribute. An existing attribute keeps its place and comments. -/
def setAttribute (b : Body) (key : String) (value : Expr) : Body :=
  if b.has key then
    b.modifyAttribute key fun a => { a with value := value }
  else
    b.insertAttribute { key := key, value := value }

/-- The body without the first attribute of that name. -/
def eraseAttribute (b : Body) (key : String) : Body :=
  { b with items := b.items.eraseP (Item.isAttribute key) }

def pushBlock (b : Body) (block : Block) : Body :=
  { b with items := b.items ++ [.block block] }

/-- The body without the blocks of that type. -/
def eraseBlocks (b : Body) (type : String) : Body :=
  { b with items := b.items.filter fun item => !item.isBlockOf type }

end Body

/-! ## Blocks -/

namespace Block

/-- An empty block without labels. -/
def ofType (type : String) : Block :=
  ⟨type, [], .empty, {}, ⟨0, 0⟩⟩

/-- An empty `resource` block. -/
def resource (type name : String) : Block :=
  { ofType "resource" with labels := [.quoted type, .quoted name] }

def label? (b : Block) (index : Nat) : Option String :=
  (b.labels[index]?).map Label.text

/-- Replaces the text of a label and keeps its kind. -/
def setLabel (b : Block) (index : Nat) (text : String) : Block :=
  { b with labels := b.labels.modify index (Label.withText text) }

def isResource (b : Block) : Bool :=
  b.type == "resource"

def resourceType? (b : Block) : Option String :=
  if b.isResource then b.label? 0 else none

def resourceName? (b : Block) : Option String :=
  if b.isResource then b.label? 1 else none

/-- The address `type.name` of a resource block. -/
def address? (b : Block) : Option String := do
  return (← b.resourceType?) ++ "." ++ (← b.resourceName?)

/-- The block with another body. -/
def withBody (b : Block) (body : Body) : Block :=
  { b with body := body }

end Block

end Hcl
end ProviderMigration
