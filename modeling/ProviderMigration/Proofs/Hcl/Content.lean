import ProviderMigration.Hcl.Body.Edit
import ProviderMigration.Proofs.Hcl.Body
import Mathlib.Data.List.Forall2

/-!
# What a block says

Two blocks say the same if they differ only in where they stand: in their spans, and in the
comments and the blank line before them. What is read from a block, and what items pass on to
their parents, depends on its content alone.

* `Body.bare` — a body without spans;
* `Block.content` — a block without spans and without what comes before it.
-/

namespace ProviderMigration
namespace Hcl

/-! ## Without spans -/

def Attribute.bare (a : Attribute) : Attribute :=
  { a with span := ⟨0, 0⟩ }

mutual

/-- The body without spans at any depth. -/
def Body.bare : Body → Body
  | ⟨items, trailing⟩ => ⟨bareItems items, trailing⟩

def bareItems : List Item → List Item
  | [] => []
  | item :: items => item.bare :: bareItems items

def Item.bare : Item → Item
  | .attr a => .attr a.bare
  | .block b => .block b.bare

def Block.bare : Block → Block
  | ⟨type, labels, body, decor, _⟩ => ⟨type, labels, body.bare, decor, ⟨0, 0⟩⟩

end

theorem bareItems_eq_map (items : List Item) : bareItems items = items.map Item.bare := by
  induction items with
  | nil => rfl
  | cons item items ih => rw [bareItems, List.map_cons, ih]

namespace Item

@[simp] theorem attribute?_bare (item : Item) :
    item.bare.attribute? = item.attribute?.map Attribute.bare := by
  cases item <;> simp [bare, attribute?]

@[simp] theorem block?_bare (item : Item) : item.bare.block? = item.block?.map Block.bare := by
  cases item <;> simp [bare, block?]

@[simp] theorem decor_bare (item : Item) : item.bare.decor = item.decor := by
  cases item with
  | attr a => rfl
  | block b =>
      cases b
      rfl

end Item

namespace Block

@[simp] theorem type_bare (b : Block) : b.bare.type = b.type := by
  cases b
  rfl

@[simp] theorem labels_bare (b : Block) : b.bare.labels = b.labels := by
  cases b
  rfl

@[simp] theorem body_bare (b : Block) : b.bare.body = b.body.bare := by
  cases b
  rfl

@[simp] theorem decor_bare (b : Block) : b.bare.decor = b.decor := by
  cases b
  rfl

end Block

namespace Body

@[simp] theorem items_bare (b : Body) : b.bare.items = b.items.map Item.bare := by
  cases b
  exact bareItems_eq_map _

@[simp] theorem trailing_bare (b : Body) : b.bare.trailing = b.trailing := by
  cases b
  rfl

theorem bare_mk (items : List Item) (trailing : List String) :
    (⟨items, trailing⟩ : Body).bare = ⟨items.map Item.bare, trailing⟩ := by
  rw [bare, bareItems_eq_map]

theorem attributes_bare (b : Body) : b.bare.attributes = b.attributes.map Attribute.bare := by
  rw [attributes, items_bare, List.filterMap_map, attributes, List.map_filterMap]
  exact List.filterMap_congr fun item _ => item.attribute?_bare

theorem blocks_bare (b : Body) : b.bare.blocks = b.blocks.map Block.bare := by
  rw [blocks, items_bare, List.filterMap_map, blocks, List.map_filterMap]
  exact List.filterMap_congr fun item _ => item.block?_bare

theorem blocksOf_bare (b : Body) (type : String) :
    b.bare.blocksOf type = (b.blocksOf type).map Block.bare := by
  rw [blocksOf, blocks_bare, List.filter_map, blocksOf]
  congr 2
  funext block
  simp

@[simp] theorem get?_bare (b : Body) (key : String) : b.bare.get? key = b.get? key := by
  rw [get?, attribute?, attributes_bare, List.find?_map, Option.map_map]
  rfl

@[simp] theorem has_bare (b : Body) (key : String) : b.bare.has key = b.has key := by
  rw [has, attribute?, attributes_bare, List.find?_map, Option.isSome_map]
  rfl

end Body

/-! ## Bodies as objects -/

mutual

theorem Body.toObject_bare : ∀ b : Body, b.bare.toObject = b.toObject
  | ⟨items, _⟩ => by rw [Body.bare, Body.toObject, Body.toObject, memberList_bare items]

theorem memberList_bare : ∀ items : List Item, memberList (bareItems items) = memberList items
  | [] => rfl
  | item :: items => by
      rw [bareItems, memberList, memberList, Item.toMember_bare item, memberList_bare items]

theorem Item.toMember_bare : ∀ item : Item, item.bare.toMember = item.toMember
  | .attr _ => rfl
  | .block b => by
      rw [Item.bare, Item.toMember, Item.toMember, Block.type_bare, Block.toObject_bare b]

theorem Block.toObject_bare : ∀ b : Block, b.bare.toObject = b.toObject
  | ⟨_, _, body, _, _⟩ => by
      rw [Block.bare, Block.toObject, Block.toObject, Body.toObject_bare body]

end

/-! ## Content -/

namespace Block

/-- The block without spans and without the comments and the blank line before it. -/
def content (b : Block) : Block :=
  { b.bare with decor := { b.decor with leading := [], blankBefore := false } }

@[simp] theorem resourceType?_content (b : Block) :
    b.content.resourceType? = b.resourceType? := by
  cases b
  rfl

@[simp] theorem body_content (b : Block) : b.content.body = b.body.bare := b.body_bare

variable {b c : Block}

theorem bare_body_of_content (h : b.content = c.content) : b.body.bare = c.body.bare := by
  simpa using congrArg Block.body h

/-- A change of the body that does not look at spans makes the same of the same content. -/
theorem content_withBody {f : Body → Body} (hf : ∀ body, (f body).bare = f body.bare)
    (h : b.content = c.content) :
    (b.withBody (f b.body)).content = (c.withBody (f c.body)).content := by
  have hbody : (f b.body).bare = (f c.body).bare := by
    rw [hf, hf, bare_body_of_content h]
  have hdecor : b.content.decor = c.content.decor := congrArg Block.decor h
  cases b
  cases c
  simp_all [content, withBody, bare]

end Block

/-- What depends on the content alone is the same of blocks with the same contents. -/
theorem map_of_content {β : Type} {g : Block → β} (hg : ∀ b : Block, g b.content = g b)
    {blocks blocks' : List Block} (h : blocks.map Block.content = blocks'.map Block.content) :
    blocks.map g = blocks'.map g := by
  have hmap : ∀ blocks : List Block, blocks.map g = (blocks.map Block.content).map g := by
    intro blocks
    rw [List.map_map]
    exact List.map_congr_left fun b _ => (hg b).symm
  rw [hmap, hmap blocks', h]

/-- A change that makes the same of the same content, of every block of a list. -/
theorem map_content_map {f : Block → Block}
    (hf : ∀ b c : Block, b.content = c.content → (f b).content = (f c).content)
    {blocks blocks' : List Block} (h : blocks.map Block.content = blocks'.map Block.content) :
    blocks.map (Block.content ∘ f) = blocks'.map (Block.content ∘ f) := by
  rw [← List.forall₂_eq_eq_eq, List.forall₂_map_left_iff, List.forall₂_map_right_iff] at h ⊢
  exact h.imp hf

theorem map_content_resourcesOf (type : String) (blocks : List Block) :
    (resourcesOf type blocks).map Block.content =
      resourcesOf type (blocks.map Block.content) := by
  rw [resourcesOf, resourcesOf, List.filter_map]
  congr 2
  funext b
  rw [Function.comp_apply, Block.resourceType?_content]

end Hcl
end ProviderMigration
