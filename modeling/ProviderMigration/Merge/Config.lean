import ProviderMigration.Hcl.Printer.Expr
import ProviderMigration.Merge.Collection
import ProviderMigration.Merge.Item

/-!
# Merging in the configuration

`MergeRule.mergeBody` folds the item blocks of a file into its parent blocks. Blocks of the other
files of the module count too: a parent takes in items that stand elsewhere, and an item whose
parent stands elsewhere goes, because the migration of that file takes it in.

* An item belongs to the parent to which its reference attribute refers statically.
* A parent that has the target attribute already takes no items and gets a comment.
* Entries of `depends_on` that name an item that went name its parent instead.
-/

namespace ProviderMigration

open Hcl (Body Block Item Expr TupleItem)

/-! ## Outcome -/

/-- What a merge did. -/
structure MergeOutcome where
  /-- Items folded into a parent. -/
  merged : Nat := 0
  /-- Items that went because a parent elsewhere takes them in. -/
  relocated : Nat := 0
  /-- Items without a parent in the module. -/
  orphaned : Nat := 0
  /-- Parents that have the target attribute already. -/
  aborted : Nat := 0
  /-- References to items that went. -/
  dangling : Nat := 0
deriving Repr, DecidableEq, Inhabited

/-- The type and the name of a resource. -/
structure Address where
  type : String
  name : String
deriving Repr, DecidableEq, Inhabited

namespace Address

/-- Whether a reference refers to the resource or something inside it. -/
def isStartOf (a : Address) (path : List String) : Bool :=
  [a.type, a.name].isPrefixOf path

def toExpr (a : Address) : Expr :=
  Expr.reference [a.type, a.name]

end Address

/-- An item that went, and the parent that took it in. -/
structure Absorption where
  item : Address
  parent : Address
deriving Repr, DecidableEq, Inhabited

/-! ## Items and parents -/

/-- A parent block of the file. -/
structure LocalParent where
  index : Nat
  name : String

/-- An item block of the file, and the name of the parent to which it refers. -/
structure LocalItem where
  index : Nat
  block : Block
  parent : Option String

namespace MergeRule

/-- The name of the parent to which an item refers: `type.name` or one attribute of it. -/
def parentOf? (rule : MergeRule) (item : Block) : Option String :=
  match (item.body.get? rule.parentRef).bind Expr.staticPath? with
  | some [type, name] => if type = rule.parentType then some name else none
  | some [type, name, _] => if type = rule.parentType then some name else none
  | _ => none

/-- The resource blocks with a name among the items of a body, by index. -/
def resources (items : List Item) : List (Nat × String × String × Block) :=
  items.zipIdx.filterMap fun (item, index) => do
    let block ← item.block?
    return (index, ← block.resourceType?, ← block.resourceName?, block)

def localParents (rule : MergeRule) (items : List Item) : List LocalParent :=
  (resources items).filterMap fun (index, type, name, _) =>
    if type = rule.parentType then some ⟨index, name⟩ else none

def localItems (rule : MergeRule) (items : List Item) : List LocalItem :=
  (resources items).filterMap fun (index, type, _, block) =>
    if type ≠ rule.parentType ∧ type = rule.itemType then
      some ⟨index, block, rule.parentOf? block⟩
    else
      none

/-- The blocks of other files that are items of a parent, with the name of the parent. -/
def foreignItems (rule : MergeRule) (parents : List LocalParent) (siblings : List Block) :
    List (Block × String) :=
  (siblings.filter (·.resourceType? == some rule.itemType)).filterMap fun block => do
    let parent ← rule.parentOf? block
    if parents.any (·.name == parent) then some (block, parent) else none

/-! ## Merging -/

/-- A merge under way. -/
structure Progress where
  items : List Item
  /-- The indexes of the item blocks that go. -/
  removed : List Nat := []
  absorbed : List Absorption := []
  outcome : MergeOutcome := {}

def absorption (rule : MergeRule) (item : Block) (parent : String) : Absorption :=
  ⟨⟨rule.itemType, item.resourceName?.getD ""⟩, ⟨rule.parentType, parent⟩⟩

/-- Settles an item without a parent in the file. -/
def settle (rule : MergeRule) (siblings : List Block) (parents : List LocalParent) (p : Progress)
    (item : LocalItem) : Progress :=
  let orphan := { p with outcome := { p.outcome with orphaned := p.outcome.orphaned + 1 } }
  match item.parent with
  | none => orphan
  | some parent =>
    if parents.any (·.name == parent) then p
    else
      let isParent (b : Block) :=
        b.resourceType? == some rule.parentType && b.resourceName? == some parent
      match siblings.find? isParent with
      | none => orphan
      | some foreign =>
        if foreign.body.has rule.target then p
        else
          { p with
            removed := p.removed ++ [item.index]
            absorbed := p.absorbed ++ [rule.absorption item.block parent]
            outcome := { p.outcome with relocated := p.outcome.relocated + 1 } }

/-- The comment on a parent that has the target attribute already. -/
def abortComment (rule : MergeRule) : String :=
  s!"# tfmigrate: {rule.itemType} resources referencing this resource were not merged because " ++
    s!"{rule.target} is already set"

/-- The block with a leading comment, unless it has that comment. -/
def addComment (comment : String) (b : Block) : Block :=
  if b.decor.leading.contains comment then b
  else { b with decor := { b.decor with leading := b.decor.leading ++ [comment] } }

/-- The part of a collection that an item block makes. -/
def partOf (rule : MergeRule) (kind : Option String) (item : Block) : Part :=
  let object := rule.itemObject kind item
  match item.body.get? "for_each", item.body.get? "count" with
  | some entries, _ => .repeated (repeatForEach "each" entries object)
  | none, some count => .repeated (repeatCount count object)
  | none, none => .listed [object]

/-- The kind of a parent, if it is a plain string. -/
def kindOf? (rule : MergeRule) (parent : Block) : Option String :=
  (rule.kind.bind parent.body.get?).bind Expr.string?

/-- Folds its items into a parent. -/
def absorb (rule : MergeRule) (items : List LocalItem) (foreign : List (Block × String))
    (p : Progress) (parent : LocalParent) : Progress :=
  let members := items.filter (·.parent == some parent.name)
  let incoming := (foreign.filter (·.2 == parent.name)).map (·.1)
  let blocks := members.map (·.block) ++ incoming
  match p.items[parent.index]?.bind Item.block? with
  | none => p
  | some block =>
    if blocks.isEmpty then p
    else if block.body.has rule.target then
      { p with
        items := p.items.set parent.index (.block (addComment rule.abortComment block))
        outcome := { p.outcome with aborted := p.outcome.aborted + 1 } }
    else
      let value := collection (blocks.map (rule.partOf (rule.kindOf? block)))
      let merged := block.withBody (block.body.setAttribute rule.target value)
      { p with
        items := p.items.set parent.index (.block merged)
        removed := p.removed ++ members.map (·.index)
        absorbed := p.absorbed ++ blocks.map (rule.absorption · parent.name)
        outcome := { p.outcome with merged := p.outcome.merged + blocks.length } }

end MergeRule

/-! ## Afterwards -/

/-- Removes the items at the indexes, the highest first. -/
def eraseIndexes (indexes : List Nat) (items : List Item) : List Item :=
  (indexes.mergeSort (· ≤ ·)).foldr (fun index items => items.eraseIdx index) items

/-- The first item needs no blank line before it. -/
def closeGap : List Item → List Item
  | [] => []
  | item :: items => item.withDecor { item.decor with blankBefore := false } :: items

/-- The entries without those whose text is the same as that of an earlier one or among `seen`. -/
def distinctEntries (seen : List String) : List TupleItem → List TupleItem
  | [] => []
  | entry :: entries =>
    let text := Hcl.formatExpr entry.value
    if seen.contains text then distinctEntries seen entries
    else entry :: distinctEntries (text :: seen) entries

/-- The absorption of the resource to which an entry of `depends_on` refers. -/
def absorptionOf? (absorbed : List Absorption) (entry : TupleItem) : Option Absorption :=
  entry.value.staticPath?.bind fun path => absorbed.find? (·.item.isStartOf path)

/-- Entries that name an item that went name its parent instead, and none stands there twice. -/
def retargetEntries (absorbed : List Absorption) (entries : List TupleItem) : List TupleItem :=
  if entries.any fun entry => (absorptionOf? absorbed entry).isSome then
    distinctEntries [] <| entries.map fun entry =>
      match absorptionOf? absorbed entry with
      | some a => { entry with value := a.parent.toExpr }
      | none => entry
  else
    entries

/-- The body of a block with `depends_on` retargeted. -/
def retarget (absorbed : List Absorption) (b : Body) : Body :=
  b.modifyAttribute "depends_on" fun a =>
    match a.value with
    | .tuple entries => { a with value := .tuple (retargetEntries absorbed entries) }
    | _ => a

/-- The number of references to items that went. -/
def danglingCount (absorbed : List Absorption) (items : List Item) : Nat :=
  (Hcl.itemReferences items).countP fun path => absorbed.any (·.item.isStartOf path)

/-- Folds the items of a file into their parents; `siblings` are the resource blocks of the other
files. -/
def MergeRule.mergeBody (rule : MergeRule) (siblings : List Block) (b : Body) :
    Body × MergeOutcome :=
  let parents := rule.localParents b.items
  let items := rule.localItems b.items
  let foreign := rule.foreignItems parents siblings
  let p := items.foldl (rule.settle siblings parents) { items := b.items }
  let p := parents.foldl (rule.absorb items foreign) p
  -- Indexes are those of the file as it was read, so items go only after all merging.
  let kept := closeGap (eraseIndexes p.removed p.items)
  let change : Item → Item
    | .block c => .block (c.withBody (retarget p.absorbed c.body))
    | .attr a => .attr a
  let result := kept.map change
  (⟨result, b.trailing⟩, { p.outcome with dangling := danglingCount p.absorbed result })

end ProviderMigration
