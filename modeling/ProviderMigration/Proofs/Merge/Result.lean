import ProviderMigration.Proofs.Hcl.Body
import ProviderMigration.Proofs.Merge.Config

/-!
# The blocks of a merged file

What a merge leaves of the parents and of the items of a file, each in their order, where all of
them have names. Only the blank line before the first structure is not looked at.

* `items_mergeBody` — the items that stay;
* `parents_mergeBody` — the parents with what they take in.
-/

namespace ProviderMigration

open Hcl (Attribute Block Body Item resourcesOf)

namespace MergeRule

variable {rule : MergeRule} {siblings blocks : List Block}

theorem parentNamed?_eq_find?_resourcesOf (rule : MergeRule) (blocks : List Block)
    (name : String) :
    rule.parentNamed? blocks name =
      (resourcesOf rule.parentType blocks).find? (·.resourceName? == some name) := by
  rw [parentNamed?, resourcesOf, List.find?_filter]
  simp only [Bool.decide_and, Bool.decide_eq_true]

/-- Where all resources of a type have names, the type alone selects them. -/
theorem filter_named {type : String} {blocks : List Block}
    (hnamed : ∀ b ∈ resourcesOf type blocks, b.resourceName?.isSome = true) :
    blocks.filter (fun b => b.resourceType? == some type && b.resourceName?.isSome) =
      resourcesOf type blocks := by
  rw [resourcesOf]
  apply List.filter_congr
  -- A block of another type is in neither list.
  intro b hb
  cases htype : b.resourceType? == some type with
  | false => rfl
  | true => exact hnamed b (List.mem_filter.2 ⟨hb, htype⟩)

/-! ## Decoration -/

/-- The block without a blank line before it. -/
def flush (b : Block) : Block :=
  { b with decor := { b.decor with blankBefore := false } }

/-- The block with `depends_on` retargeted. -/
def retargetBlock (absorbed : List Absorption) (b : Block) : Block :=
  b.withBody (retarget absorbed b.body)

theorem map_flush_closeGap (items : List Item) :
    ((closeGap items).filterMap Item.block?).map flush =
      (items.filterMap Item.block?).map flush := by
  cases items with
  | nil => rfl
  | cons item items =>
      cases item with
      | attr a => rfl
      | block b => simp [closeGap, Item.withDecor, Item.decor, Item.block?, flush]

theorem block?_retargetItem (absorbed : List Absorption) (item : Item) :
    (retargetItem absorbed item).block? = item.block?.map (retargetBlock absorbed) := by
  cases item <;> rfl

/-- After the removal neither the gap nor the retargeting changes which blocks there are. -/
theorem map_flush_result (absorbed : List Absorption) (items : List Item) :
    (((closeGap items).map (retargetItem absorbed)).filterMap Item.block?).map flush =
      (items.filterMap Item.block?).map (fun b => flush (retargetBlock absorbed b)) := by
  have hblocks : ((closeGap items).map (retargetItem absorbed)).filterMap Item.block? =
      ((closeGap items).filterMap Item.block?).map (retargetBlock absorbed) := by
    rw [List.filterMap_map, List.map_filterMap]
    exact List.filterMap_congr fun item _ => block?_retargetItem absorbed item
  -- The decoration of a block and its body are apart from one another.
  have hcomm : ∀ b, flush (retargetBlock absorbed b) = retargetBlock absorbed (flush b) :=
    fun _ => rfl
  calc
    (((closeGap items).map (retargetItem absorbed)).filterMap Item.block?).map flush
        = (((closeGap items).filterMap Item.block?).map flush).map (retargetBlock absorbed) := by
          rw [hblocks, List.map_map, List.map_map]
          rfl
    _ = (items.filterMap Item.block?).map (fun b => flush (retargetBlock absorbed b)) := by
          rw [map_flush_closeGap, List.map_map]
          rfl

/-! ## Survivors -/

/-- What is left of a block. -/
def survivorBlock (rule : MergeRule) (siblings blocks : List Block) (b : Block) : Option Block :=
  (rule.survivor siblings blocks (.block b)).bind Item.block?

theorem blocks_survivors (items : List Item) :
    (items.filterMap (rule.survivor siblings blocks)).filterMap Item.block? =
      (items.filterMap Item.block?).filterMap (rule.survivorBlock siblings blocks) := by
  rw [List.filterMap_filterMap, List.filterMap_filterMap]
  apply List.filterMap_congr
  intro item _
  cases item <;> rfl

@[simp] theorem body_addComment (comment : String) (b : Block) :
    (addComment comment b).body = b.body := by
  rw [addComment]
  split <;> rfl

theorem address_settledParent (b : Block) :
    (rule.settledParent siblings blocks b).type = b.type ∧
      (rule.settledParent siblings blocks b).labels = b.labels := by
  rw [settledParent]
  split
  · exact ⟨rfl, rfl⟩
  · split
    · rw [addComment]
      split <;> exact ⟨rfl, rfl⟩
    · exact ⟨rfl, rfl⟩

/-- What is left of a block is of the same type and has the same labels. -/
theorem address_survivorBlock {b left : Block}
    (h : rule.survivorBlock siblings blocks b = some left) :
    left.type = b.type ∧ left.labels = b.labels := by
  obtain ⟨item, hitem, hblock⟩ := Option.bind_eq_some_iff.1 h
  simp only [survivor] at hitem
  split at hitem
  · split at hitem
    · simp at hitem
    · obtain rfl := Option.some.inj hitem
      obtain rfl := Option.some.inj hblock
      exact ⟨rfl, rfl⟩
  · split at hitem
    · obtain rfl := Option.some.inj hitem
      obtain rfl := Option.some.inj hblock
      exact address_settledParent b
    · obtain rfl := Option.some.inj hitem
      obtain rfl := Option.some.inj hblock
      exact ⟨rfl, rfl⟩

/-- What a merge leaves of the blocks, but for the blank line before the first of all. -/
theorem map_flush_blocks_mergeBody (siblings : List Block)
    (distinct : rule.itemType ≠ rule.parentType) {b : Body}
    (hnames : ((b.blocks.filter rule.isParent).map Block.resourceName?).Nodup) :
    (rule.mergeBody siblings b).1.blocks.map flush =
      (b.blocks.filterMap (rule.survivorBlock siblings b.blocks)).map fun left =>
        flush (retargetBlock (rule.absorptions siblings b.blocks) left) := by
  rw [mergeBody_eq siblings distinct hnames, Body.blocks, survivors, map_flush_result,
    blocks_survivors]
  rfl

/-- What a merge leaves of the blocks of a class that neither depends on their bodies nor on the
blank line before them. -/
theorem map_flush_filter_mergeBody (siblings : List Block)
    (distinct : rule.itemType ≠ rule.parentType) {b : Body}
    (hnames : ((b.blocks.filter rule.isParent).map Block.resourceName?).Nodup) {p : Block → Bool}
    (hp : ∀ old left : Block, left.type = old.type → left.labels = old.labels → p left = p old) :
    ((rule.mergeBody siblings b).1.blocks.filter p).map flush =
      ((b.blocks.filter p).filterMap (rule.survivorBlock siblings b.blocks)).map
        fun left => flush (retargetBlock (rule.absorptions siblings b.blocks) left) := by
  have hflush : p ∘ flush = p := funext fun c => hp c (flush c) rfl rfl
  have hretarget : (p ∘ fun left =>
      flush (retargetBlock (rule.absorptions siblings b.blocks) left)) = p :=
    funext fun c => hp c _ rfl rfl
  have hsurvivor : ∀ old left, rule.survivorBlock siblings b.blocks old = some left →
      p left = p old := fun old left h =>
    hp old left (address_survivorBlock h).1 (address_survivorBlock h).2
  have hmap := congrArg (List.filter p) (map_flush_blocks_mergeBody siblings distinct hnames)
  rwa [List.filter_map, hflush, List.filter_map, hretarget,
    filter_filterMap_of_agree hsurvivor] at hmap

/-- What a merge leaves of the blocks of a type. -/
theorem map_flush_mergeBody (siblings : List Block) (distinct : rule.itemType ≠ rule.parentType)
    {b : Body} (hnames : ((b.blocks.filter rule.isParent).map Block.resourceName?).Nodup)
    (type : String) :
    (resourcesOf type (rule.mergeBody siblings b).1.blocks).map flush =
      ((resourcesOf type b.blocks).filterMap (rule.survivorBlock siblings b.blocks)).map
        fun left => flush (retargetBlock (rule.absorptions siblings b.blocks) left) :=
  map_flush_filter_mergeBody siblings distinct hnames fun _ _ htype hlabels => by
    rw [(Block.resource_congr htype hlabels).1]

/-- The items that stay. -/
theorem items_mergeBody (siblings : List Block) (distinct : rule.itemType ≠ rule.parentType)
    {b : Body} (hnames : ((b.blocks.filter rule.isParent).map Block.resourceName?).Nodup)
    (hitems : ∀ item ∈ resourcesOf rule.itemType b.blocks, item.resourceName?.isSome = true) :
    (resourcesOf rule.itemType (rule.mergeBody siblings b).1.blocks).map flush =
      ((resourcesOf rule.itemType b.blocks).filter
          fun item => !(rule.fate siblings b.blocks item).leaves).map
        fun left => flush (retargetBlock (rule.absorptions siblings b.blocks) left) := by
  rw [map_flush_mergeBody siblings distinct hnames]
  congr 1
  rw [← List.filterMap_eq_filter]
  apply List.filterMap_congr
  intro item hitem
  have htype := (List.mem_filter.1 hitem).2
  -- It has a name, so the merge counts it as an item.
  have hkind : rule.isItem item = true := by
    rw [isItem, htype, hitems item hitem]
    rfl
  simp only [survivorBlock, survivor, hkind, if_true, Option.guard]
  by_cases hleaves : (rule.fate siblings b.blocks item).leaves = true
  · simp [hleaves]
  · simp [hleaves, Item.block?]

/-- The parents, with what they take in. -/
theorem parents_mergeBody (siblings : List Block) (distinct : rule.itemType ≠ rule.parentType)
    {b : Body} (hnames : ((b.blocks.filter rule.isParent).map Block.resourceName?).Nodup)
    (hparents : ∀ parent ∈ resourcesOf rule.parentType b.blocks,
      parent.resourceName?.isSome = true) :
    (resourcesOf rule.parentType (rule.mergeBody siblings b).1.blocks).map flush =
      (resourcesOf rule.parentType b.blocks).map fun parent =>
        flush (retargetBlock (rule.absorptions siblings b.blocks)
          (rule.settledParent siblings b.blocks parent)) := by
  rw [map_flush_mergeBody siblings distinct hnames, List.map_filterMap, ← List.filterMap_eq_map]
  apply List.filterMap_congr
  intro parent hparent
  have htype := (List.mem_filter.1 hparent).2
  have hkind : rule.isParent parent = true := by
    rw [isParent, htype, hparents parent hparent]
    rfl
  -- A parent is no item, so it is not removed.
  have hother : rule.isItem parent = false := by
    rw [beq_iff_eq] at htype
    simp [isItem, htype, distinct.symm]
  simp [survivorBlock, survivor, hkind, hother, Item.block?]

end MergeRule

end ProviderMigration
