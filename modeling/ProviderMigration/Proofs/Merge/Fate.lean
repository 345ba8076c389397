import ProviderMigration.Merge.Config
import ProviderMigration.Proofs.Hcl.Body

/-!
# Fates of items

What a merge does to each structure of a file, said without indexes. An item block has one of
five fates (`ItemFate`); a parent block takes in its followers, or gets a comment, or stays; all
else stays. `MergeRule.survivor` puts this together.

* `mem_localItems`, `mem_localParents` — what the indexed lists of a merge hold;
* `map_block_localItems`, `map_name_localParents` — they are the blocks of the file, in order.
-/

namespace ProviderMigration

open Hcl (Attribute Block Body Expr Item)

/-! ## Fates -/

/-- What becomes of an item block of a file. -/
inductive ItemFate where
  /-- A parent of the file takes it in. -/
  | folded
  /-- A parent of another file takes it in. -/
  | relocated
  /-- Its parent is in the file and has the target attribute already. -/
  | heldHere
  /-- Its parent is in another file and has the target attribute already. -/
  | heldElsewhere
  /-- It refers to no parent of the module. -/
  | orphaned
deriving Repr, DecidableEq, Inhabited

namespace ItemFate

/-- The block goes from its file. -/
def leaves : ItemFate → Bool
  | .folded => true
  | .relocated => true
  | _ => false

end ItemFate

namespace MergeRule

/-- A resource block of the parent type that has a name. -/
def isParent (rule : MergeRule) (b : Block) : Bool :=
  b.resourceType? == some rule.parentType && b.resourceName?.isSome

/-- A resource block of the item type that has a name. -/
def isItem (rule : MergeRule) (b : Block) : Bool :=
  b.resourceType? == some rule.itemType && b.resourceName?.isSome

/-- The first parent of that name. -/
def parentNamed? (rule : MergeRule) (blocks : List Block) (name : String) : Option Block :=
  blocks.find? fun b => b.resourceType? == some rule.parentType && b.resourceName? == some name

/-- The fate of an item of a file with these blocks. Parents of the file come before those of
other files. -/
def fate (rule : MergeRule) (siblings blocks : List Block) (item : Block) : ItemFate :=
  match rule.parentOf? item with
  | none => .orphaned
  | some name =>
    match rule.parentNamed? blocks name with
    | some parent => if parent.body.has rule.target then .heldHere else .folded
    | none =>
      match rule.parentNamed? siblings name with
      | some parent => if parent.body.has rule.target then .heldElsewhere else .relocated
      | none => .orphaned

/-- The items that refer to a parent: those of the file, then those of other files. -/
def followers (rule : MergeRule) (siblings blocks : List Block) (name : String) : List Block :=
  (blocks.filter rule.isItem).filter (rule.parentOf? · == some name) ++
    (siblings.filter (·.resourceType? == some rule.itemType)).filter
      (rule.parentOf? · == some name)

/-- The target attribute of a parent that takes in its followers. -/
def collected (rule : MergeRule) (parent : Block) (followers : List Block) : Attribute :=
  { key := rule.target, value := collection (followers.map (rule.partOf (rule.kindOf? parent))) }

/-- A parent block after the merge. -/
def settledParent (rule : MergeRule) (siblings blocks : List Block) (b : Block) : Block :=
  let followers := rule.followers siblings blocks (b.resourceName?.getD "")
  -- Without followers nothing is said of a target attribute that is there already.
  if followers.isEmpty then b
  else if b.body.has rule.target then addComment rule.abortComment b
  else b.withBody (b.body.insertAttribute (rule.collected b followers))

/-- What is left of an item of a body. -/
def survivor (rule : MergeRule) (siblings blocks : List Block) : Item → Option Item
  | .attr a => some (.attr a)
  | .block b =>
    if rule.isItem b then
      if (rule.fate siblings blocks b).leaves then none else some (.block b)
    else if rule.isParent b then
      some (.block (rule.settledParent siblings blocks b))
    else
      some (.block b)

/-! ## The indexed lists -/

variable {rule : MergeRule} {items : List Item}

theorem mem_resources {i : Nat} {type name : String} {b : Block} :
    (i, type, name, b) ∈ resources items ↔
      items[i]? = some (.block b) ∧ b.resourceType? = some type ∧ b.resourceName? = some name := by
  simp only [resources, List.mem_filterMap, Prod.exists, List.mk_mem_zipIdx_iff_getElem?]
  constructor
  · rintro ⟨item, j, hitem, h⟩
    cases item with
    | attr a => simp [Item.block?] at h
    | block c =>
        simp only [Item.block?, Option.pure_def, Option.bind_eq_bind, Option.bind_some,
          Option.bind_eq_some_iff, Option.some.injEq, Prod.mk.injEq] at h
        rcases h with ⟨t, ht, n, hn, rfl, rfl, rfl, rfl⟩
        exact ⟨hitem, ht, hn⟩
  · rintro ⟨hitem, htype, hname⟩
    exact ⟨.block b, i, hitem, by simp [Item.block?, htype, hname]⟩

theorem mem_localParents {p : LocalParent} :
    p ∈ rule.localParents items ↔
      ∃ b, items[p.index]? = some (.block b) ∧ b.resourceType? = some rule.parentType ∧
        b.resourceName? = some p.name := by
  simp only [localParents, List.mem_filterMap, Prod.exists, mem_resources]
  constructor
  · rintro ⟨i, type, name, b, ⟨hitem, htype, hname⟩, h⟩
    split at h
    · rename_i hparent
      obtain rfl := Option.some.inj h
      exact ⟨b, hitem, hparent ▸ htype, hname⟩
    · simp at h
  · rintro ⟨b, hitem, htype, hname⟩
    exact ⟨p.index, rule.parentType, p.name, b, ⟨hitem, htype, hname⟩, by simp⟩

theorem isItem_iff {b : Block} :
    rule.isItem b = true ↔
      b.resourceType? = some rule.itemType ∧ ∃ name, b.resourceName? = some name := by
  simp [isItem, Option.isSome_iff_exists]

theorem isParent_iff {b : Block} :
    rule.isParent b = true ↔
      b.resourceType? = some rule.parentType ∧ ∃ name, b.resourceName? = some name := by
  simp [isParent, Option.isSome_iff_exists]

theorem parentNamed?_eq_find? (rule : MergeRule) (blocks : List Block) (name : String) :
    rule.parentNamed? blocks name =
      (blocks.filter rule.isParent).find? (·.resourceName? == some name) := by
  rw [parentNamed?, List.find?_filter]
  congr 1
  funext b
  by_cases hname : b.resourceName? = some name
  · by_cases htype : b.resourceType? = some rule.parentType <;> simp [isParent, hname, htype]
  · simp [hname]

theorem mem_localItems (distinct : rule.itemType ≠ rule.parentType) {l : LocalItem} :
    l ∈ rule.localItems items ↔
      items[l.index]? = some (.block l.block) ∧ rule.isItem l.block = true ∧
        l.parent = rule.parentOf? l.block := by
  simp only [localItems, List.mem_filterMap, Prod.exists, mem_resources, isItem_iff]
  constructor
  · rintro ⟨i, type, name, b, ⟨hitem, htype, hname⟩, h⟩
    split at h
    · rename_i hkind
      obtain rfl := Option.some.inj h
      exact ⟨hitem, ⟨hkind.2 ▸ htype, name, hname⟩, rfl⟩
    · simp at h
  -- The test for parents comes first, so it matters that the types are different.
  · rintro ⟨hitem, ⟨htype, name, hname⟩, hparent⟩
    refine ⟨l.index, rule.itemType, name, l.block, ⟨hitem, htype, hname⟩, ?_⟩
    simp [distinct, ← hparent]

theorem index_resources_sublist (items : List Item) :
    ((resources items).map (·.1)).Sublist (List.range items.length) := by
  -- The resources are selected from the indexed items, and each keeps its index.
  have hsub : ((resources items).map (·.1)).Sublist (items.zipIdx.map (·.2)) := by
    refine map_filterMap_sublist ?_ items.zipIdx
    intro p r h
    simp only [Option.pure_def, Option.bind_eq_bind, Option.bind_eq_some_iff,
      Option.some.injEq] at h
    rcases h with ⟨_, _, _, _, _, _, rfl⟩
    rfl
  rwa [List.zipIdx_map_snd, ← List.range_eq_range'] at hsub

theorem nodup_index_localParents (rule : MergeRule) (items : List Item) :
    ((rule.localParents items).map (·.index)).Nodup := by
  have hsub : ((rule.localParents items).map (·.index)).Sublist ((resources items).map (·.1)) := by
    refine map_filterMap_sublist ?_ (resources items)
    intro r parent h
    simp only [Option.ite_none_right_eq_some, Option.some.injEq] at h
    rw [← h.2]
  exact (List.nodup_range.sublist (index_resources_sublist items)).sublist hsub

theorem nodup_index_localItems (rule : MergeRule) (items : List Item) :
    ((rule.localItems items).map (·.index)).Nodup := by
  have hsub : ((rule.localItems items).map (·.index)).Sublist ((resources items).map (·.1)) := by
    refine map_filterMap_sublist ?_ (resources items)
    intro r item h
    simp only [Option.ite_none_right_eq_some, Option.some.injEq] at h
    rw [← h.2]
  exact (List.nodup_range.sublist (index_resources_sublist items)).sublist hsub

/-- What is selected of the resources by type, name and block does not depend on the indexes. -/
theorem filterMap_resources {β : Type} (select : String → String → Block → Option β)
    (items : List Item) :
    ((resources items).filterMap fun r => select r.2.1 r.2.2.1 r.2.2.2) =
      (items.filterMap Item.block?).filterMap fun b =>
        b.resourceType?.bind fun type => b.resourceName?.bind fun name => select type name b := by
  -- On the right the blocks come without indexes; they are put back to compare item by item.
  have hzip : (items.zipIdx.map Prod.fst) = items := List.zipIdx_map_fst 0 items
  conv_rhs => rw [← hzip]
  rw [resources, List.filterMap_map, List.filterMap_filterMap, List.filterMap_filterMap]
  apply List.filterMap_congr
  rintro ⟨item, index⟩ _
  cases item with
  | attr a => rfl
  | block b =>
      cases htype : b.resourceType? with
      | none => simp [Item.block?, htype]
      | some type => cases hname : b.resourceName? <;> simp [Item.block?, htype, hname]

/-- The local items are the item blocks of the file, in order. -/
theorem map_block_localItems (distinct : rule.itemType ≠ rule.parentType) (items : List Item) :
    (rule.localItems items).map (·.block) =
      (items.filterMap Item.block?).filter rule.isItem := by
  let select (type : String) (_ : String) (b : Block) : Option Block :=
    if type ≠ rule.parentType ∧ type = rule.itemType then some b else none
  calc
    (rule.localItems items).map (·.block)
        = (resources items).filterMap fun r => select r.2.1 r.2.2.1 r.2.2.2 := by
          rw [localItems, List.map_filterMap]
          apply List.filterMap_congr
          intro r _
          split
          simp_all [select]
    _ = (items.filterMap Item.block?).filterMap fun b =>
          b.resourceType?.bind fun type => b.resourceName?.bind fun name => select type name b :=
        filterMap_resources select items
    _ = (items.filterMap Item.block?).filter rule.isItem := by
          rw [← List.filterMap_eq_filter]
          apply List.filterMap_congr
          intro b _
          rw [Option.guard, isItem]
          cases htype : b.resourceType? with
          | none => simp
          | some type =>
              by_cases hkind : type = rule.itemType
              · cases hname : b.resourceName? <;> simp [select, hkind, distinct]
              · simp [select, hkind]

/-- The names of the local parents are those of the parent blocks of the file, in order. -/
theorem map_name_localParents (rule : MergeRule) (items : List Item) :
    (rule.localParents items).map (fun parent => some parent.name) =
      ((items.filterMap Item.block?).filter rule.isParent).map Block.resourceName? := by
  let select (type name : String) (_ : Block) : Option (Option String) :=
    if type = rule.parentType then some (some name) else none
  calc
    (rule.localParents items).map (fun parent => some parent.name)
        = (resources items).filterMap fun r => select r.2.1 r.2.2.1 r.2.2.2 := by
          rw [localParents, List.map_filterMap]
          apply List.filterMap_congr
          intro r _
          split
          simp_all [select]
    _ = (items.filterMap Item.block?).filterMap fun b =>
          b.resourceType?.bind fun type => b.resourceName?.bind fun name => select type name b :=
        filterMap_resources select items
    _ = ((items.filterMap Item.block?).filter rule.isParent).map Block.resourceName? := by
          rw [← List.filterMap_eq_filter, List.map_filterMap]
          apply List.filterMap_congr
          intro b _
          rw [Option.guard, isParent]
          cases htype : b.resourceType? with
          | none => simp
          | some type =>
              by_cases hkind : type = rule.parentType
              · cases hname : b.resourceName? <;> simp [select, hkind, hname]
              · simp [select, hkind]

end MergeRule

end ProviderMigration
