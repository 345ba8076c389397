import ProviderMigration.Proofs.Merge.Dependencies
import ProviderMigration.Proofs.Migration.ConfigRepeat

/-!
# Successors of blocks

A run hands every block to its migrator and then merges. A block that is not folded into another one
has a successor in the result: the first block that its migrator makes of it, as the merge leaves
that. It has the name of the block and its dependencies, retargeted.

* `get?_migrateBody_of_ne`, `get?_setValue_of_ne` — what the migrators do not look at, they keep;
* `exists_carries` — the successor after the migrators;
* `exists_survivorBlock`, `get?_survivorBlock_of_ne` — and after the merge;
* `exists_successors` — the successors of the blocks of a file, in their order.
-/

namespace ProviderMigration

open Hcl (Body Block Item)

/-! ## Bodies -/

section
variable {b : Body} {key : String}

theorem DnsRecord.get?_migrateBody_of_ne (hvalue : key ≠ "value") (hcontent : key ≠ "content")
    (httl : key ≠ "ttl") (hdata : key ≠ "data") (hremoved : key ∉ DnsRecord.removedKeys) :
    (DnsRecord.migrateBody b).get? key = b.get? key := by
  let b₁ := (b.renameAttribute? "value" "content").getD (b.eraseAttribute "value")
  let b₂ := (b₁.ensureAttribute? "ttl" (.int DnsRecord.defaultTtl)).getD b₁
  let b₃ := (b₂.blockToAttribute? "data").getD b₂
  have h₁ : b₁.get? key = b.get? key := Body.get?_getD (Body.get?_eraseAttribute_of_ne hvalue)
    fun _ => Body.get?_of_renameAttribute? hvalue hcontent
  have h₂ : b₂.get? key = b₁.get? key := Body.get?_getD rfl fun _ =>
    Body.get?_of_ensureAttribute? httl
  have h₃ : b₃.get? key = b₂.get? key := Body.get?_getD rfl fun _ =>
    Body.get?_of_blockToAttribute? hdata
  calc
    (DnsRecord.migrateBody b).get? key = b₃.get? key :=
      Body.get?_eraseAttributes_of_not_mem hremoved
    _ = b.get? key := h₃.trans (h₂.trans h₁)

theorem CloudflareList.get?_migrateBody_of_ne (hkey : key ≠ "items") :
    (CloudflareList.migrateBody b).get? key = b.get? key := by
  unfold CloudflareList.migrateBody
  split
  · rfl
  · exact Body.get?_replaceByAttribute_of_ne (fun _ => rfl) hkey _

theorem TieredCache.get?_setValue_of_ne {value : Hcl.Expr} (hold : key ≠ "cache_type")
    (hnew : key ≠ "value") : (TieredCache.setValue b value).get? key = b.get? key := by
  rw [TieredCache.setValue, Body.get?_setAttribute_of_ne _ _ hnew]
  exact Body.get?_getD rfl fun _ => Body.get?_of_renameAttribute? hold hnew

end

/-! ## Migrators -/

/-- The block has the name and the dependencies of another one. -/
structure Carries (b c : Block) : Prop where
  name : c.resourceName? = b.resourceName?
  dependsOn : c.body.get? "depends_on" = b.body.get? "depends_on"

theorem Carries.refl (b : Block) : Carries b b :=
  ⟨rfl, rfl⟩

section
variable {ctx : Context} {b : Block} {change : BlockChange} {type : String} {m : Migrator}

theorem carries_withBody {body : Body} (h : body.get? "depends_on" = b.body.get? "depends_on") :
    Carries b (b.withBody body) :=
  ⟨rfl, h⟩

theorem carries_setLabel {body : Body} (text : String)
    (h : body.get? "depends_on" = b.body.get? "depends_on") :
    Carries b ((b.setLabel 0 text).withBody body) :=
  ⟨(Block.resourceName?_withBody _ _).trans (b.resourceName?_setLabel text), h⟩

theorem TieredCache.exists_carries (h : TieredCache.migrateBlock ctx b = .ok change) :
    ∃ c rest, change.blocks = c :: rest ∧ Carries b c := by
  have hset : ∀ value, (TieredCache.setValue b.body value).get? "depends_on" =
      b.body.get? "depends_on" := fun value =>
    TieredCache.get?_setValue_of_ne (by decide) (by decide)
  rcases TieredCache.migrateBlock_cases ctx b with
    ⟨-, hkept⟩ | ⟨_, -, ⟨value, -, hvalue⟩ | ⟨-, hargo | ⟨error, herror⟩⟩⟩
  · obtain rfl := Except.ok.inj (hkept.symm.trans h)
    exact ⟨b, [], rfl, .refl b⟩
  · obtain rfl := Except.ok.inj (hvalue.symm.trans h)
    exact ⟨_, [], rfl, carries_withBody (hset value)⟩
  · obtain rfl := Except.ok.inj (hargo.symm.trans h)
    exact ⟨_, _, rfl, carries_setLabel _ (hset _)⟩
  · rw [herror] at h
    cases h

/-- What a builtin migrator makes of a block is no list item. -/
theorem exists_carries_of_migrateBlock (hfind : builtinRegistry.find? type = some m)
    (htype : b.resourceType? = some type) (hchange : m.migrateBlock ctx b = .ok change) :
    ∃ c rest, change.blocks = c :: rest ∧ Carries b c ∧
      c.resourceType? ≠ some CloudflareList.itemType := by
  -- One case for each migrator of the registry.
  rcases fromBuiltin_builtin.find? hfind with ⟨rfl, -⟩ | ⟨rfl, rfl⟩ | ⟨rfl, rfl⟩
  · obtain rfl := Except.ok.inj hchange
    have hbody := DnsRecord.get?_migrateBody_of_ne (b := b.body) (by decide : "depends_on" ≠ "value")
      (by decide) (by decide) (by decide) (by decide)
    exact ⟨_, [], rfl, carries_setLabel _ hbody, (CloudflareList.unrelated_dnsRecord b _).2⟩
  · obtain ⟨c, rest, hblocks, hcarries⟩ := TieredCache.exists_carries hchange
    have hunrelated := CloudflareList.unrelated_tieredCache htype hchange
    exact ⟨c, rest, hblocks, hcarries, (hunrelated c (hblocks ▸ .head _)).2⟩
  · obtain rfl := Except.ok.inj hchange
    refine ⟨_, [], rfl, carries_withBody (CloudflareList.get?_migrateBody_of_ne (by decide)), ?_⟩
    rw [Block.resourceType?_withBody, htype]
    decide

end

namespace Engine

variable {e : Engine} {ctx : Context} {source file : String} {b : Block}

/-- The blocks that a block gives way to. -/
def migratedBlocks (e : Engine) (ctx : Context) (source file : String) (b : Block) : List Block :=
  (e.migratedItem ctx source file (.block b)).filterMap Item.block?

theorem blocks_migratedBody (body : Body) :
    (e.migratedBody ctx source file body).blocks =
      body.blocks.flatMap (e.migratedBlocks ctx source file) := by
  rw [Body.blocks, migratedBody, List.filterMap_flatMap, Body.blocks,
    List.filterMap_eq_flatMap_toList, List.flatMap_assoc]
  refine List.flatMap_congr fun item _ => ?_
  cases item with
  | attr a => rfl
  | block b => exact (List.append_nil _).symm

/-- After the migrators a block carries on in the first block that they make of it. If that is a
list item, it is the block itself. -/
theorem exists_carries (hregistry : e.registry = builtinRegistry)
    (hfails : e.fails ctx source file (.block b) = false) :
    ∃ c rest, e.migratedBlocks ctx source file b = c :: rest ∧ Carries b c ∧
      (c = b ∨ c.resourceType? ≠ some CloudflareList.itemType) := by
  have hsame : ([Item.block b].filterMap Item.block?) = [b] := rfl
  cases hresource : b.isResource with
  | false =>
      refine ⟨b, [], ?_, .refl b, .inl rfl⟩
      simp [migratedBlocks, migratedItem, hresource, hsame]
  | true =>
      obtain ⟨type, name, hlabels⟩ := CloudflareList.labels_of_not_fails hresource hfails
      simp only [fails, hresource, Bool.true_and] at hfails
      simp only [migratedBlocks, migratedItem, hresource, if_true]
      cases houtcome : e.migrateBlock ctx source file b with
      | failed error => simp [houtcome] at hfails
      | untouched => exact ⟨b, [], rfl, .refl b, .inl rfl⟩
      | migrated blocks =>
          have hmap : (blocks.map Item.block).filterMap Item.block? = blocks := by
            simp [List.filterMap_map, Function.comp_def, Item.block?]
          obtain ⟨m, change, hfind, hchange, hblocks⟩ := migrateBlock_eq_migrated hlabels houtcome
          obtain ⟨c, rest, hchanged, hcarries, hother⟩ := exists_carries_of_migrateBlock
            (hregistry ▸ hfind) (Block.resource_of_labels hresource hlabels).1 hchange
          dsimp only
          rw [hmap]
          -- The comments that a new block inherits matter to neither.
          rcases hblocks with rfl | rfl
          · exact ⟨c, rest, hchanged, hcarries, .inr hother⟩
          · rw [hchanged]
            exact ⟨_, rest, rfl, ⟨hcarries.name, hcarries.dependsOn⟩, .inr hother⟩

end Engine

/-! ## The merge -/

namespace MergeRule

variable {rule : MergeRule} {siblings blocks : List Block} {b left : Block}

theorem exists_survivorBlock
    (hstays : rule.isItem b = true → (rule.fate siblings blocks b).leaves = false) :
    ∃ left, rule.survivorBlock siblings blocks b = some left := by
  cases hsurvivor : rule.survivor siblings blocks (.block b) with
  | none =>
      obtain ⟨hitem, hleaves⟩ := survivor_block_eq_none_iff.1 hsurvivor
      rw [hstays hitem] at hleaves
      cases hleaves
  | some kept =>
      rcases eq_or_of_survivor_eq_some hsurvivor with
        rfl | ⟨_, _, -, -, -, -, ⟨-, rfl⟩ | ⟨-, rfl⟩⟩ <;>
      exact ⟨_, by rw [survivorBlock, hsurvivor]; rfl⟩

theorem get?_survivorBlock_of_ne (h : rule.survivorBlock siblings blocks b = some left)
    {key : String} (hkey : key ≠ rule.target) : left.body.get? key = b.body.get? key :=
  (get?_survivorBlock h key).resolve_right fun hset => hkey hset.1

end MergeRule

/-! ## Files -/

namespace CloudflareList

/-- The block left has the name of another one, and its dependencies after a merge. -/
structure Succeeds (absorbed : List Absorption) (b left : Block) : Prop where
  name : left.resourceName? = b.resourceName?
  dependencies : dependencies left.body = retargetEntries absorbed (dependencies b.body)

/-- The blocks of a class that holds no item that goes have successors, in their order. -/
theorem exists_successors {e : Engine} {ctx : Context} {source file : String} {own : Body}
    (siblings : List Block) (hregistry : e.registry = builtinRegistry)
    (hfails : ∀ item ∈ own.items, e.fails ctx source file item = false)
    (hnames : (((e.migratedBody ctx source file own).blocks.filter itemRule.isParent).map
      Block.resourceName?).Nodup) {p : Block → Bool}
    (hstays : ∀ b, p b = true → itemRule.isItem b = true →
      (itemRule.fate siblings (e.migratedBody ctx source file own).blocks b).leaves = false) :
    let before := e.migratedBody ctx source file own
    let absorbed := itemRule.absorptions siblings before.blocks
    ∃ lefts : List Block, lefts.Sublist (itemRule.mergeBody siblings before).1.blocks ∧
      List.Forall₂ (Succeeds absorbed) (own.blocks.filter p) lefts := by
  intro before absorbed
  let finish (left : Block) : Block := MergeRule.flush (MergeRule.retargetBlock absorbed left)
  let merged (b : Block) : List Block :=
    ((e.migratedBlocks ctx source file b).filterMap
      (itemRule.survivorBlock siblings before.blocks)).map finish
  -- After the merge the blocks are those that come from each block of the file, in its place.
  have hmerged : (itemRule.mergeBody siblings before).1.blocks.map MergeRule.flush =
      own.blocks.flatMap merged := by
    rw [MergeRule.map_flush_blocks_mergeBody siblings (by decide) hnames,
      Engine.blocks_migratedBody, List.filterMap_flatMap, List.map_flatMap,
      ← Engine.blocks_migratedBody]
  -- The first of the blocks that come from one of the class is its successor.
  have hfirst : ∀ b ∈ own.blocks, p b = true →
      ∃ left rest, merged b = left :: rest ∧ Succeeds absorbed b left := by
    intro b hb hp
    obtain ⟨item, hitem, hblock⟩ := List.mem_filterMap.1 hb
    have hnot : e.fails ctx source file (.block b) = false := by
      cases item with
      | attr a => cases hblock
      | block c => exact Option.some.inj hblock ▸ hfails _ hitem
    obtain ⟨c, rest, hblocks, hcarries, hkind⟩ := Engine.exists_carries hregistry hnot
    obtain ⟨left, hleft⟩ : ∃ left, itemRule.survivorBlock siblings before.blocks c = some left := by
      refine MergeRule.exists_survivorBlock fun hisItem => ?_
      rcases hkind with rfl | hother
      · exact hstays c hp hisItem
      · exact absurd (MergeRule.isItem_iff.1 hisItem).1 hother
    obtain ⟨htype, hlabels⟩ := MergeRule.address_survivorBlock hleft
    have hread : left.body.get? "depends_on" = b.body.get? "depends_on" :=
      (MergeRule.get?_survivorBlock_of_ne hleft (by decide)).trans hcarries.dependsOn
    refine ⟨finish left, (rest.filterMap (itemRule.survivorBlock siblings before.blocks)).map
      finish, ?_, ?_, ?_⟩
    · simp only [merged, hblocks, List.filterMap_cons_some hleft, List.map_cons]
    · exact ((Block.resource_congr htype hlabels).2).trans hcarries.name
    · exact (dependencies_retarget absorbed left.body).trans
        (congrArg (retargetEntries absorbed) (dependencies_congr hread))
  obtain ⟨found, hfound, hpairs⟩ := exists_sublist_flatMap hfirst
  rw [← hmerged] at hfound
  obtain ⟨lefts, hlefts, rfl⟩ := List.sublist_map_iff.1 hfound
  refine ⟨lefts, hlefts, (List.forall₂_map_right_iff.1 hpairs).imp fun b left h => ?_⟩
  exact ⟨h.name, h.dependencies⟩

end CloudflareList

end ProviderMigration
