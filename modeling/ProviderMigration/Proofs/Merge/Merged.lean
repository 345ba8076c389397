import ProviderMigration.Proofs.Hcl.Keys
import ProviderMigration.Proofs.Merge.Result

/-!
# A merged file stays as it is

Within one file, a merge leaves no item behind that a parent would take in: such items are in the
`target` attribute of the parent, and the parents that had one have the comment already.

* `MergeRule.Merged` — a file with nothing left to merge;
* `mergeBody_of_merged`, `merged_mergeBody` — a merge keeps such a file, and makes one;
* `exists_of_mem_blocks_mergeBody` — where a block of the merged file comes from.
-/

namespace ProviderMigration

open Hcl (Block Body Item resourcesOf)

namespace MergeRule

variable {rule : MergeRule} {b : Body}

/-- No item of the file can be taken in, and every parent is settled. -/
structure Merged (rule : MergeRule) (b : Body) : Prop where
  names : ((b.blocks.filter rule.isParent).map Block.resourceName?).Nodup
  items : ∀ item ∈ b.blocks, rule.isItem item = true → (rule.fate [] b.blocks item).leaves = false
  parents : ∀ parent ∈ b.blocks, rule.isParent parent = true →
    rule.settledParent [] b.blocks parent = parent
  gap : closeGap b.items = b.items

/-! ## Nothing to merge -/

theorem retarget_nil (b : Body) : retarget [] b = b := by
  apply Body.modifyAttribute_of_fixed
  intro a _
  have hentries : ∀ entries, retargetEntries [] entries = entries := by
    intro entries
    have hnone : entries.any (fun entry => (absorptionOf? [] entry).isSome) = false := by
      simp [absorptionOf?]
    rw [retargetEntries, hnone, if_neg Bool.false_ne_true]
  rcases a with ⟨key, value, decor, span⟩
  cases value <;> simp [hentries]

theorem absorptions_of_merged (h : rule.Merged b) : rule.absorptions [] b.blocks = [] := by
  have hkept : ∀ item ∈ b.blocks.filter rule.isItem,
      (rule.fate [] b.blocks item).leaves = false := fun item hitem =>
    h.items item (List.mem_filter.1 hitem).1 (List.mem_filter.1 hitem).2
  rw [absorptions, List.append_eq_nil_iff]
  constructor
  · have hnone : ((b.blocks.filter rule.isItem).filter fun item =>
        rule.fate [] b.blocks item == .relocated) = [] := by
      rw [List.filter_eq_nil_iff]
      intro item hitem hfate
      rw [beq_iff_eq] at hfate
      simpa [hfate, ItemFate.leaves] using hkept item hitem
    rw [hnone, List.filterMap_nil]
  · rw [List.flatMap_eq_nil_iff]
    intro name _
    rw [absorbedBy]
    split
    · rename_i htakes
      -- A follower of a parent that takes items in would have left.
      have hnone : rule.followers [] b.blocks name = [] := by
        simp only [followers, List.filter_nil, List.append_nil, List.filter_eq_nil_iff]
        intro item hitem hname
        have hfolded := (fate_eq_folded_iff []).2 ⟨name, eq_of_beq hname, htakes⟩
        simpa [hfolded, ItemFate.leaves] using hkept item hitem
      rw [hnone, List.map_nil]
    · rfl

theorem survivor_of_merged (h : rule.Merged b) {item : Item} (hitem : item ∈ b.items) :
    rule.survivor [] b.blocks item = some item := by
  cases item with
  | attr a => rfl
  | block c =>
      have hc : c ∈ b.blocks := Body.mem_blocks.2 hitem
      rw [survivor]
      split
      · rename_i hkind
        rw [h.items c hc hkind, if_neg Bool.false_ne_true]
      · split
        · rename_i hparent
          rw [h.parents c hc hparent]
        · rfl

/-- A merge keeps a merged file. -/
theorem mergeBody_of_merged (distinct : rule.itemType ≠ rule.parentType) (h : rule.Merged b) :
    (rule.mergeBody [] b).1 = b := by
  have hall : b.items.filterMap (rule.survivor [] b.blocks) = b.items := by
    rw [List.filterMap_congr fun item hitem => survivor_of_merged h hitem]
    exact List.filterMap_some
  have hretarget : ∀ item, retargetItem [] item = item := by
    intro item
    cases item with
    | attr a => rfl
    | block c => rw [retargetItem, retarget_nil, Block.withBody_body]
  rw [mergeBody_eq [] distinct h.names]
  simp only [absorptions_of_merged h, survivors, hall, h.gap]
  rw [List.map_congr_left fun item _ => hretarget item, List.map_id'']
  · cases b
    rfl
  · exact fun _ => rfl

/-! ## The merged file -/

theorem agreesOff_retarget (absorbed : List Absorption) (b : Body) :
    Body.AgreesOff "depends_on" b (retarget absorbed b) :=
  Body.agreesOff_modifyAttribute b "depends_on" fun a => by
    split <;> rfl

theorem addComment_of_mem {comment : String} {b : Block} (h : comment ∈ b.decor.leading) :
    addComment comment b = b := by
  rw [addComment, if_pos (by simpa using h)]

theorem mem_leading_addComment (comment : String) (b : Block) :
    comment ∈ (addComment comment b).decor.leading := by
  rw [addComment]
  split
  · rename_i h
    simpa using h
  · simp

/-- The target attribute of a parent stays. -/
theorem mem_keys_settledParent {siblings blocks : List Block} {parent : Block}
    (h : rule.target ∈ parent.body.keys) :
    rule.target ∈ (rule.settledParent siblings blocks parent).body.keys := by
  rw [settledParent]
  split
  · exact h
  · rw [if_pos (Body.has_eq_true_iff.2 h), body_addComment]
    exact h

/-- A block of the merged file is one that stays, with `depends_on` retargeted, but for the blank
line before the first of all. -/
theorem exists_of_mem_blocks_mergeBody (siblings : List Block)
    (distinct : rule.itemType ≠ rule.parentType)
    (hnames : ((b.blocks.filter rule.isParent).map Block.resourceName?).Nodup) {c : Block}
    (hc : c ∈ (rule.mergeBody siblings b).1.blocks) :
    ∃ old kept, old ∈ b.blocks ∧
      rule.survivor siblings b.blocks (.block old) = some (.block kept) ∧
      flush c = flush (retargetBlock (rule.absorptions siblings b.blocks) kept) := by
  have hflush : flush c ∈ (rule.mergeBody siblings b).1.blocks.map flush :=
    List.mem_map_of_mem hc
  rw [mergeBody_eq siblings distinct hnames, Body.blocks, survivors, map_flush_result,
    blocks_survivors] at hflush
  obtain ⟨kept, hkept, heq⟩ := List.mem_map.1 hflush
  obtain ⟨old, hold, hsurvivor⟩ := List.mem_filterMap.1 hkept
  obtain ⟨item, hitem, hblock⟩ := Option.bind_eq_some_iff.1 hsurvivor
  refine ⟨old, kept, hold, ?_, heq.symm⟩
  cases item with
  | attr a => simp [Item.block?] at hblock
  | block d => rw [hitem, Option.some.inj hblock]

theorem closeGap_closeGap (items : List Item) : closeGap (closeGap items) = closeGap items := by
  cases items with
  | nil => rfl
  | cons item items => cases item <;> rfl

theorem closeGap_map_retargetItem (absorbed : List Absorption) (items : List Item) :
    closeGap (items.map (retargetItem absorbed)) =
      (closeGap items).map (retargetItem absorbed) := by
  cases items with
  | nil => rfl
  | cons item items => cases item <;> rfl

/-- What the retargeting and the gap leave alone. -/
theorem same_of_flush_eq {absorbed : List Absorption} {c kept : Block}
    (h : flush c = flush (retargetBlock absorbed kept)) :
    c.type = kept.type ∧ c.labels = kept.labels ∧ c.decor.leading = kept.decor.leading ∧
      Body.AgreesOff "depends_on" kept.body c.body := by
  have htype := congrArg Block.type h
  have hlabels := congrArg Block.labels h
  have hleading := congrArg (fun c : Block => c.decor.leading) h
  have hbody : c.body = retarget absorbed kept.body := congrArg Block.body h
  exact ⟨htype, hlabels, hleading, hbody ▸ agreesOff_retarget absorbed kept.body⟩

theorem resourceName?_settledParent (siblings blocks : List Block) (parent : Block) :
    (rule.settledParent siblings blocks parent).resourceName? = parent.resourceName? :=
  (Block.resource_congr (address_settledParent parent).1 (address_settledParent parent).2).2

/-- Whether a block is a parent or an item depends on its type and labels. -/
theorem kind_congr {old left : Block} (htype : left.type = old.type)
    (hlabels : left.labels = old.labels) :
    rule.isParent left = rule.isParent old ∧ rule.isItem left = rule.isItem old := by
  obtain ⟨hresource, hname⟩ := Block.resource_congr htype hlabels
  simp only [isParent, isItem, hresource, hname, and_self]

/-- A parent whose follower stays has the target attribute already. -/
theorem has_target_of_follower
    (hnames : ((b.blocks.filter rule.isParent).map Block.resourceName?).Nodup) {parent item : Block}
    {name : String} (hparent : parent ∈ b.blocks)
    (htype : parent.resourceType? = some rule.parentType)
    (hname : parent.resourceName? = some name) (hrefers : rule.parentOf? item = some name)
    (hstays : (rule.fate [] b.blocks item).leaves = false) :
    parent.body.has rule.target = true := by
  by_contra hnot
  have hfirst := parentNamed?_eq hnames hparent htype hname
  have hleaves : (rule.fate [] b.blocks item).leaves = true :=
    leaves_fate_iff.2 ⟨name, hrefers, .inl ⟨parent, hfirst, by simpa using hnot⟩⟩
  rw [hstays] at hleaves
  simp at hleaves

section
variable (distinct : rule.itemType ≠ rule.parentType)
  (hnames : ((b.blocks.filter rule.isParent).map Block.resourceName?).Nodup)

include distinct hnames

/-- The parents of the merged file. -/
theorem filter_isParent_mergeBody :
    ((rule.mergeBody [] b).1.blocks.filter rule.isParent).map flush =
      (b.blocks.filter rule.isParent).map fun parent =>
        flush (retargetBlock (rule.absorptions [] b.blocks)
          (rule.settledParent [] b.blocks parent)) := by
  rw [map_flush_filter_mergeBody [] distinct hnames fun _ _ htype hlabels =>
      (kind_congr htype hlabels).1,
    List.map_filterMap, ← List.filterMap_eq_map]
  apply List.filterMap_congr
  intro parent hparent
  have hkind := (List.mem_filter.1 hparent).2
  have hother : rule.isItem parent = false := by
    simp [isItem, (isParent_iff.1 hkind).1, distinct.symm]
  simp [survivorBlock, survivor, hkind, hother, Item.block?]

/-- The items of the merged file. -/
theorem filter_isItem_mergeBody :
    ((rule.mergeBody [] b).1.blocks.filter rule.isItem).map flush =
      ((b.blocks.filter rule.isItem).filter fun item =>
          !(rule.fate [] b.blocks item).leaves).map
        fun item => flush (retargetBlock (rule.absorptions [] b.blocks) item) := by
  rw [map_flush_filter_mergeBody [] distinct hnames fun _ _ htype hlabels =>
    (kind_congr htype hlabels).2]
  congr 1
  rw [← List.filterMap_eq_filter (p := fun item => !(rule.fate [] b.blocks item).leaves)]
  apply List.filterMap_congr
  intro item hitem
  have hkind := (List.mem_filter.1 hitem).2
  simp only [survivorBlock, survivor, hkind, if_true, Option.guard]
  by_cases hleaves : (rule.fate [] b.blocks item).leaves = true
  · simp [hleaves]
  · simp [hleaves, Item.block?]

/-- The names of the parents stay. -/
theorem names_mergeBody :
    ((rule.mergeBody [] b).1.blocks.filter rule.isParent).map Block.resourceName? =
      (b.blocks.filter rule.isParent).map Block.resourceName? := by
  have h := congrArg (List.map Block.resourceName?) (filter_isParent_mergeBody distinct hnames)
  rw [List.map_map, List.map_map] at h
  have hflush : Block.resourceName? ∘ flush = Block.resourceName? := rfl
  rw [hflush] at h
  rw [h]
  exact List.map_congr_left fun parent _ => resourceName?_settledParent [] b.blocks parent

/-- The parent of a name in the merged file. -/
theorem parentNamed?_mergeBody (name : String) :
    (rule.parentNamed? (rule.mergeBody [] b).1.blocks name).map flush =
      (rule.parentNamed? b.blocks name).map fun parent =>
        flush (retargetBlock (rule.absorptions [] b.blocks)
          (rule.settledParent [] b.blocks parent)) := by
  have hfind : ∀ (f : Block → Block) (blocks : List Block),
      (∀ c, (f c).resourceName? = c.resourceName?) →
      (blocks.find? (·.resourceName? == some name)).map f =
        (blocks.map f).find? (·.resourceName? == some name) := by
    intro f blocks hf
    rw [List.find?_map]
    simp only [Function.comp_def, hf]
  rw [parentNamed?_eq_find?, parentNamed?_eq_find?, hfind, hfind,
    filter_isParent_mergeBody distinct hnames]
  · exact fun parent => resourceName?_settledParent [] b.blocks parent
  · exact fun _ => rfl

/-- An item of the merged file stood there before, refers to the same parent, and stayed. -/
theorem exists_item_of_mem (href : rule.parentRef ≠ "depends_on") {item : Block}
    (hitem : item ∈ (rule.mergeBody [] b).1.blocks) (hkind : rule.isItem item = true) :
    ∃ old ∈ b.blocks, rule.isItem old = true ∧ rule.parentOf? item = rule.parentOf? old ∧
      (rule.fate [] b.blocks old).leaves = false := by
  have hmem : flush item ∈ ((rule.mergeBody [] b).1.blocks.filter rule.isItem).map flush :=
    List.mem_map_of_mem (List.mem_filter.2 ⟨hitem, hkind⟩)
  rw [filter_isItem_mergeBody distinct hnames] at hmem
  obtain ⟨old, hold, heq⟩ := List.mem_map.1 hmem
  obtain ⟨hold, hstays⟩ := List.mem_filter.1 hold
  obtain ⟨hold, hkind⟩ := List.mem_filter.1 hold
  refine ⟨old, hold, hkind, ?_, by simpa using hstays⟩
  have hbody : item.body = retarget (rule.absorptions [] b.blocks) old.body :=
    (congrArg Block.body heq).symm
  rw [parentOf?, hbody, (agreesOff_retarget _ old.body).get? _ href, ← parentOf?]

/-- A parent of the merged file is one of those before, settled. -/
theorem exists_parent_of_mem {parent : Block} (hparent : parent ∈ (rule.mergeBody [] b).1.blocks)
    (hkind : rule.isParent parent = true) :
    ∃ old ∈ b.blocks, rule.isParent old = true ∧
      flush parent = flush
        (retargetBlock (rule.absorptions [] b.blocks) (rule.settledParent [] b.blocks old)) := by
  have hmem : flush parent ∈ ((rule.mergeBody [] b).1.blocks.filter rule.isParent).map flush :=
    List.mem_map_of_mem (List.mem_filter.2 ⟨hparent, hkind⟩)
  rw [filter_isParent_mergeBody distinct hnames] at hmem
  obtain ⟨old, hold, heq⟩ := List.mem_map.1 hmem
  exact ⟨old, (List.mem_filter.1 hold).1, (List.mem_filter.1 hold).2, heq.symm⟩

theorem fate_mergeBody (href : rule.parentRef ≠ "depends_on") {item : Block}
    (hitem : item ∈ (rule.mergeBody [] b).1.blocks) (hkind : rule.isItem item = true) :
    (rule.fate [] (rule.mergeBody [] b).1.blocks item).leaves = false := by
  obtain ⟨old, -, -, hsame, hstays⟩ := exists_item_of_mem distinct hnames href hitem hkind
  rw [Bool.eq_false_iff, ne_eq, leaves_fate_iff]
  rintro ⟨name, hname, ⟨parent, hparent, hhas⟩ | ⟨-, parent, hparent, -⟩⟩
  -- Its parent had no target attribute before either, so the item would have left then.
  · have hmap := parentNamed?_mergeBody distinct hnames name
    rw [hparent, Option.map_some] at hmap
    obtain ⟨before, hbefore, heq⟩ := Option.map_eq_some_iff.1 hmap.symm
    obtain ⟨-, -, -, hbody⟩ := same_of_flush_eq heq.symm
    have hnone : before.body.has rule.target = false := by
      rw [Body.has_eq_false_iff] at hhas ⊢
      exact fun h => hhas (hbody.keys ▸ mem_keys_settledParent h)
    have hleaves : (rule.fate [] b.blocks old).leaves = true :=
      leaves_fate_iff.2 ⟨name, hsame ▸ hname, .inl ⟨before, hbefore, hnone⟩⟩
    rw [hstays] at hleaves
    simp at hleaves
  · simp [parentNamed?] at hparent

theorem settledParent_mergeBody (href : rule.parentRef ≠ "depends_on") {parent : Block}
    (hparent : parent ∈ (rule.mergeBody [] b).1.blocks) (hkind : rule.isParent parent = true) :
    rule.settledParent [] (rule.mergeBody [] b).1.blocks parent = parent := by
  obtain ⟨old, hold, hkindOld, heq⟩ := exists_parent_of_mem distinct hnames hparent hkind
  obtain ⟨htypeOf, hlabels, hleading, hbody⟩ := same_of_flush_eq heq
  obtain ⟨htype, name, hname⟩ := isParent_iff.1 hkindOld
  have hsame : parent.resourceName? = some name := by
    rw [(Block.resource_congr htypeOf hlabels).2, resourceName?_settledParent, hname]
  cases hfollowers : rule.followers [] (rule.mergeBody [] b).1.blocks name with
  | nil => simp [settledParent, hsame, hfollowers]
  | cons item items =>
      have hitem : item ∈ rule.followers [] (rule.mergeBody [] b).1.blocks name := by
        simp [hfollowers]
      simp only [followers, List.filter_nil, List.append_nil, List.mem_filter] at hitem
      obtain ⟨before, hbefore, hkindItem, hparentOf, hstays⟩ :=
        exists_item_of_mem distinct hnames href hitem.1.1 hitem.1.2
      have hrefers : rule.parentOf? before = some name := hparentOf ▸ eq_of_beq hitem.2
      -- The follower stayed, so the parent got the comment and has it still.
      have hhas := has_target_of_follower hnames hold htype hname hrefers hstays
      have hmember : before ∈ rule.followers [] b.blocks name := by
        simp [followers, hbefore, hkindItem, hrefers]
      have hsettled : rule.settledParent [] b.blocks old = addComment rule.abortComment old := by
        simp [settledParent, hname, List.ne_nil_of_mem hmember, hhas]
      have hcomment : rule.abortComment ∈ parent.decor.leading := by
        rw [hleading, hsettled]
        exact mem_leading_addComment _ _
      have hstill : parent.body.has rule.target = true := by
        rw [Body.has_eq_true_iff, hbody.keys]
        exact mem_keys_settledParent (Body.has_eq_true_iff.1 hhas)
      simp [settledParent, hsame, hfollowers, hstill, addComment_of_mem hcomment]

/-- A merge makes a merged file. -/
theorem merged_mergeBody (href : rule.parentRef ≠ "depends_on") :
    rule.Merged (rule.mergeBody [] b).1 where
  names := by
    rw [names_mergeBody distinct hnames]
    exact hnames
  items _ hitem hkind := fate_mergeBody distinct hnames href hitem hkind
  parents _ hparent hkind := settledParent_mergeBody distinct hnames href hparent hkind
  gap := by
    rw [mergeBody_eq [] distinct hnames]
    dsimp only
    rw [closeGap_map_retargetItem, survivors, closeGap_closeGap]

end

end MergeRule

end ProviderMigration
